import RecordDecoding.Decode.Scalar
import RecordDecoding.Proofs.Number.Canonical

namespace RecordDecoding

namespace Numeral

-- The integer that a literal of JSON stands for, by its digits.
inductive Denotes : List Char → Int → Prop
  | plain {cs} : IsWhole cs → Denotes cs (Nat.ofDigitChars 10 cs 0)
  | negative {cs} : IsWhole cs → Denotes ('-' :: cs) (-(Nat.ofDigitChars 10 cs 0 : Int))

variable {cs : List Char} {text : String} {n : Int}

theorem Denotes.isInteger (h : Denotes cs n) : IsInteger cs := by
  cases h
  case plain h    => exact .plain h
  case negative h => exact .negative h

theorem toInt?_of_denotes (h : Denotes text.toList n) : toInt? text = some n := by
  generalize ht : text.toList = cs at h
  cases h
  case plain h =>
    have unsigned : text.toList = [] ++ cs := ht
    rw [toInt?_eq unsigned (.inl rfl) h.isDigits, ← ofDigits_eq]
    rfl
  case negative cs h =>
    have signed : text.toList = ['-'] ++ cs := ht
    rw [toInt?_eq signed (.inr rfl) h.isDigits, ← ofDigits_eq]
    rfl

end Numeral

namespace ScalarKind

open Numeral

variable {n n' : Int} {text text' : String}

-- An integer as a scalar of a kind, if the kind holds it.
def ofInt? (n : Int) : ScalarKind → Option Value
  | int width => if width.Holds n then some (.int width n) else none
  | bigInt    => some (.bigInt (toString n))
  | _         => none

theorem toString_injective (h : toString n = toString n') : n = n' :=
  Option.some.inj <| by rw [← toInt?_toString, h, toInt?_toString]

-- Literals have one canonical numeral just if they stand for the same integer.
theorem canonicalNumeral?_eq_iff (h : Denotes text.toList n) (h' : Denotes text'.toList n') :
    canonicalNumeral? text = canonicalNumeral? text' ↔ n = n' := by
  rw [canonicalNumeral?_of_toInt? h.isInteger (toInt?_of_denotes h),
    canonicalNumeral?_of_toInt? h'.isInteger (toInt?_of_denotes h')]
  exact ⟨fun same => toString_injective (Option.some.inj same), fun same => by rw [same]⟩

-- What an integer is read as: itself if the kind holds it, and a complaint about it otherwise.
inductive Exact (k : ScalarKind) (n : Int) : Except ScalarFault Value → Prop
  | held {v : Value} : k.ofInt? n = some v → Exact k n (.ok v)
  | beyond {reason} : k.ofInt? n = none → Exact k n (.error (.invalid reason))

theorem narrow_exact (width : IntWidth) (n : Int) : Exact (int width) n (narrow width n) := by
  unfold narrow
  split
  case isTrue h  => exact .held (if_pos h)
  case isFalse h => exact .beyond (if_neg h)

theorem readBigInt_exact (h : Denotes text.toList n) : Exact bigInt n (readBigInt text) := by
  rw [readBigInt, canonicalNumeral?_of_toInt? h.isInteger (toInt?_of_denotes h)]
  exact .held rfl

end ScalarKind

-- No width is wider than 64 bits.
theorem IntWidth.Holds.int64 {width : IntWidth} {n : Int} (h : width.Holds n) :
    Int64.minValue.toInt ≤ n ∧ n ≤ Int64.maxValue.toInt := by
  have ⟨lower, upper⟩ := h
  have half : width.half ≤ 9223372036854775808 := by cases width <;> decide
  have min : Int64.minValue.toInt = -9223372036854775808 := by decide
  have max : Int64.maxValue.toInt = 9223372036854775807 := by decide
  omega

-- What does not fit 64 bits fits no width.
theorem ScalarKind.ofInt?_of_readInt64?_none {text : String} {n : Int} {width : IntWidth}
    (h : Numeral.Denotes text.toList n) (none : readInt64? text = none) :
    (int width).ofInt? n = .none := by
  refine if_neg fun holds => ?_
  simp only [readInt64?, Numeral.toInt?_of_denotes h, Option.bind_eq_bind, Option.bind_some,
    if_pos holds.int64, reduceCtorEq] at none

end RecordDecoding
