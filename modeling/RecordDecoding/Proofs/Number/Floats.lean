import Mathlib.Data.Nat.Digits.Defs
import RecordDecoding.Proofs.Number.Integers
import RecordDecoding.Proofs.Number.Rounding

namespace RecordDecoding

namespace Numeral

variable {cs : List Char} {text : String} {n : Int} {negative : Bool} {f : Format}

theorem toDecimal?_digits (h : isDigits cs) : toDecimal? cs = some (ofDigits cs, 0) := by
  have ⟨nonempty, _⟩ := isDigits_iff.mp h
  have none : ∀ c ∈ ([] : List Char).head?, c.isDigit = false := nofun
  have ⟨whole, rest⟩ := span_digits h none
  rw [List.append_nil] at whole rest
  simp only [toDecimal?, whole, rest]
  simp [nonempty, exponent?]

theorem toLower_of_isDigit {c : Char} (h : c.isDigit) : c.toLower = c := by
  simp only [Char.isDigit, Bool.and_eq_true, decide_eq_true_eq] at h
  refine dif_neg fun upper => ?_
  have := UInt32.le_trans upper.1 h.2
  exact absurd this (by decide)

-- Digits are no name.
theorem read?_digits (split : splitSign text.toList = (negative, cs)) (h : isDigits cs) :
    (Binary.read? text : Option (Binary f)) = some (.ofDecimal negative (ofDigits cs) 0) := by
  have ⟨nonempty, digits⟩ := isDigits_iff.mp h
  have ⟨c, more, hc⟩ := List.exists_cons_of_ne_nil nonempty
  have digit : c.isDigit := digits c (hc ▸ List.mem_cons_self ..)
  have head : (cs.map (·.toLower)).head? = some c := by
    rw [hc, List.map_cons, toLower_of_isDigit digit, List.head?_cons]
  have no_name (name : String) (letter : name.toList.head?.map (·.isDigit) = some false) :
      String.ofList (cs.map (·.toLower)) ≠ name := by
    rintro rfl
    rw [String.toList_ofList, head, Option.map_some, digit] at letter
    cases letter
  have inf := no_name "inf" rfl
  have infinity := no_name "infinity" rfl
  have nan := no_name "nan" rfl
  simp only [Binary.read?, split, toDecimal?_digits h, Option.map_some, inf, infinity, nan,
    or_false, if_false]

-- The sign is told even of zero.
theorem Denotes.read? (h : Denotes text.toList n) : ∃ negative,
    (Binary.read? text : Option (Binary f)) = some (.ofDecimal negative n.natAbs 0) := by
  generalize ht : text.toList = cs at h
  cases h
  case plain h =>
    have unsigned : splitSign text.toList = (false, cs) := by
      rw [ht, splitSign_digits h.isDigits]
    exact ⟨false, by rw [read?_digits unsigned h.isDigits, ofDigits_eq, Int.natAbs_natCast]⟩
  case negative cs h =>
    have signed : splitSign text.toList = (true, cs) := by rw [ht]; rfl
    refine ⟨true, ?_⟩
    rw [read?_digits signed h.isDigits, ofDigits_eq, Int.natAbs_neg, Int.natAbs_natCast]

end Numeral

namespace Binary

theorem two_pow_mul_le {a b c : Nat} (h : a + b ≤ c) : 2 ^ a * 2 ^ b ≤ 10 ^ c := by
  rw [← Nat.pow_add]
  exact (Nat.pow_le_pow_right two_pos h).trans (Nat.pow_le_pow_left (by decide) _)

theorem leastInfinite_le : leastInfinite ≤ 10 ^ 2048 := by
  rw [leastInfinite]
  exact (Nat.mul_le_mul_right _ (by decide)).trans (two_pow_mul_le (a := 54) (by decide))

theorem ofRatio_one_of_many {n : Nat} (negative : Bool) (many : leastInfinite ≤ n) :
    (ofRatio negative n 1 : Double) = infinite negative := by
  have hn : n ≠ 0 := by
    rintro rfl
    have positive : 0 < leastInfinite := by
      rw [leastInfinite]
      positivity
    exact positive.not_ge many
  rw [ofRatio_one negative hn, Nat.min_eq_right ((infinity_le_wordOf hn).mpr many)]
  rfl

-- A number of which no more than the digits are counted is infinite anyway.
theorem ofDecimal_whole (negative : Bool) (n : Nat) :
    (ofDecimal negative n 0 : Double) = ofRatio negative n 1 := by
  rw [ofDecimal]
  split
  case isTrue zero => rw [ofRatio, if_pos zero]
  case isFalse nonzero =>
    dsimp only
    split
    case isTrue long =>
      have many : 2048 < (Nat.toDigits 10 n).length := by
        have : Nat.pow 2 Format.double.exponentBits = 2048 := rfl
        omega
      refine (ofRatio_one_of_many negative ?_).symm
      by_contra few
      have few : n < 10 ^ 2048 := (Nat.lt_of_not_le few).trans_le leastInfinite_le
      have := Nat.toDigits_length 10 n 2048 (by decide) few
      omega
    case isFalse =>
      rw [if_neg]
      · show ofRatio negative (n * 1) 1 = _
        rw [Nat.mul_one]
      · omega

end Binary

namespace Numeral

variable {text : String} {n : Int}

-- An integer is infinite just from that number on, of either sign.
theorem Denotes.exists_double (h : Denotes text.toList n) : ∃ x : Double,
    Binary.read? text = some x ∧ x.isNan = false ∧
      (x.isInfinite ↔ Binary.leastInfinite ≤ n.natAbs) := by
  have ⟨sign, read⟩ := h.read? (f := .double)
  rw [Binary.ofDecimal_whole] at read
  exact ⟨_, read, Binary.isNan_ofRatio (by decide) (by decide) ..,
    Binary.isInfinite_ofRatio_one sign⟩

end Numeral
end RecordDecoding
