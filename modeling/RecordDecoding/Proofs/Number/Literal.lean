import Mathlib.Data.List.TakeWhile
import RecordDecoding.Number.Read

namespace RecordDecoding.Numeral

-- Digits of which the first is a zero only if it is the only one.
inductive IsWhole : List Char → Prop
  | zero : IsWhole ['0']
  | digits {cs} : isDigits cs → cs.head? ≠ some '0' → IsWhole cs

inductive IsInteger : List Char → Prop
  | plain {cs} : IsWhole cs → IsInteger cs
  | negative {cs} : IsWhole cs → IsInteger ('-' :: cs)

inductive IsFraction : List Char → Prop
  | none : IsFraction []
  | digits {cs} : isDigits cs → IsFraction ('.' :: cs)

inductive IsExponent : List Char → Prop
  | none : IsExponent []
  | plain {e cs} : e = 'e' ∨ e = 'E' → isDigits cs → IsExponent (e :: cs)
  | signed {e sign cs} : e = 'e' ∨ e = 'E' → sign = '+' ∨ sign = '-' → isDigits cs →
    IsExponent (e :: sign :: cs)

inductive IsNumber : List Char → Prop
  | of {integer fraction exponent} : IsInteger integer → IsFraction fraction → IsExponent exponent →
    IsNumber (integer ++ (fraction ++ exponent))

instance (cs : List Char) : Decidable (IsWhole cs) :=
  decidable_of_iff (cs = ['0'] ∨ isDigits cs ∧ cs.head? ≠ some '0') <| by
    constructor
    case mp =>
      rintro (rfl | ⟨hd, hh⟩)
      · exact .zero
      · exact .digits hd hh
    case mpr =>
      intro h
      cases h
      case zero         => exact .inl rfl
      case digits hd hh => exact .inr ⟨hd, hh⟩

instance (cs : List Char) : Decidable (IsInteger cs) :=
  decidable_of_iff (IsWhole cs ∨ cs.head? = some '-' ∧ IsWhole cs.tail) <| by
    constructor
    case mp =>
      rintro (h | ⟨hm, h⟩)
      · exact .plain h
      · have ⟨digits, hc⟩ := List.head?_eq_some_iff.mp hm
        subst hc
        exact .negative h
    case mpr =>
      intro h
      cases h
      case plain h    => exact .inl h
      case negative h => exact .inr ⟨rfl, h⟩

variable {cs : List Char}

theorem IsInteger.isNumber (h : IsInteger cs) : IsNumber cs :=
  List.append_nil cs ▸ .of h .none .none

theorem IsWhole.isDigits (h : IsWhole cs) : isDigits cs := by
  cases h
  case zero   => rfl
  case digits => assumption

theorem isDigits_iff : isDigits cs ↔ cs ≠ [] ∧ ∀ c ∈ cs, c.isDigit := by
  cases cs <;> simp [isDigits]

theorem lt_of_isDigit {c : Char} (h : c.isDigit) : c.toNat < 128 :=
  Nat.lt_of_le_of_lt (Char.isDigit_iff_toNat.mp h).2 (by decide)

theorem mem_digits (h : isDigits cs) {cs' : List Char} : ∀ c ∈ cs, c.isDigit ∨ c ∈ cs' :=
  fun c hc => .inl ((isDigits_iff.mp h).2 c hc)

theorem IsInteger.mem (h : IsInteger cs) : ∀ c ∈ cs, c.isDigit ∨ c ∈ ['-'] := by
  cases h
  case plain h    => exact mem_digits h.isDigits
  case negative h => exact List.forall_mem_cons.mpr ⟨by simp, mem_digits h.isDigits⟩

theorem IsFraction.mem (h : IsFraction cs) : ∀ c ∈ cs, c.isDigit ∨ c ∈ ['.'] := by
  cases h
  case none     => simp
  case digits h => exact List.forall_mem_cons.mpr ⟨by simp, mem_digits h⟩

theorem IsExponent.mem (h : IsExponent cs) : ∀ c ∈ cs, c.isDigit ∨ c ∈ ['e', 'E', '+', '-'] := by
  cases h
  case none       => simp
  case plain he h =>
    refine List.forall_mem_cons.mpr ⟨?_, mem_digits h⟩
    rcases he with rfl | rfl <;> simp
  case signed he hs h =>
    refine List.forall_mem_cons.mpr ⟨?_, List.forall_mem_cons.mpr ⟨?_, mem_digits h⟩⟩
    · rcases he with rfl | rfl <;> simp
    · rcases hs with rfl | rfl <;> simp

theorem IsWhole.head (h : IsWhole cs) : ∃ c more, cs = c :: more ∧ c.isDigit := by
  have ⟨hn, hd⟩ := isDigits_iff.mp h.isDigits
  cases cs
  case nil         => exact absurd rfl hn
  case cons c more => exact ⟨c, more, rfl, hd c (List.mem_cons_self ..)⟩

theorem IsNumber.head (h : IsNumber cs) : ∃ c more, cs = c :: more ∧ (c = '-' ∨ c.isDigit) := by
  cases h
  case of hi hf he =>
    clear hf he
    cases hi
    case negative => exact ⟨_, _, rfl, .inl rfl⟩
    case plain hw =>
      have ⟨_, _, hc, hd⟩ := hw.head
      subst hc
      exact ⟨_, _, rfl, .inr hd⟩

theorem IsNumber.mem (h : IsNumber cs) : ∀ c ∈ cs, c.isDigit ∨ c ∈ ['-', '.', 'e', 'E', '+'] := by
  cases h
  case of hi hf he =>
    intro c hc
    rcases List.mem_append.mp hc with hc | hc
    · exact (hi.mem c hc).imp_right fun h => (by decide : ['-'] ⊆ ['-', '.', 'e', 'E', '+']) h
    rcases List.mem_append.mp hc with hc | hc
    · exact (hf.mem c hc).imp_right fun h => (by decide : ['.'] ⊆ ['-', '.', 'e', 'E', '+']) h
    · refine (he.mem c hc).imp_right fun h => ?_
      exact (by decide : ['e', 'E', '+', '-'] ⊆ ['-', '.', 'e', 'E', '+']) h

-- Numbers are ASCII.
theorem IsNumber.lt (h : IsNumber cs) : ∀ c ∈ cs, c.toNat < 128 := by
  intro c hc
  have other : ∀ c ∈ ['-', '.', 'e', 'E', '+'], c.toNat < 128 := by simp
  exact (h.mem c hc).elim lt_of_isDigit (other c)

-- A number with a fraction or an exponent is no integer.
theorem isInteger_append_iff {integer fraction exponent : List Char} (hi : IsInteger integer)
    (hf : IsFraction fraction) (he : IsExponent exponent) :
    IsInteger (integer ++ (fraction ++ exponent)) ↔ fraction = [] ∧ exponent = [] := by
  constructor
  case mp =>
    intro h
    have out {c : Char} (hc : c ∈ fraction ++ exponent) : c.isDigit ∨ c ∈ ['-'] :=
      h.mem c (List.mem_append_right _ hc)
    constructor
    · cases hf
      case none   => rfl
      case digits => exact absurd (out (List.mem_cons_self ..)) (by decide)
    · cases he
      case none => rfl
      case plain he _ =>
        have := out (List.mem_append_right _ (List.mem_cons_self ..))
        rcases he with rfl | rfl <;> exact absurd this (by decide)
      case signed he _ _ =>
        have := out (List.mem_append_right _ (List.mem_cons_self ..))
        rcases he with rfl | rfl <;> exact absurd this (by decide)
  case mpr =>
    rintro ⟨rfl, rfl⟩
    simpa using hi

theorem splitSign_of_isDigit {c : Char} (h : c.isDigit) :
    splitSign (c :: cs) = (false, c :: cs) := by
  unfold splitSign
  split <;> try rfl
  · cases ‹_ :: _ = _›
    cases h
  · cases ‹_ :: _ = _›
    cases h

theorem splitSign_digits (h : isDigits cs) : splitSign cs = (false, cs) := by
  have ⟨_, hd⟩ := isDigits_iff.mp h
  cases cs
  case nil  => rfl
  case cons => exact splitSign_of_isDigit (hd _ (List.mem_cons_self ..))

-- A literal without its sign.
theorem IsNumber.splitSign (h : IsNumber cs) : ∃ negative whole fraction exponent,
    splitSign cs = (negative, whole ++ (fraction ++ exponent)) ∧ IsWhole whole ∧
      IsFraction fraction ∧ IsExponent exponent := by
  cases h
  case of hi hf he =>
    cases hi
    case negative hw => exact ⟨true, _, _, _, rfl, hw, hf, he⟩
    case plain hw =>
      have ⟨_, _, hc, hd⟩ := hw.head
      refine ⟨false, _, _, _, ?_, hw, hf, he⟩
      rw [hc]
      exact splitSign_of_isDigit hd

theorem IsExponent.isSome_exponent? (h : IsExponent cs) : (exponent? cs).isSome := by
  cases h
  case none         => rfl
  case plain he hd  => simp [exponent?, he, splitSign_digits hd, hd]
  case signed he hs hd =>
    rcases hs with rfl | rfl <;> simp [exponent?, he, Numeral.splitSign, hd]

-- Digits end where a fraction or an exponent starts.
theorem span_digits {ds rest : List Char} (hd : isDigits ds)
    (hr : ∀ c ∈ rest.head?, c.isDigit = false) :
    (ds ++ rest).takeWhile (·.isDigit) = ds ∧ (ds ++ rest).dropWhile (·.isDigit) = rest := by
  have ⟨_, hd⟩ := isDigits_iff.mp hd
  rw [List.takeWhile_append_of_pos hd, List.dropWhile_append_of_pos hd]
  cases rest
  case nil  => simp
  case cons => simp [hr _ rfl]

theorem IsExponent.head (h : IsExponent cs) : ∀ c ∈ cs.head?, c.isDigit = false ∧ c ≠ '.' := by
  cases h
  case none => simp
  case plain he _    => rcases he with rfl | rfl <;> simp
  case signed he _ _ => rcases he with rfl | rfl <;> simp

theorem isSome_toDecimal? {whole fraction exponent : List Char} (hw : IsWhole whole)
    (hf : IsFraction fraction) (he : IsExponent exponent) :
    (toDecimal? (whole ++ (fraction ++ exponent))).isSome := by
  have ⟨n, hn⟩ := Option.isSome_iff_exists.mp he.isSome_exponent?
  have nonempty : whole ≠ [] := (isDigits_iff.mp hw.isDigits).1
  cases hf
  case none =>
    have ⟨ht, hr⟩ := span_digits hw.isDigits fun c hc => (he.head c hc).1
    simp only [toDecimal?, List.nil_append, ht, hr]
    split
    case h_1 => exact absurd rfl (he.head _ rfl).2
    case h_2 => simp [nonempty, hn]
  case digits ds hd =>
    have point : ∀ c ∈ ('.' :: (ds ++ exponent)).head?, c.isDigit = false := by simp
    have ⟨ht, hr⟩ := span_digits hw.isDigits point
    have ⟨ht', hr'⟩ := span_digits hd fun c hc => (he.head c hc).1
    simp [toDecimal?, ht, hr, ht', hr', nonempty, hn]

end Numeral

open Numeral in
-- A number is always read as some float.
theorem Binary.isSome_read?_number {f : Format} {text : String} (h : IsNumber text.toList) :
    (read? (f := f) text).isSome := by
  have ⟨negative, whole, fraction, exponent, hs, hw, hf, he⟩ := h.splitSign
  have decimal := isSome_toDecimal? hw hf he
  simp only [read?, hs]
  split
  case isTrue  => rfl
  case isFalse =>
    split
    case isTrue  => rfl
    case isFalse => simpa using decimal

open Numeral in
theorem Binary.isSome_read?_integer {f : Format} {text : String} (h : IsInteger text.toList) :
    (read? (f := f) text).isSome :=
  isSome_read?_number h.isNumber

-- Whole numbers are read as far as they fit.
theorem readInt64?_eq_some_iff {text : String} {n : Int64} :
    readInt64? text = some n ↔ Numeral.toInt? text = some n.toInt := by
  simp only [readInt64?, Option.bind_eq_bind, Option.bind_eq_some_iff]
  constructor
  case mp =>
    intro ⟨k, hk, h⟩
    have ⟨⟨lower, upper⟩, h⟩ := Option.ite_none_right_eq_some.mp h
    cases h
    rw [hk, Int64.toInt_ofInt_of_le lower (Int.lt_add_one_of_le upper)]
  case mpr =>
    intro h
    exact ⟨_, h, by rw [if_pos ⟨n.minValue_le_toInt, n.toInt_le⟩, Int64.ofInt_toInt]⟩

end RecordDecoding
