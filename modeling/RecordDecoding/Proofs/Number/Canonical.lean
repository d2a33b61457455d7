import RecordDecoding.Decode.Scalar
import RecordDecoding.Proofs.Number.Literal

namespace RecordDecoding.Numeral

-- A sign and digits, made canonical.
def shortened (sign digits : List Char) : String :=
  match digits.dropWhile (· = '0') with
  | []          => "0"
  | significant => String.ofList (sign ++ significant)

variable {sign digits : List Char}

theorem head?_dropWhile_zero (digits : List Char) :
    (digits.dropWhile (· = '0')).head? ≠ some '0' := by
  intro h
  have := List.head?_dropWhile_not (· = '0') digits
  simp [h] at this

-- What is left of digits without the zeros in front.
theorem isWhole_dropWhile (hd : isDigits digits) (hn : digits.dropWhile (· = '0') ≠ []) :
    IsWhole (digits.dropWhile (· = '0')) := by
  refine .digits (isDigits_iff.mpr ⟨hn, fun c hc => ?_⟩) (head?_dropWhile_zero digits)
  exact (isDigits_iff.mp hd).2 c ((List.dropWhile_sublist _).mem hc)

-- A canonical numeral has no superfluous zero, and no sign if it is zero.
theorem isInteger_shortened (hs : sign = [] ∨ sign = ['-']) (hd : isDigits digits) :
    IsInteger (shortened sign digits).toList ∧ shortened sign digits ≠ "-0" := by
  unfold shortened
  split
  case h_1 => exact ⟨.plain .zero, by decide⟩
  case h_2 hn =>
    have whole := isWhole_dropWhile hd hn
    rcases hs with rfl | rfl
    case inl =>
      rw [List.nil_append]
      refine ⟨.plain (String.toList_ofList ▸ whole), fun h => ?_⟩
      rw [← String.toList_ofList (l := digits.dropWhile _), h] at whole
      exact absurd whole.isDigits (by decide)
    case inr =>
      refine ⟨String.toList_ofList ▸ .negative whole, fun h => ?_⟩
      have h := congrArg String.toList h
      rw [String.toList_ofList] at h
      have h : digits.dropWhile (· = '0') = ['0'] := (List.cons.inj h).2
      exact head?_dropWhile_zero digits (by rw [h]; rfl)

theorem ofDigits_eq (cs : List Char) : ofDigits cs = Nat.ofDigitChars 10 cs 0 := by
  simp only [ofDigits, Nat.ofDigitChars_eq_foldl, Nat.mul_comm]

theorem digitChar_of_isDigit {c : Char} (h : c.isDigit) :
    c.toNat - '0'.toNat < 10 ∧ (c.toNat - '0'.toNat).digitChar = c := by
  have ⟨lower, upper⟩ := Char.isDigit_iff_toNat.mp h
  have : '0'.toNat = 48 := rfl
  have : '9'.toNat = 57 := rfl
  have lt : c.toNat - '0'.toNat < 10 := by omega
  refine ⟨lt, Char.toNat_inj.mp ?_⟩
  rw [Nat.toNat_digitChar_of_lt_ten lt]
  omega

-- Digits go on with the numeral of any number but zero.
theorem toDigits_append {n : Nat} (hn : 0 < n) (hd : ∀ c ∈ digits, c.isDigit) :
    Nat.toDigits 10 n ++ digits = Nat.toDigits 10 (Nat.ofDigitChars 10 digits n) := by
  induction digits generalizing n
  case nil => simp
  case cons c cs ih =>
    have ⟨hc, hd⟩ := List.forall_mem_cons.mp hd
    have ⟨lt, char⟩ := digitChar_of_isDigit hc
    have next := Nat.toDigits_append_toDigits (by decide) hn lt
    rw [Nat.toDigits_of_lt_base lt, char] at next
    rw [Nat.ofDigitChars_cons, ← ih (by omega) hd, ← next, List.append_assoc, List.singleton_append]

-- What is left of digits without the zeros in front is the numeral of their number, unless nothing
-- is left.
theorem toDigits_ofDigits (hd : ∀ c ∈ digits, c.isDigit) (hn : digits.dropWhile (· = '0') ≠ []) :
    Nat.toDigits 10 (ofDigits digits) = digits.dropWhile (· = '0') := by
  rw [ofDigits_eq]
  induction digits
  case nil => exact absurd rfl hn
  case cons c cs ih =>
    have ⟨hc, hd⟩ := List.forall_mem_cons.mp hd
    rw [Nat.ofDigitChars_cons, Nat.mul_zero, Nat.zero_add]
    by_cases hz : c = '0'
    case pos =>
      subst hz
      exact ih ‹_› hn
    case neg =>
      have ⟨lt, char⟩ := digitChar_of_isDigit hc
      have pos : 0 < c.toNat - '0'.toNat := by
        refine Nat.pos_of_ne_zero fun h => hz ?_
        rw [← char, h]
        rfl
      rw [← toDigits_append pos hd, Nat.toDigits_of_lt_base lt, char]
      simp [hz]

theorem ofDigits_of_zeros (h : digits.dropWhile (· = '0') = []) : ofDigits digits = 0 := by
  rw [ofDigits_eq]
  induction digits
  case nil => rfl
  case cons c cs ih =>
    by_cases hz : c = '0'
    case pos =>
      subst hz
      exact ih h
    case neg => simp [hz] at h

-- The number of digits behind a sign.
def signed (sign digits : List Char) : Int :=
  if sign = [] then ofDigits digits else -(ofDigits digits : Int)

-- Made canonical, a numeral is the one that its number is written with.
theorem shortened_eq (hs : sign = [] ∨ sign = ['-']) (hd : isDigits digits) :
    shortened sign digits = toString (signed sign digits) := by
  unfold shortened
  split
  case h_1 h =>
    rw [signed, ofDigits_of_zeros h]
    rcases hs with rfl | rfl <;> rfl
  case h_2 hn =>
    have digits_eq := toDigits_ofDigits (isDigits_iff.mp hd).2 hn
    have ne : ofDigits digits ≠ 0 := by
      intro h
      refine head?_dropWhile_zero digits ?_
      rw [← digits_eq, h]
      rfl
    rw [← digits_eq]
    rcases hs with rfl | rfl
    case inl => simp [signed, Int.repr_eq_if, Nat.repr_eq_ofList_toDigits]
    case inr => simp [signed, Int.repr_eq_if, Nat.repr_eq_ofList_toDigits, ne]

theorem toInt?_eq {text : String} (ht : text.toList = sign ++ digits)
    (hs : sign = [] ∨ sign = ['-']) (hd : isDigits digits) :
    toInt? text = some (signed sign digits) := by
  rcases hs with rfl | rfl
  case inl => simp [toInt?, signed, ht, splitSign_digits hd, hd]
  case inr => simp [toInt?, signed, ht, splitSign, hd]

-- How an integer is written.
theorem toList_toString (n : Int) : ∃ sign digits, (toString n).toList = sign ++ digits ∧
    (sign = [] ∨ sign = ['-']) ∧ isDigits digits ∧ signed sign digits = n := by
  have digits (m : Nat) : isDigits (Nat.toDigits 10 m) ∧ ofDigits (Nat.toDigits 10 m) = m := by
    refine ⟨isDigits_iff.mpr ⟨Nat.toDigits_ne_nil, fun c hc => ?_⟩, ?_⟩
    · exact Nat.isDigit_of_mem_toDigits (by decide) (by decide) hc
    · rw [ofDigits_eq, Nat.ofDigitChars_ten_toDigits]
  by_cases h : 0 ≤ n
  case pos =>
    refine ⟨[], _, ?_, .inl rfl, (digits n.toNat).1, ?_⟩
    · simp [Int.repr_eq_if, h]
    · simp only [signed, (digits _).2, if_true]
      exact Int.toNat_of_nonneg h
  case neg =>
    refine ⟨['-'], _, ?_, .inr rfl, (digits (-n).toNat).1, ?_⟩
    · simp [Int.repr_eq_if, h]
    · rw [signed, (digits _).2, if_neg (List.cons_ne_nil _ _)]
      omega

theorem isInteger_toString (n : Int) : IsInteger (toString n).toList := by
  have ⟨sign, digits, _, hs, hd, hn⟩ := toList_toString n
  exact hn ▸ shortened_eq hs hd ▸ (isInteger_shortened hs hd).1

theorem toInt?_toString (n : Int) : toInt? (toString n) = some n := by
  have ⟨sign, digits, ht, hs, hd, hn⟩ := toList_toString n
  rw [toInt?_eq ht hs hd, hn]

theorem IsInteger.exists_sign {cs : List Char} (h : IsInteger cs) : ∃ sign digits,
    cs = sign ++ digits ∧ (sign = [] ∨ sign = ['-']) ∧ isDigits digits := by
  cases h
  case plain h    => exact ⟨[], _, rfl, .inl rfl, h.isDigits⟩
  case negative h => exact ⟨['-'], _, rfl, .inr rfl, h.isDigits⟩

end RecordDecoding.Numeral

namespace RecordDecoding.ScalarKind

open Numeral

theorem canonicalNumeral?_eq (text : String) :
    canonicalNumeral? text = match text.toList with
      | '-' :: digits => if isDigits digits then some (shortened ['-'] digits) else none
      | digits        => if isDigits digits then some (shortened [] digits) else none := by
  have known (sign digits : List Char) : (match digits.dropWhile (· = '0') with
      | []          => some "0"
      | significant => some (String.ofList (sign ++ significant))) =
        some (shortened sign digits) := by
    unfold shortened
    cases digits.dropWhile (· = '0') <;> rfl
  unfold canonicalNumeral?
  split
  case h_1 sign digits h =>
    refine (if_congr Iff.rfl (known sign digits) rfl).trans ?_
    split at h <;> cases h <;> simp [*]

theorem canonicalNumeral?_eq_some_iff {text numeral : String} :
    canonicalNumeral? text = some numeral ↔ ∃ sign digits, text.toList = sign ++ digits ∧
      (sign = [] ∨ sign = ['-']) ∧ isDigits digits ∧ shortened sign digits = numeral := by
  rw [canonicalNumeral?_eq]
  constructor
  case mp =>
    split
    case h_1 digits ht =>
      intro h
      have ⟨hd, hn⟩ := Option.ite_none_right_eq_some.mp h
      exact ⟨['-'], digits, ht, .inr rfl, hd, Option.some.inj hn⟩
    case h_2 =>
      intro h
      have ⟨hd, hn⟩ := Option.ite_none_right_eq_some.mp h
      exact ⟨[], _, rfl, .inl rfl, hd, Option.some.inj hn⟩
  case mpr =>
    rintro ⟨sign, digits, ht, rfl | rfl, hd, rfl⟩
    case inr => simp [ht, hd]
    case inl =>
      rw [ht, List.nil_append]
      split
      case h_1 => cases hd
      case h_2 => rw [if_pos hd]

theorem canonicalNumeral?_of_toInt? {text : String} {n : Int} (h : IsInteger text.toList)
    (hn : toInt? text = some n) : canonicalNumeral? text = some (toString n) := by
  have ⟨sign, digits, ht, hs, hd⟩ := h.exists_sign
  rw [toInt?_eq ht hs hd] at hn
  cases hn
  exact canonicalNumeral?_eq_some_iff.mpr ⟨sign, digits, ht, hs, hd, shortened_eq hs hd⟩

theorem canonicalNumeral?_toString (n : Int) :
    canonicalNumeral? (toString n) = some (toString n) := by
  have ⟨sign, digits, ht, hs, hd, hn⟩ := toList_toString n
  exact canonicalNumeral?_eq_some_iff.mpr ⟨sign, digits, ht, hs, hd, hn ▸ shortened_eq hs hd⟩

end RecordDecoding.ScalarKind
