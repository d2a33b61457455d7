import RecordDecoding.Proofs.Json.Prolonging

namespace RecordDecoding

open Forward

-- The value of a unit, read from four bytes.
def Scan.unitOf? : List UInt8 → Option Nat
  | [a, b, c, d] => unitValue? a b c d
  | _            => none

-- Where some bytes end, as far as their escapes go. An escape is `second` if it has to be that of
-- the second half of a pair.
inductive Ending where
  -- Behind a character, or behind what is the first half of one.
  | plain (second : Bool)
  | backslash (second : Bool)
  -- In a unit, behind these digits of it.
  | unit (second : Bool) (digits : List UInt8)
  deriving DecidableEq, Repr

namespace Ending

open Scan

def next : Ending → UInt8 → Ending
  | plain second, b       => if b = ascii '\\' then backslash second else plain false
  | backslash second, b   => if b = ascii 'u' then unit second [] else plain false
  | unit second digits, b =>
    if digits.length < 3 then unit second (digits ++ [b])
    else plain ((unitOf? (digits ++ [b])).any isHighSurrogate)

def of (bytes : List UInt8) : Ending :=
  bytes.foldl next (plain false)

-- There are bytes that go on with the escape. The second half of a pair is a low surrogate, and
-- nothing else is one.
def Completes : Ending → Prop
  | unit second digits =>
    ∃ more n, unitOf? (digits ++ more) = some n ∧ isLowSurrogate n = second
  | _                  => True

-- The bytes end behind a character.
def Whole (bytes : List UInt8) : Prop :=
  of bytes = plain false

variable {second : Bool} {bytes bytes' digits : List UInt8} {n : Nat}

namespace Whole

theorem nil : Whole [] := rfl

theorem of_append (h : Whole bytes) (bytes' : List UInt8) : of (bytes ++ bytes') = of bytes' := by
  rw [of, List.foldl_append, show bytes.foldl next _ = _ from h]
  rfl

theorem append (h : Whole bytes) (h' : Whole bytes') : Whole (bytes ++ bytes') :=
  (h.of_append bytes').trans h'

theorem of_ne (h : ∀ b ∈ bytes, b ≠ ascii '\\') : Whole bytes := by
  induction bytes
  case nil => exact nil
  case cons b bytes ih =>
    have ⟨hb, h⟩ := List.forall_mem_cons.mp h
    have step : next (plain false) b = plain false := if_neg hb
    rw [Whole, of, List.foldl_cons, step]
    exact ih h

theorem completes (h : Whole bytes) : (of bytes).Completes := by
  rw [h]
  trivial

end Whole

theorem length_of_unitOf? (h : unitOf? digits = some n) : digits.length = 4 := by
  unfold unitOf? at h
  split at h
  case h_1 => rfl
  case h_2 => cases h

-- A unit starts with a digit, or with a sign.
theorem head_of_completes {b : UInt8} (h : (unit second (b :: digits)).Completes) :
    b = ascii '+' ∨ ∃ d, Hex.value? (Char.ofNat b.toNat) = some d := by
  obtain ⟨more, n, hn, _⟩ := h
  rw [List.cons_append] at hn
  unfold unitOf? at hn
  split at hn
  case h_2 => cases hn
  case h_1 hl =>
    obtain ⟨rfl, _⟩ := List.cons.inj hl
    rw [unitValue?] at hn
    split at hn
    case isTrue hb => exact .inl hb
    case isFalse   => exact .inr (Hex.value?_of_read? hn _ (List.mem_map_of_mem List.mem_cons_self))

-- The digits of a unit, as far as they go.
theorem foldl_digits (h : (digits ++ bytes).length < 4) :
    bytes.foldl next (unit second digits) = unit second (digits ++ bytes) := by
  induction bytes generalizing digits
  case nil => rw [List.foldl_nil, List.append_nil]
  case cons b bytes ih =>
    have short : digits.length < 3 := by
      simp only [List.length_append, List.length_cons] at h
      omega
    rw [List.append_cons] at h ⊢
    rw [List.foldl_cons, next, if_pos short, ih h]

-- All of them.
theorem foldl_unit (h : unitOf? digits = some n) :
    digits.foldl next (unit second []) = plain (isHighSurrogate n) := by
  unfold unitOf? at h
  split at h
  case h_1 => simp [next, unitOf?, h]
  case h_2 => cases h

end Ending

namespace Scan

open Ending

-- The bytes that are read as an escape.
inductive Escaped : List UInt8 → Prop
  | short {b} : shortEscape? b ≠ none → Escaped [ascii '\\', b]
  | unit {digits n} : unitOf? digits = some n → isHighSurrogate n = false →
    isLowSurrogate n = false → Escaped (ascii '\\' :: ascii 'u' :: digits)
  | pair {digits n digits' n'} : unitOf? digits = some n → isHighSurrogate n →
    unitOf? digits' = some n' → isLowSurrogate n' →
    Escaped (ascii '\\' :: ascii 'u' :: (digits ++ ascii '\\' :: ascii 'u' :: digits'))

-- The bytes that run out in an escape.
inductive Cut : List UInt8 → Prop
  | backslash : Cut [ascii '\\']
  | unit {digits} : digits.length < 4 → Cut (ascii '\\' :: ascii 'u' :: digits)
  | pair {digits n digits'} : unitOf? digits = some n → isHighSurrogate n → digits'.length < 4 →
    Cut (ascii '\\' :: ascii 'u' :: (digits ++ ascii '\\' :: ascii 'u' :: digits'))

variable {r r' : Reader} {start o n n' : Nat} {bytes digits digits' rest : List UInt8} {ch : Char}

theorem low_of_high (h : isHighSurrogate n) : isLowSurrogate n = false := by
  simp only [isHighSurrogate, isLowSurrogate, Bool.and_eq_true, Bool.and_eq_false_iff,
    decide_eq_true_eq, decide_eq_false_iff_not] at h ⊢
  omega

theorem run_unitOf (h : unitOf? digits = some n) :
    (Scan.unit start).run ⟨o, digits ++ rest⟩ = .ok n ⟨o + digits.length, rest⟩ := by
  unfold unitOf? at h
  split at h
  case h_1 =>
    simp only [Scan.unit, run_bind, run_look, List.cons_append, List.nil_append, h]
    rfl
  case h_2 => cases h

theorem unitOf_ok (h : (Scan.unit start).run ⟨o, bytes⟩ = .ok n r) :
    ∃ digits rest, unitOf? digits = some n ∧ bytes = digits ++ rest ∧
      r = ⟨o + digits.length, rest⟩ := by
  simp only [Scan.unit, run_bind, run_look] at h
  split at h
  case h_2 => cases h
  case h_1 a b c d rest =>
    split at h
    case h_2 => cases h
    case h_1 hn =>
      cases h
      exact ⟨[a, b, c, d], rest, hn, rfl, rfl⟩

-- The bytes run out in a unit.
theorem unit_wants (h : (Scan.unit start).run ⟨o, bytes⟩ = .error (.unexpectedEof n) r) :
    n = o + bytes.length ∧ bytes.length < 4 := by
  simp only [Scan.unit, run_bind, run_look] at h
  split at h
  case h_1 => split at h <;> cases h
  case h_2 none =>
    cases h
    refine ⟨rfl, ?_⟩
    rcases bytes with _ | ⟨a, _ | ⟨b, _ | ⟨c, _ | ⟨d, rest⟩⟩⟩⟩
    case cons.cons.cons.cons => exact absurd rfl (none a b c d rest)
    all_goals simp

theorem run_unicode_single (h : unitOf? digits = some n) (hh : isHighSurrogate n = false)
    (hl : isLowSurrogate n = false) : (unicode start).run ⟨o, digits ++ rest⟩ =
      .ok (Char.ofNat n) ⟨o + digits.length, rest⟩ := by
  rw [unicode, run_bind_of_ok (run_unitOf h), hh, hl]
  rfl

theorem run_unicode_second (h : unitOf? digits = some n) (hh : isHighSurrogate n)
    (h' : unitOf? digits' = some n') (hl : isLowSurrogate n') : ∃ ch,
    (unicode start).run ⟨o, digits ++ ascii '\\' :: ascii 'u' :: (digits' ++ rest)⟩ =
      .ok ch ⟨o + digits.length + 2 + digits'.length, rest⟩ := by
  have run : (Scan.unit start).run ⟨o + digits.length + 2, digits' ++ rest⟩ = _ := run_unitOf h'
  refine ⟨Char.ofNat (0x10000 + (n - 0xD800) * 0x400 + (n' - 0xDC00)), ?_⟩
  rw [unicode, run_bind_of_ok (run_unitOf h), if_pos hh]
  refine (run_bind_of_ok run).trans ?_
  rw [if_pos hl]
  rfl

-- The bytes run out in the first half of a pair, or in the second one.
theorem unicode_wants (h : (unicode start).run ⟨o, bytes⟩ = .error (.unexpectedEof n) r) :
    n = o + bytes.length ∧ Cut (ascii '\\' :: ascii 'u' :: bytes) := by
  rcases error_of_run_bind h with h | ⟨high, _, hrun, h⟩
  case inl =>
    have ⟨hn, short⟩ := unit_wants h
    exact ⟨hn, .unit short⟩
  case inr =>
    obtain ⟨digits, rest, hn, rfl, rfl⟩ := unitOf_ok hrun
    split at h
    case isFalse => split at h <;> cases h
    case isTrue hh =>
      rw [run_bind_of_ok (run_look _)] at h
      split at h
      case isFalse => cases h
      case isTrue hp =>
        obtain ⟨more, rfl⟩ := List.isPrefixOf_iff_prefix.mp hp
        rcases error_of_run_bind h with h | ⟨_, _, hskip, h⟩
        case inl => cases h
        cases hskip
        rcases error_of_run_bind h with h | ⟨low, _, _, h⟩
        case inl =>
          have ⟨(hn' : n = o + digits.length + 2 + more.length), short⟩ := unit_wants h
          refine ⟨?_, .pair hn hh short⟩
          rw [hn', List.length_append, List.length_append]
          simp only [List.length_cons, List.length_nil]
          omega
        case inr => split at h <;> cases h

theorem run_escaped (h : Escaped bytes) (o : Nat) (rest : List UInt8) : ∃ ch,
    escape.run ⟨o, bytes ++ rest⟩ = .ok ch ⟨o + bytes.length, rest⟩ := by
  cases h
  case short b hb =>
    obtain ⟨ch, hs⟩ := Option.ne_none_iff_exists'.mp hb
    refine ⟨ch, ?_⟩
    simp only [escape, run_bind, Scan.offset, run_view, List.cons_append, List.nil_append, next, hs]
    rfl
  case unit digits n hn hh hl =>
    have run : (unicode o).run ⟨o + 1 + 1, digits ++ rest⟩ = _ := run_unicode_single hn hh hl
    refine ⟨Char.ofNat n, run.trans ?_⟩
    rw [List.length_cons, List.length_cons, Nat.add_right_comm _ 1, Nat.add_right_comm _ 1]
    rfl
  case pair digits n digits' n' hn hh hn' hl =>
    obtain ⟨ch, run⟩ : ∃ ch, (unicode o).run ⟨o + 1 + 1,
        digits ++ ascii '\\' :: ascii 'u' :: (digits' ++ rest)⟩ = .ok ch _ :=
      run_unicode_second hn hh hn' hl
    refine ⟨ch, ?_⟩
    simp only [List.cons_append, List.append_assoc]
    refine Eq.trans run ?_
    simp only [List.length_cons, List.length_append]
    congr 2
    omega

theorem unitOf_spelling (h : Json.UnitSpelling n digits) : unitOf? digits = some n := by
  rcases h with ⟨a, b, c, d, h, rfl⟩ | ⟨_, ⟨a, b, c, d, h, he⟩, rfl⟩
  case inl => exact unitValue?_ascii h
  case inr =>
    obtain ⟨ha, rfl⟩ := List.cons.inj he
    rw [← unitValue?_ascii h, ← ha]
    rfl

theorem escaped_of_spelling (h : Json.EscapeSpelling ch bytes) : Escaped bytes := by
  cases h
  case short letter h => exact .short (by rw [shortEscape?_ascii _ h]; nofun)
  case unit h =>
    have ⟨hh, hl⟩ := not_surrogate ch
    exact .unit (unitOf_spelling h) hh hl
  case pair h hh h' hl _ =>
    exact .pair (unitOf_spelling h) (isHighSurrogate_add hh) (unitOf_spelling h')
      (isLowSurrogate_add hl)

theorem escape_escaped (h : escape.run ⟨o, ascii '\\' :: bytes⟩ = .ok ch r) :
    ∃ text, Escaped text ∧ ascii '\\' :: bytes = text ++ r.ahead := by
  have ⟨text, spelling, ha⟩ := escape_ok h rfl
  exact ⟨text, escaped_of_spelling spelling, ha⟩

-- The bytes run out in an escape.
theorem escape_wants (h : escape.run ⟨o, ascii '\\' :: bytes⟩ = .error (.unexpectedEof n) r) :
    n = o + (bytes.length + 1) ∧ Cut (ascii '\\' :: bytes) := by
  cases bytes
  case nil =>
    cases h
    exact ⟨rfl, .backslash⟩
  case cons b bytes =>
    simp only [escape, run_bind, Scan.offset, run_view, next] at h
    split at h
    case h_1 => cases h
    case h_2 =>
      split at h
      case isFalse => cases h
      case isTrue hu =>
        subst hu
        obtain ⟨hn, cut⟩ := unicode_wants h
        refine ⟨?_, cut⟩
        rw [hn, List.length_cons]
        omega

-- Behind the first half of a pair.
theorem of_high (hn : unitOf? digits = some n) (hh : isHighSurrogate n) (rest : List UInt8) :
    Ending.of (ascii '\\' :: ascii 'u' :: (digits ++ rest)) =
      rest.foldl Ending.next (.plain true) := by
  show (digits ++ rest).foldl Ending.next (.unit false []) = _
  rw [List.foldl_append, foldl_unit hn, hh]

theorem Escaped.whole (h : Escaped bytes) : Whole bytes := by
  cases h
  case short b hb =>
    have hu : b ≠ ascii 'u' := by
      rintro rfl
      exact hb rfl
    exact if_neg hu
  case unit hn hh _ => exact (foldl_unit hn).trans (congrArg _ hh)
  case pair digits n digits' n' hn hh hn' hl =>
    have hh' : isHighSurrogate n' = false := by
      cases hh' : isHighSurrogate n'
      case false => rfl
      case true  => exact absurd hl (by simp [low_of_high hh'])
    exact (of_high hn hh _).trans ((foldl_unit hn').trans (congrArg _ hh'))

section Rests

variable {more : List UInt8}

theorem of_unit (short : digits.length < 4) :
    Ending.of (ascii '\\' :: ascii 'u' :: digits) = .unit false digits :=
  foldl_digits (List.nil_append digits ▸ short)

theorem of_pair (hn : unitOf? digits = some n) (hh : isHighSurrogate n)
    (short : digits'.length < 4) : Ending.of (ascii '\\' :: ascii 'u' ::
      (digits ++ ascii '\\' :: ascii 'u' :: digits')) = .unit true digits' :=
  (of_high hn hh _).trans (foldl_digits (List.nil_append digits' ▸ short))

-- The first unit of an escape is no second half of a pair.
theorem Escaped.unit_rest (h : Escaped (ascii '\\' :: ascii 'u' :: (digits ++ more)))
    (short : digits.length < 4) : (Ending.unit false digits).Completes := by
  generalize he : digits ++ more = text at h
  cases h
  case short hb => exact absurd rfl hb
  case unit n _ hl hn => exact ⟨more, n, he ▸ hn, hl⟩
  case pair digits₁ n digits₂ n' hn hh _ _ =>
    have le : digits.length ≤ digits₁.length := by
      rw [length_of_unitOf? hn]
      exact short.le
    have ⟨more', he'⟩ :=
      List.prefix_of_prefix_length_le ⟨more, he⟩ (List.prefix_append digits₁ _) le
    exact ⟨more', n, he' ▸ hn, low_of_high hh⟩

theorem Escaped.pair_rest
    (h : Escaped (ascii '\\' :: ascii 'u' ::
      (digits ++ (ascii '\\' :: ascii 'u' :: (digits' ++ more)))))
    (hn : unitOf? digits = some n) : (Ending.unit true digits').Completes := by
  have length := length_of_unitOf? hn
  generalize he : digits ++ (ascii '\\' :: ascii 'u' :: (digits' ++ more)) = text at h
  cases h
  case short => exact absurd he (by simp)
  case unit _ _ hn₁ =>
    have length₁ := length_of_unitOf? hn₁
    rw [← he, List.length_append, List.length_cons] at length₁
    omega
  case pair digits₁ n₁ digits₂ n₂ hn₁ _ hn₂ hl =>
    have rest := (List.append_inj he (length.trans (length_of_unitOf? hn₁).symm)).2
    obtain rfl : digits' ++ more = digits₂ := (List.cons.inj (List.cons.inj rest).2).2
    exact ⟨more, n₂, hn₂, hl⟩

-- An escape goes on if its bytes can be made those of one.
theorem Cut.completes_iff (h : Cut bytes) :
    (Ending.of bytes).Completes ↔ ∃ more, Escaped (bytes ++ more) := by
  cases h
  case backslash => exact iff_of_true trivial ⟨[ascii 'n'], .short (by decide)⟩
  case unit digits short =>
    rw [of_unit short]
    constructor
    case mpr => exact fun ⟨_, escaped⟩ => escaped.unit_rest short
    case mp =>
      intro ⟨more, n, hn, hl⟩
      cases hh : isHighSurrogate n
      case false => exact ⟨more, .unit hn hh hl⟩
      case true =>
        -- The lowest of the low surrogates goes with every high one.
        have low : unitOf? (Json.plain "DC00".toList) = some 0xDC00 := by decide
        have pair := Escaped.pair hn hh low (by decide)
        rw [List.append_assoc] at pair
        exact ⟨_, pair⟩
  case pair digits n digits' hn hh short =>
    rw [of_pair hn hh short]
    simp only [List.cons_append, List.append_assoc]
    constructor
    case mp =>
      intro ⟨more, n', hn', hl⟩
      exact ⟨more, .pair hn hh hn' hl⟩
    case mpr => exact fun ⟨_, escaped⟩ => escaped.pair_rest hn

-- What can be read as an escape behind more bytes is completed by some of them.
theorem escape_completes (h : escape.run ⟨o, ascii '\\' :: bytes⟩ = .error (.unexpectedEof n) r)
    (h' : escape.run ⟨o, ascii '\\' :: (bytes ++ more)⟩ = .ok ch r') :
    (Ending.of (ascii '\\' :: bytes)).Completes := by
  have ⟨text, escaped, ht⟩ := escape_escaped h'
  have whole : ascii '\\' :: bytes <+: text ++ r'.ahead := ⟨more, ht⟩
  rcases List.prefix_or_prefix_of_prefix whole (List.prefix_append ..) with hb | ⟨rest, hb⟩
  case inl =>
    obtain ⟨more, rfl⟩ := hb
    exact (escape_wants h).2.completes_iff.mpr ⟨more, escaped⟩
  case inr =>
    have ⟨_, run⟩ := run_escaped escaped o rest
    rw [hb] at run
    cases run.symm.trans h

theorem Cut.exists_run (h : Cut (ascii '\\' :: bytes))
    (completes : (Ending.of (ascii '\\' :: bytes)).Completes) :
    ∃ more ch r, escape.run ⟨o, ascii '\\' :: (bytes ++ more)⟩ = .ok ch r ∧ r.ahead = [] := by
  have ⟨more, escaped⟩ := h.completes_iff.mp completes
  have ⟨ch, run⟩ := run_escaped escaped o []
  rw [List.append_nil] at run
  exact ⟨more, ch, _, run, rfl⟩

end Rests

-- The bytes run out in a word.
theorem literal_wants {word : List UInt8} (hw : word ≠ [])
    (h : (literal word).run ⟨o, bytes⟩ = .error (.unexpectedEof n) r) :
    n = o + bytes.length ∧ ∃ more, bytes ++ more = word := by
  cases hp : word.isPrefixOf bytes
  case true =>
    obtain ⟨rest, rfl⟩ := List.isPrefixOf_iff_prefix.mp hp
    cases (run_literal hw).symm.trans h
  case false =>
    simp only [literal, run_bind, run_look, hp, Bool.false_eq_true, if_false] at h
    split at h
    case isTrue hb =>
      cases h
      exact ⟨rfl, List.isPrefixOf_iff_prefix.mp hb⟩
    case isFalse hb =>
      cases bytes
      case nil  => exact absurd List.isPrefixOf_nil_left hb
      case cons => cases h

-- A scanner with one complaint only.
def Complains {α : Type} (e : CursorError) (x : Scan α) : Prop :=
  ∀ ⦃r e' r'⦄, x.run r = .error e' r' → e' = e

theorem Complains.bind {α β : Type} {e : CursorError} {x : Scan α} {f : α → Scan β}
    (hx : Complains e x) (hf : ∀ a, Complains e (f a)) : Complains e (x >>= f) := by
  intro _ _ _ h
  rcases error_of_run_bind h with h | ⟨a, _, _, h⟩
  · exact hx h
  · exact hf a h

theorem Complains.pure {α : Type} {e : CursorError} (a : α) : Complains e (pure a : Scan α) :=
  nofun

section Numbers

variable (offset : Nat)

theorem skipDigits?_complains : Complains (.invalidNumber offset) (skipDigits? offset) := by
  intro _ _ _ h
  rw [run_skipDigits?] at h
  split at h <;> cases h
  rfl

theorem wholePart_complains : Complains (.invalidNumber offset) (wholePart offset) := by
  intro _ _ _ h
  rw [run_wholePart] at h
  split at h
  case isTrue  => cases h
  case isFalse => exact skipDigits?_complains offset h

theorem digits_complains :
    Complains (.invalidNumber offset) (skipDigits? offset >>= fun _ => pure true) :=
  (skipDigits?_complains offset).bind fun _ => .pure _

theorem fraction_complains : Complains (.invalidNumber offset) (fraction offset) := by
  intro _ _ _ h
  rw [run_fraction] at h
  split at h
  case isTrue  => exact digits_complains offset h
  case isFalse => cases h

theorem exponent_complains : Complains (.invalidNumber offset) (exponent offset) := by
  intro _ _ _ h
  rw [run_exponent] at h
  split at h
  case isTrue  => exact digits_complains offset h
  case isFalse => cases h

-- A number that is cut short is no number, if it is not a shorter one.
theorem number_error {e : CursorError} (h : number.run r = .error e r') :
    e = .invalidNumber r.offset := by
  rw [run_number] at h
  refine Complains.bind (wholePart_complains _) (fun _ => ?_) h
  refine Complains.bind (fraction_complains _) fun _ => ?_
  exact Complains.bind (exponent_complains _) fun _ => .pure _

end Numbers

end Scan
end RecordDecoding
