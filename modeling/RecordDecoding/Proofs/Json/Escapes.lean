import Mathlib.Algebra.Group.Nat.Defs
import Mathlib.Data.List.Induction
import RecordDecoding.Json.Lexeme
import RecordDecoding.Proofs.Json.Scan
import RecordDecoding.Proofs.Json.Spelling

namespace RecordDecoding

namespace Hex

variable {c : Char} {cs : List Char} {n : Nat}

theorem value?_lt (h : value? c = some n) : n < 16 ∧ c.toNat < 128 := by
  simp only [value?, Char.le_def, UInt32.le_iff_toNat_le] at h
  change (if 48 ≤ c.toNat ∧ c.toNat ≤ 57 then some (c.toNat - 48)
    else if 97 ≤ c.toNat ∧ c.toNat ≤ 102 then some (c.toNat - 97 + 10)
    else if 65 ≤ c.toNat ∧ c.toNat ≤ 70 then some (c.toNat - 65 + 10) else none) = some n at h
  grind

theorem read?_lt (h : read? cs = some n) : n < 16 ^ cs.length := by
  induction cs using List.reverseRecOn generalizing n
  case nil =>
    cases h
    decide
  case append_singleton cs c ih =>
    rw [read?_concat] at h
    have ⟨m, hm, h⟩ := Option.bind_eq_some_iff.mp h
    have ⟨d, hd, h⟩ := Option.map_eq_some_iff.mp h
    have lt := ih hm
    have := (value?_lt hd).1
    rw [List.length_append, List.length_singleton, Nat.pow_succ]
    omega

-- Every character of a number is a digit.
theorem value?_of_read? (h : read? cs = some n) : ∀ c ∈ cs, ∃ d, value? c = some d := by
  induction cs using List.reverseRecOn generalizing n
  case nil => simp
  case append_singleton cs c ih =>
    rw [read?_concat] at h
    have ⟨m, hm, h⟩ := Option.bind_eq_some_iff.mp h
    have ⟨d, hd, h⟩ := Option.map_eq_some_iff.mp h
    intro c' hc
    rcases List.mem_append.mp hc with hc | hc
    · exact ih hm c' hc
    · rw [List.mem_singleton.mp hc]
      exact ⟨d, hd⟩

end Hex

namespace Json.UnitText

variable {n : Nat} {digits : List UInt8}

theorem length (h : UnitText n digits) : digits.length = 4 := by
  obtain ⟨_, _, _, _, _, rfl⟩ := h
  rfl

theorem lt (h : UnitText n digits) : n < 0x10000 := by
  obtain ⟨_, _, _, _, h, _⟩ := h
  simpa using Hex.read?_lt h

-- No digit is a sign or a backslash.
theorem ne (h : UnitText n digits) : ∀ b ∈ digits, b ≠ ascii '+' ∧ b ≠ ascii '\\' := by
  obtain ⟨_, _, _, _, h, rfl⟩ := h
  intro b hb
  have ⟨x, hx, hb⟩ := List.mem_map.mp hb
  have ⟨d, hd⟩ := Hex.value?_of_read? h x hx
  have lt := (Hex.value?_lt hd).2
  subst hb
  constructor
  all_goals
    intro he
    rw [ascii_inj (by omega) (by decide)] at he
    subst he
    cases hd

end Json.UnitText

namespace Json

theorem hasSignedUnit_escape (b : UInt8) (bytes : List UInt8) :
    hasSignedUnit (ascii '\\' :: b :: bytes) =
      ((b = ascii 'u' && bytes.head? = some (ascii '+')) || hasSignedUnit bytes) := by
  rw [hasSignedUnit, if_pos rfl]

theorem hasSignedUnit_cons {b : UInt8} (h : b ≠ ascii '\\') (bytes : List UInt8) :
    hasSignedUnit (b :: bytes) = hasSignedUnit bytes := by
  cases bytes
  case nil  => rfl
  case cons => rw [hasSignedUnit, if_neg h]

-- Bytes after which a sign is found or not as if they were not there.
def Unsigned (bytes : List UInt8) : Prop :=
  ∀ rest, hasSignedUnit (bytes ++ rest) = hasSignedUnit rest

theorem Unsigned.append {bytes bytes' : List UInt8} (h : Unsigned bytes) (h' : Unsigned bytes') :
    Unsigned (bytes ++ bytes') := by
  intro rest
  rw [List.append_assoc, h, h']

theorem Unsigned.of_ne {bytes : List UInt8} (h : ∀ b ∈ bytes, b ≠ ascii '\\') : Unsigned bytes := by
  intro rest
  induction bytes
  case nil => rfl
  case cons b bytes ih =>
    have ⟨hb, h⟩ := List.forall_mem_cons.mp h
    rw [List.cons_append, hasSignedUnit_cons hb, ih h]

theorem Unsigned.of_all {bytes : List UInt8} (h : bytes.all (· ≠ ascii '\\')) :
    Unsigned bytes :=
  .of_ne (by simpa using h)

theorem Unsigned.cons {b : UInt8} {bytes : List UInt8} (hb : b ≠ ascii '\\') (h : Unsigned bytes) :
    Unsigned (b :: bytes) :=
  (Unsigned.of_ne (by simpa using hb) : Unsigned [b]).append h

theorem Unsigned.unit {n : Nat} {digits : List UInt8} (h : UnitText n digits) :
    Unsigned (ascii '\\' :: ascii 'u' :: digits) := by
  intro rest
  have head : (digits ++ rest).head? ≠ some (ascii '+') := by
    have ne := h.ne
    obtain ⟨a, b, c, d, _, rfl⟩ := h
    exact fun hb => (ne (ascii a) (List.mem_cons_self ..)).1 (Option.some.inj hb)
  rw [List.cons_append, List.cons_append, hasSignedUnit_escape, decide_eq_false head,
    Bool.and_false, Bool.false_or]
  exact Unsigned.of_ne (fun b hb => (h.ne b hb).2) rest

theorem Unsigned.escape {c : Char} {bytes : List UInt8} (h : EscapeText c bytes) :
    Unsigned bytes := by
  cases h
  case short letter h =>
    have hu : ∀ p ∈ shortEscapes, ascii p.1 ≠ ascii 'u' := by decide
    intro rest
    simp only [List.cons_append, List.nil_append, hasSignedUnit_escape, hu _ h, decide_false,
      Bool.false_and, Bool.false_or]
  case unit h => exact .unit h
  case pair h _ h' _ _ => exact (Unsigned.unit h).append (.unit h')

theorem UnitSpelling.lt {n : Nat} {digits : List UInt8} (h : UnitSpelling n digits) :
    n < 0x10000 := by
  obtain h | ⟨_, h, _⟩ := h <;> exact h.lt

section Spellings

variable {n : Nat} {c : Char} {bytes digits rest : List UInt8}

-- What is read as a unit is one if it does not start with a sign.
theorem UnitSpelling.text (h : UnitSpelling n digits)
    (hs : hasSignedUnit (ascii '\\' :: ascii 'u' :: (digits ++ rest)) = false) :
    UnitText n digits := by
  rcases h with h | ⟨digits, _, rfl⟩
  case inl => exact h
  case inr =>
    rw [hasSignedUnit_escape] at hs
    simp at hs

theorem EscapeSpelling.text (h : EscapeSpelling c bytes)
    (hs : hasSignedUnit (bytes ++ rest) = false) : EscapeText c bytes := by
  cases h
  case short h => exact .short h
  case unit h  => exact .unit (h.text hs)
  case pair high low digits digits' h hh h' hl hc =>
    rw [List.cons_append, List.cons_append, List.append_assoc] at hs
    have text := h.text hs
    rw [← List.cons_append, ← List.cons_append, Unsigned.unit text] at hs
    exact .pair text hh (h'.text hs) hl hc

end Spellings

end Json

namespace Scan

open Forward Json

variable {r r' : Reader} {start o n : Nat} {digits rest : List UInt8} {c : Char}

section Units

theorem unitValue?_ascii {a b c d : Char} (h : Hex.read? [a, b, c, d] = some n) :
    unitValue? (ascii a) (ascii b) (ascii c) (ascii d) = some n := by
  have digit := Hex.value?_of_read? h
  have ha : ascii a ≠ ascii '+' := by
    have ⟨_, hd⟩ := digit a (by simp)
    intro he
    rw [ascii_inj (by have := (Hex.value?_lt hd).2; omega) (by decide)] at he
    subst he
    cases hd
  have byte (x) (hx : x ∈ [a, b, c, d]) : Char.ofNat (ascii x).toNat = x := by
    have ⟨_, hd⟩ := digit x hx
    exact Ascii.char_ascii (by have := (Hex.value?_lt hd).2; omega)
  simp only [unitValue?, if_neg ha, List.map_cons, List.map_nil]
  rw [byte a (by simp), byte b (by simp), byte c (by simp), byte d (by simp), h]

theorem run_unit (h : UnitText n digits) :
    (unit start).run ⟨o, digits ++ rest⟩ = .ok n ⟨o + digits.length, rest⟩ := by
  obtain ⟨a, b, c, d, h, rfl⟩ := h
  simp only [unit, run_bind, run_look, List.map_cons, List.map_nil, List.cons_append,
    List.nil_append, unitValue?_ascii h]
  rfl

theorem unit_ok (h : (unit start).run r = .ok n r') :
    ∃ digits, UnitSpelling n digits ∧ r.ahead = digits ++ r'.ahead := by
  obtain ⟨o, ahead⟩ := r
  simp only [unit, run_bind, run_look] at h
  split at h
  case h_2 => cases h
  case h_1 a b c d rest =>
    split at h
    case h_2 => cases h
    case h_1 n hn =>
      cases h
      refine ⟨[a, b, c, d], ?_, rfl⟩
      rw [unitValue?] at hn
      split at hn
      case isFalse =>
        refine .inl ⟨Ascii.char a, Ascii.char b, Ascii.char c, Ascii.char d, hn, ?_⟩
        simp [Ascii.ascii_char]
      case isTrue ha =>
        refine .inr ⟨[b, c, d], ⟨'0', Ascii.char b, Ascii.char c, Ascii.char d, hn, ?_⟩, ha ▸ rfl⟩
        simp [Ascii.ascii_char]

-- A character is no half of a pair.
theorem not_surrogate (c : Char) :
    isHighSurrogate c.toNat = false ∧ isLowSurrogate c.toNat = false := by
  have valid : c.toNat < 0xD800 ∨ 0xDFFF < c.toNat ∧ c.toNat < 0x110000 := c.valid
  simp only [isHighSurrogate, isLowSurrogate, Bool.and_eq_false_iff, decide_eq_false_iff_not]
  omega

theorem isHighSurrogate_add {high : Nat} (h : high < 0x400) : isHighSurrogate (0xD800 + high) := by
  simp only [isHighSurrogate, Bool.and_eq_true, decide_eq_true_eq]
  omega

theorem isLowSurrogate_add {low : Nat} (h : low < 0x400) : isLowSurrogate (0xDC00 + low) := by
  simp only [isLowSurrogate, Bool.and_eq_true, decide_eq_true_eq]
  omega

theorem run_unicode_unit (h : UnitText c.toNat digits) :
    (unicode start).run ⟨o, digits ++ rest⟩ = .ok c ⟨o + digits.length, rest⟩ := by
  have ⟨hh, hl⟩ := not_surrogate c
  rw [unicode, run_bind_of_ok (run_unit h), hh, hl, Char.ofNat_toNat]
  rfl

theorem run_unicode_pair {high low : Nat} {digits' : List UInt8}
    (h : UnitText (0xD800 + high) digits) (hh : high < 0x400)
    (h' : UnitText (0xDC00 + low) digits') (hl : low < 0x400)
    (hc : c.toNat = 0x10000 + high * 0x400 + low) :
    (unicode start).run ⟨o, digits ++ ascii '\\' :: ascii 'u' :: (digits' ++ rest)⟩ =
      .ok c ⟨o + digits.length + 2 + digits'.length, rest⟩ := by
  rw [unicode, run_bind_of_ok (run_unit h), if_pos (isHighSurrogate_add hh)]
  have run : (unit start).run ⟨o + digits.length + 2, digits' ++ rest⟩ = _ := run_unit h'
  refine (run_bind_of_ok run).trans ?_
  rw [if_pos (isLowSurrogate_add hl), Nat.add_sub_cancel_left, Nat.add_sub_cancel_left, ← hc,
    Char.ofNat_toNat]
  rfl

-- The escape of a unit that is no half of a pair.
theorem escapeSpelling_unit (hh : isHighSurrogate n = false) (hl : isLowSurrogate n = false)
    (hu : UnitSpelling n digits) :
    EscapeSpelling (Char.ofNat n) (ascii '\\' :: ascii 'u' :: digits) := by
  have lt := hu.lt
  have valid : n.isValidChar := by
    simp only [isHighSurrogate, isLowSurrogate, Bool.and_eq_false_iff,
      decide_eq_false_iff_not] at hh hl
    exact Classical.or_iff_not_imp_left.mpr fun h => by omega
  rw [← toNat_charOfNat valid] at hu
  exact .unit hu

theorem escapeSpelling_pair {high low : Nat} {digits' : List UInt8} (hh : isHighSurrogate high)
    (hl : isLowSurrogate low) (hu : UnitSpelling high digits) (hu' : UnitSpelling low digits') :
    EscapeSpelling (Char.ofNat (0x10000 + (high - 0xD800) * 0x400 + (low - 0xDC00)))
      (ascii '\\' :: ascii 'u' :: (digits ++ ascii '\\' :: ascii 'u' :: digits')) := by
  simp only [isHighSurrogate, isLowSurrogate, Bool.and_eq_true, decide_eq_true_eq] at hh hl
  have valid : (0x10000 + (high - 0xD800) * 0x400 + (low - 0xDC00)).isValidChar :=
    .inr (by omega)
  have hhigh : high = 0xD800 + (high - 0xD800) := by omega
  have hlow : low = 0xDC00 + (low - 0xDC00) := by omega
  rw [hhigh] at hu
  rw [hlow] at hu'
  exact .pair hu (by omega) hu' (by omega) (toNat_charOfNat valid)

theorem unicode_ok (h : (unicode start).run r = .ok c r') :
    ∃ bytes, EscapeSpelling c (ascii '\\' :: ascii 'u' :: bytes) ∧ r.ahead = bytes ++ r'.ahead := by
  have ⟨high, r₁, hrun, h⟩ := exists_of_bind_ok h
  have ⟨digits, hu, ha⟩ := unit_ok hrun
  split at h
  case isFalse hh =>
    split at h
    case isTrue  => cases h
    case isFalse hl =>
      cases h
      exact ⟨digits, escapeSpelling_unit (by simpa using hh) (by simpa using hl) hu, ha⟩
  case isTrue hh =>
    obtain ⟨o, ahead⟩ := r₁
    have ⟨_, _, hlook, h⟩ := exists_of_bind_ok h
    cases hlook
    split at h
    case isFalse => cases h
    case isTrue hp =>
      have ⟨more, hm⟩ := List.isPrefixOf_iff_prefix.mp hp
      subst hm
      have ⟨_, _, hskip, h⟩ := exists_of_bind_ok h
      cases hskip
      have ⟨low, r₂, hrun, h⟩ := exists_of_bind_ok h
      have ⟨digits', hu', hd⟩ := unit_ok hrun
      split at h
      case isFalse => cases h
      case isTrue hl =>
        rw [run_pure, Outcome.ok.injEq] at h
        obtain ⟨rfl, rfl⟩ := h
        refine ⟨_, escapeSpelling_pair hh hl hu hu', ?_⟩
        rw [ha]
        simpa [Reader.drop] using hd

end Units

section Escapes

theorem shortEscape?_ascii : ∀ p ∈ shortEscapes, shortEscape? (ascii p.1) = some p.2 := by
  decide

theorem mem_shortEscapes {b : UInt8} (h : shortEscape? b = some c) :
    ∃ letter, (letter, c) ∈ shortEscapes ∧ b = ascii letter := by
  simp only [shortEscape?] at h
  repeat' split at h
  all_goals cases h
  all_goals
    refine ⟨_, ?_, ‹b = _›⟩
    decide

theorem run_escape {bytes : List UInt8} (h : EscapeText c bytes) :
    escape.run ⟨o, bytes ++ rest⟩ = .ok c ⟨o + bytes.length, rest⟩ := by
  cases h
  case short letter h =>
    have hs := shortEscape?_ascii _ h
    simp only [escape, run_bind, Scan.offset, run_view, List.cons_append, List.nil_append, next, hs]
    rfl
  case unit digits h =>
    have run : (unicode o).run ⟨o + 1 + 1, digits ++ rest⟩ = _ := run_unicode_unit h
    apply Eq.trans run
    rw [List.length_cons, List.length_cons, Nat.add_right_comm _ 1, Nat.add_right_comm _ 1]
    rfl
  case pair high low digits digits' h hh h' hl hc =>
    have run : (unicode o).run
        ⟨o + 1 + 1, digits ++ ascii '\\' :: ascii 'u' :: (digits' ++ rest)⟩ = _ :=
      run_unicode_pair h hh h' hl hc
    simp only [List.cons_append, List.append_assoc]
    apply Eq.trans run
    simp [h.length, h'.length]

theorem escape_ok (h : escape.run r = .ok c r') (hb : r.ahead.head? = some (ascii '\\')) :
    ∃ bytes, EscapeSpelling c bytes ∧ r.ahead = bytes ++ r'.ahead := by
  obtain ⟨o, ahead⟩ := r
  obtain ⟨bytes, ha⟩ := List.head?_eq_some_iff.mp hb
  subst ha
  cases bytes
  case nil => cases h
  case cons b bytes =>
    simp only [escape, run_bind, Scan.offset, run_view, next] at h
    split at h
    case h_1 c hc =>
      cases h
      obtain ⟨letter, hl, hb⟩ := mem_shortEscapes hc
      subst hb
      exact ⟨_, .short hl, rfl⟩
    case h_2 =>
      split at h
      case isFalse => cases h
      case isTrue hu =>
        subst hu
        obtain ⟨bytes, he, ha⟩ := unicode_ok h
        exact ⟨_, he, congrArg (ascii '\\' :: ascii 'u' :: ·) ha⟩

end Escapes

end Scan
end RecordDecoding
