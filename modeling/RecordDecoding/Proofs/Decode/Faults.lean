import RecordDecoding.Proofs.Decode.Feeding
import RecordDecoding.Proofs.Number.Literal

namespace RecordDecoding

namespace ScalarKind

variable {σ α : Type} {f : σ → Except CursorError α} {c : σ} {k : ScalarKind} {e : CursorError}
variable {expected : KindSet} {actual : TokenKind}

theorem access_of_ok {a : α} (h : f c = .ok a) : access f c = .ok a := by
  rw [access, h]
  rfl

theorem access_of_fault (h : f c = .error e) (he : e.isValueFault) :
    access f c = .error (.invalid e.message) := by
  rw [access, h]
  exact congrArg Except.error (if_pos he)

theorem access_of_source (h : f c = .error e) (he : e.isValueFault = false) :
    access f c = .error (.source e) := by
  rw [access, h]
  exact congrArg Except.error (if_neg (by simp [he]))

theorem access_ne_mismatch (f : σ → Except CursorError α) :
    access f c ≠ .error (.mismatch expected actual) := by
  unfold access
  cases f c
  case ok => nofun
  case error e =>
    simp only [Except.mapError, ScalarFault.ofCursorError]
    split <;> nofun

variable [Cursor σ]

theorem readAccepted_ne_mismatch [UuidFormat] :
    k.readAccepted c ≠ .error (.mismatch expected actual) := by
  have after {α : Type} {f : σ → Except CursorError α} {g : α → Except ScalarFault Value}
      (hg : ∀ a, g a ≠ .error (.mismatch expected actual)) :
      (access f c >>= g) ≠ .error (.mismatch expected actual) := by
    intro h
    rcases error_of_bind_error h with h | ⟨a, _, h⟩
    · exact access_ne_mismatch f h
    · exact hg a h
  cases k
  case bool   => nofun
  case string => exact after fun _ => nofun
  case f64    => exact after fun _ => nofun
  case binary => exact after fun _ => nofun
  case int    => exact after fun _ => by unfold narrow; split <;> nofun
  case f32    => exact after fun _ => by unfold narrowFloat; dsimp only; split <;> nofun
  case bigInt => exact after fun _ => by unfold readBigInt; split <;> nofun
  case uuid   => exact after fun _ => by unfold readUuid; split <;> nofun

-- A kind is complained about if and only if it is not accepted.
theorem read_mismatch [UuidFormat] (h : k.read c = .error (.mismatch expected actual)) :
    expected = k.accepts ∧ actual = Cursor.kind c ∧ actual ∉ k.accepts := by
  unfold ScalarKind.read at h
  split at h
  case isTrue  => exact absurd h readAccepted_ne_mismatch
  case isFalse hk =>
    cases h
    exact ⟨rfl, rfl, hk⟩

theorem read_invalid [UuidFormat] {reason : String} (h : k.read c = .error (.invalid reason)) :
    Cursor.kind c ∈ k.accepts := by
  unfold ScalarKind.read at h
  split at h
  case isTrue hk => exact hk
  case isFalse   => cases h

theorem accepts_integer (floats : k = .f32 ∨ k = .f64) (kind : Cursor.kind c = .integer) :
    Cursor.kind c ∈ k.accepts := by
  rw [kind]
  obtain rfl | rfl := floats <;> decide

section Source

omit [Cursor σ] in
-- What is read through an accessor that fails at most on the value does not fail on the source.
theorem ne_source_of_access {g : α → Except ScalarFault Value}
    (hf : ∀ e, f c = .error e → e.isValueFault) (hg : ∀ a, g a ≠ .error (.source e)) :
    (access f c >>= g) ≠ .error (.source e) := by
  cases hc : f c
  case ok a =>
    rw [access_of_ok hc]
    exact hg a
  case error e' =>
    rw [access_of_fault hc (hf e' hc)]
    exact nofun

theorem narrow_ne_source (width : IntWidth) (n : Int) : narrow width n ≠ .error (.source e) := by
  unfold narrow
  split <;> simp

theorem narrowFloat_ne_source (x : Double) : narrowFloat x ≠ .error (.source e) := by
  simp only [narrowFloat]
  split <;> simp

theorem readBigInt_ne_source (s : String) : readBigInt s ≠ .error (.source e) := by
  unfold readBigInt
  split <;> simp

variable [UuidFormat]

theorem readUuid_ne_source (s : String) : readUuid s ≠ .error (.source e) := by
  unfold readUuid
  split <;> simp

-- The accessor that reads an accepted token fails at most on its value.
def FailsOnValue (c : σ) : ScalarKind → Prop
  | string | uuid => ∀ e, Cursor.text c = .error e → e.isValueFault
  | bool          => True
  | int _         => ∀ e, Cursor.int c = .error e → e.isValueFault
  | bigInt        => ∀ e, Cursor.numberText c = .error e → e.isValueFault
  | f32 | f64     => ∀ e, Cursor.float c = .error e → e.isValueFault
  | binary        => ∀ e, Cursor.binary c = .error e → e.isValueFault

theorem read_ne_source (h : Cursor.kind c ∈ k.accepts → k.FailsOnValue c) :
    k.read c ≠ .error (.source e) := by
  unfold ScalarKind.read
  split
  case isFalse => nofun
  case isTrue accepted =>
    have fails := h accepted
    cases k
    case string    => exact ne_source_of_access fails nofun
    case bool      => nofun
    case int width => exact ne_source_of_access fails fun n => narrow_ne_source width n.toInt
    case bigInt    => exact ne_source_of_access fails readBigInt_ne_source
    case f32       => exact ne_source_of_access fails narrowFloat_ne_source
    case f64       => exact ne_source_of_access fails nofun
    case binary    => exact ne_source_of_access fails nofun
    case uuid      => exact ne_source_of_access fails readUuid_ne_source

end Source

variable [UuidFormat]

-- A token is told to be of the wrong kind if its kind is not accepted. If it is, the token is read,
-- or the value is told to be of no use.
structure Sorts (k : ScalarKind) (c : σ) : Prop where
  mismatch : Cursor.kind c ∉ k.accepts → k.read c = .error (.mismatch k.accepts (Cursor.kind c))
  accepted : Cursor.kind c ∈ k.accepts →
    (∃ v, k.read c = .ok v) ∨ ∃ reason, k.read c = .error (.invalid reason)

theorem sorts_of_ne_source (h : ∀ e, k.read c ≠ .error (.source e)) : k.Sorts c where
  mismatch hk := if_neg hk
  accepted hk := by
    cases hr : k.read c
    case ok v => exact .inl ⟨v, rfl⟩
    case error fault =>
      cases fault
      case invalid reason => exact .inr ⟨reason, rfl⟩
      case source e       => exact absurd hr (h e)
      case mismatch =>
        obtain ⟨rfl, rfl, not⟩ := read_mismatch hr
        exact absurd hk not

end ScalarKind

namespace TextCursor

variable {c : TextCursor} {e : CursorError} {k : ScalarKind} {literal : String}

theorem text_eq (hk : c.kind = .string) : c.text = .ok c.scratch := by
  rw [text, CursorError.expectKind, if_pos hk]
  rfl

theorem fieldName_eq (hk : c.kind = .fieldName) : c.fieldName = .ok (.fresh c.scratch) := by
  rw [fieldName, CursorError.expectKind, if_pos hk]
  rfl

theorem binary_eq (c : TextCursor) : c.binary = c.text >>= fun s =>
    (Base64.decode? s).elim (.error (.invalidBase64 c.start)) .ok := by
  rw [binary, text]
  cases CursorError.expectKind .string c.kind <;> rfl

theorem binary_of_text {s : String} (ht : c.text = .ok s) :
    c.binary = (Base64.decode? s).elim (.error (.invalidBase64 c.start)) .ok := by
  simp only [binary_eq, ht, bind, Except.bind]

theorem int_eq (hk : c.kind = .integer) (ht : c.numberText = .ok literal) :
    c.int = (readInt64? literal).elim (.error (.numberOutOfRange c.start)) .ok := by
  rw [numberText, if_pos (.inl hk)] at ht
  rw [int, CursorError.expectKind, if_pos hk, ht]
  rfl

theorem float_eq {x : Double} (ht : c.numberText = .ok literal)
    (hx : Binary.read? literal = some x) :
    c.float = if x.isInfinite then .error (.numberOutOfRange c.start) else .ok x := by
  rw [float, ht]
  simp only [bind, Except.bind, hx]
  rfl

theorem binary_fault (hk : c.kind = .string) (he : c.binary = .error e) : e.isValueFault := by
  rw [binary_of_text (text_eq hk)] at he
  generalize Base64.decode? c.scratch = decoded at he
  cases decoded <;> cases he
  rfl

theorem int_fault (hk : c.kind = .integer) (ht : c.numberText = .ok literal)
    (he : c.int = .error e) : e.isValueFault := by
  rw [int_eq hk ht] at he
  cases hb : readInt64? literal <;> cases hb ▸ he
  rfl

theorem float_fault (ht : c.numberText = .ok literal) (hn : Numeral.IsNumber literal.toList)
    (he : c.float = .error e) : e.isValueFault := by
  have ⟨x, hx⟩ := Option.isSome_iff_exists.mp (Binary.isSome_read?_number (f := .double) hn)
  rw [float_eq ht hx] at he
  split at he <;> cases he
  rfl

-- An accessor that suits the token fails at most on the value, as long as numbers are found.
theorem read_ne_source [UuidFormat] (k : ScalarKind) (e : CursorError)
    (number : c.kind = .integer ∨ c.kind = .float →
      ∃ literal : String, c.numberText = .ok literal ∧ Numeral.IsNumber literal.toList) :
    k.read c ≠ .error (.source e) := by
  have text (hk : c.kind = .string) {e : CursorError} (he : c.text = .error e) :
      e.isValueFault := by
    cases (text_eq hk).symm.trans he
  refine ScalarKind.read_ne_source fun accepted => ?_
  cases k
  case string => exact fun _ => text (KindSet.mem_onlyString.mp accepted)
  case uuid   => exact fun _ => text (KindSet.mem_onlyString.mp accepted)
  case binary => exact fun _ => binary_fault (KindSet.mem_onlyString.mp accepted)
  case bool   => trivial
  case int width =>
    have hk := KindSet.mem_onlyInteger.mp accepted
    have ⟨literal, ht, _⟩ := number (.inl hk)
    exact fun _ => int_fault hk ht
  case bigInt =>
    have ⟨literal, ht, _⟩ := number (.inl (KindSet.mem_onlyInteger.mp accepted))
    exact fun e he => nomatch ht.symm.trans he
  case f32 =>
    have ⟨literal, ht, hn⟩ := number (KindSet.mem_anyNumber.mp accepted)
    exact fun _ => float_fault ht hn
  case f64 =>
    have ⟨literal, ht, hn⟩ := number (KindSet.mem_anyNumber.mp accepted)
    exact fun _ => float_fault ht hn

end TextCursor

namespace Replay

variable {r : Replay} {k : ScalarKind} {e : CursorError} {literal : String}

theorem float_eq {x : Double} (current : r.current = .bigInt literal)
    (hx : Binary.read? literal = some x) : Cursor.float r = .ok x := by
  simp only [Cursor.float, float, current, hx, Option.elim_some]

theorem binary_fault {s : String} (current : r.current = .string s)
    (he : Cursor.binary r = .error e) : e.isValueFault := by
  have binary : Cursor.binary r =
      (Base64.decode? s).elim (.error (.invalidBase64 r.index)) .ok := by
    simp only [Cursor.binary, binary, text, current, bind, Except.bind]
  rw [binary] at he
  generalize Base64.decode? s = decoded at he
  cases decoded <;> cases he
  rfl

theorem int_fault (current : r.current = .bigInt literal) (he : Cursor.int r = .error e) :
    e.isValueFault := by
  simp only [Cursor.int, int, current] at he
  cases hb : readInt64? literal <;> cases hb ▸ he
  rfl

-- An integer that is asked for as a float, but whose text is no number.
structure Unreadable (r : Replay) (k : ScalarKind) (literal : String) : Prop where
  float : k = .f32 ∨ k = .f64
  current : r.current = .bigInt literal
  text : (Binary.read? literal : Option Double) = none

theorem Unreadable.read_eq [UuidFormat] (h : r.Unreadable k literal) :
    k.read r = .error (.source (.invalidNumber r.index)) := by
  have kind : Cursor.kind r = .integer := congrArg Token.kind h.current
  have float : Cursor.float r = .error (.invalidNumber r.index) := by
    simp only [Cursor.float, Replay.float, h.current, h.text, Option.elim_none]
  rw [ScalarKind.read, if_pos (ScalarKind.accepts_integer h.float kind)]
  obtain rfl | rfl := h.float
  all_goals
    rw [ScalarKind.readAccepted, ScalarKind.access_of_source float rfl]
    rfl

theorem float_ne_error (float : k = .f32 ∨ k = .f64) (current : r.current = .bigInt literal)
    (readable : ∀ literal, ¬r.Unreadable k literal) : Cursor.float r ≠ .error e := by
  cases hx : (Binary.read? literal : Option Double)
  case none   => exact absurd ⟨float, current, hx⟩ (readable literal)
  case some x => exact fun he => nomatch (float_eq current hx).symm.trans he

-- No other token makes an accessor that suits it fail but on the value.
theorem read_ne_source [UuidFormat] (k : ScalarKind) (e : CursorError)
    (readable : ∀ literal, ¬r.Unreadable k literal) : k.read r ≠ .error (.source e) := by
  refine ScalarKind.read_ne_source fun accepted => ?_
  obtain ⟨current, ahead, index, advances, cancelAfter⟩ := r
  cases current
  case bool b =>
    cases k <;> cases b <;> simp [Cursor.kind, Token.kind, ScalarKind.accepts] at accepted
    all_goals trivial
  all_goals cases k <;> simp [Cursor.kind, Token.kind, ScalarKind.accepts] at accepted
  case string.binary => exact fun _ => binary_fault rfl
  case bigInt.int    => exact fun _ => int_fault rfl
  case bigInt.f32    => exact fun _ he => (float_ne_error (.inl rfl) rfl readable he).elim
  case bigInt.f64    => exact fun _ he => (float_ne_error (.inr rfl) rfl readable he).elim
  all_goals exact fun _ he => by cases he

end Replay
end RecordDecoding
