import RecordDecoding.Cursor.Replay
import RecordDecoding.External.Uuid
import RecordDecoding.Proofs.Decode.Balance
import RecordDecoding.Proofs.Decode.Correspondence
import RecordDecoding.Proofs.Number.Canonical

namespace RecordDecoding

open Decoding Forward

-- A token that stands for a lexeme. Integers that fit 64 bits are kept by their value, others by
-- their literal. In the place of any other number there may be any float.
inductive Lexeme.Replays : Lexeme → Token → Prop
  | objectStart : Replays .objectStart .objectStart
  | objectEnd : Replays .objectEnd .objectEnd
  | name (s) : Replays (.name s) (.fieldName (.fresh s))
  | string (s) : Replays (.string s) (.string s)
  | int {literal} {n : Int64} : Numeral.IsInteger literal.toList →
    Numeral.toInt? literal = some n.toInt → Replays (.number literal) (.int n)
  | bigInt {literal} : Numeral.IsInteger literal.toList →
    (∀ n : Int64, Numeral.toInt? literal ≠ some n.toInt) →
    Replays (.number literal) (.bigInt literal)
  | float {literal x} : ¬Numeral.IsInteger literal.toList → Replays (.number literal) (.float x)
  | bool (b) : Replays (.bool b) (.bool b)
  | null : Replays .null .null
  | arrayStart : Replays .arrayStart .arrayStart
  | arrayEnd : Replays .arrayEnd .arrayEnd

theorem Lexeme.Replays.kind_eq {l : Lexeme} {t : Token} (h : l.Replays t) : l.kind = t.kind := by
  cases h
  case int hi _    => exact if_pos hi
  case bigInt hi _ => exact if_pos hi
  case float hi    => exact if_neg hi
  case bool b      => cases b <;> rfl
  all_goals rfl

-- The integers of 64 bits among the lexemes that integer tokens stand for.
theorem Lexeme.Replays.of_integer {l : Lexeme} {t : Token} (h : l.Replays t)
    (hk : t.kind = .integer) : ∃ literal, l = .number literal ∧ Numeral.IsInteger literal.toList ∧
      ((∃ n : Int64, t = .int n ∧ Numeral.toInt? literal = some n.toInt) ∨
        t = .bigInt literal ∧ ∀ n : Int64, Numeral.toInt? literal ≠ some n.toInt) := by
  cases h
  case int hi hn    => exact ⟨_, rfl, hi, .inl ⟨_, rfl, hn⟩⟩
  case bigInt hi hn => exact ⟨_, rfl, hi, .inr ⟨rfl, hn⟩⟩
  case bool b       => cases b <;> cases hk
  all_goals cases hk

-- The replay is on the token at that place.
structure Replay.IsAt (r : Replay) (tokens : List Token) (i : Nat) : Prop where
  active : r.cancelAfter = none
  index : r.index = i
  rest : tokens.drop i = r.current :: r.ahead

namespace Replay.IsAt

variable {r : Replay} {tokens : List Token} {i : Nat}

theorem drop_succ (h : r.IsAt tokens i) : tokens.drop (i + 1) = r.ahead := by
  rw [← List.tail_drop, h.rest, List.tail_cons]

theorem run_advance (h : r.IsAt tokens i) : advance.run r = match tokens.drop (i + 1) with
    | []             => .error .exhausted r
    | token :: ahead => .ok () (r.onto token ahead) := by
  have active : r.isCancelled = false := by rw [isCancelled, h.active]; rfl
  rw [h.drop_succ, advance]
  simp only [active]
  rfl

theorem exhausted (h : r.IsAt tokens i) (hi : tokens.drop (i + 1) = []) :
    advance.run r = .error .exhausted r := by
  rw [h.run_advance, hi]

theorem advance (h : r.IsAt tokens i) {t : Token} {ts : List Token}
    (hi : tokens.drop (i + 1) = t :: ts) :
    ∃ r', advance.run r = .ok () r' ∧ r'.IsAt tokens (i + 1) := by
  rw [h.run_advance, hi]
  exact ⟨_, rfl, h.active, congrArg (· + 1) h.index, hi⟩

end Replay.IsAt

namespace TextCursor

variable {c : TextCursor} {l : Lexeme} {ls : List Lexeme} {i : Nat}

-- The cursor is on the lexeme at that place, and those after it follow.
def IsAt (c : TextCursor) (ls : List Lexeme) (i : Nat) : Prop :=
  ∃ l more, ls.drop i = l :: more ∧ c.Shows l ∧ c.Follows more

-- A cursor does not lose its place at the end of the text.
theorem IsAt.exhausted (h : c.IsAt ls i) (hi : ls.drop (i + 1) = []) :
    ∃ c', advance.run c = .error .exhausted c' ∧ c'.IsAt ls i := by
  have ⟨l, more, hd, hs, hf⟩ := h
  have : more = [] := by rw [← hi, ← List.tail_drop, hd, List.tail_cons]
  subst this
  have ⟨c', hr, hs, hf⟩ := hf.exhausted hs
  exact ⟨c', hr, l, [], hd, hs, hf⟩

theorem IsAt.advance (h : c.IsAt ls i) {l : Lexeme} {more : List Lexeme}
    (hi : ls.drop (i + 1) = l :: more) :
    ∃ c', advance.run c = .ok () c' ∧ c'.IsAt ls (i + 1) := by
  have ⟨_, more', hd, _, hf⟩ := h
  have : more' = l :: more := by rw [← hi, ← List.tail_drop, hd, List.tail_cons]
  subst this
  have ⟨c', hr, hs, hf⟩ := advance_yields hf hf.not_complete
  exact ⟨c', hr, l, more, hi, hs, hf⟩

-- A cursor is at one place only, since the number of lexemes that follow it is its own.
theorem IsAt.unique {i' : Nat} (h : c.IsAt ls i) (h' : c.IsAt ls i') : i = i' := by
  have ⟨_, _, hd, _, hf⟩ := h
  have ⟨_, _, hd', _, hf'⟩ := h'
  have := hf.length_eq hf'
  have := congrArg List.length hd
  have := congrArg List.length hd'
  simp only [List.length_drop, List.length_cons] at *
  omega

end TextCursor

-- The two cursors are on the same token of a text.
def SameToken (ls : List Lexeme) (tokens : List Token) (c : TextCursor) (r : Replay) : Prop :=
  ∃ i, c.IsAt ls i ∧ r.IsAt tokens i

namespace SameToken

variable {ls : List Lexeme} {tokens : List Token} {c : TextCursor} {r : Replay}

-- The place of the cursor in the text is the index of the replay, and no other.
theorem isAt_iff (h : SameToken ls tokens c r) {i : Nat} : c.IsAt ls i ↔ r.index = i := by
  have ⟨i', hc, hr⟩ := h
  constructor
  case mp  => exact fun h => hr.index.trans (hc.unique h)
  case mpr => exact fun h => (hr.index.symm.trans h) ▸ hc

theorem shows (replays : List.Forall₂ Lexeme.Replays ls tokens) (h : SameToken ls tokens c r) :
    ∃ l, c.Shows l ∧ l.Replays r.current := by
  have ⟨i, ⟨l, more, hd, hs, _⟩, hr⟩ := h
  have := List.forall₂_drop i replays
  rw [hd, hr.rest] at this
  exact ⟨l, hs, (List.forall₂_cons.mp this).1⟩

theorem advance (replays : List.Forall₂ Lexeme.Replays ls tokens)
    {E : CursorError → CursorError → Prop} (exhausted : E .exhausted .exhausted) :
    Lockstep (SameToken ls tokens) E Eq Cursor.advance Cursor.advance := by
  intro c r ⟨i, hc, hr⟩
  have rest := List.forall₂_drop (i + 1) replays
  generalize hl : ls.drop (i + 1) = more, ht : tokens.drop (i + 1) = more' at rest
  cases rest
  case nil =>
    have ⟨c', hc, h⟩ := hc.exhausted hl
    simp only [Cursor.advance, hc, hr.exhausted ht]
    exact .error exhausted ⟨i, h, hr⟩
  case cons =>
    have ⟨c', hc, h⟩ := hc.advance hl
    have ⟨r', hr, h'⟩ := hr.advance ht
    simp only [Cursor.advance, hc, hr]
    exact .ok rfl ⟨i + 1, h, h'⟩

end SameToken

-- What is read from two cursors: the same, or from both that the value is of no use.
inductive ScalarKind.Alike : Except ScalarFault Value → Except ScalarFault Value → Prop
  | same (x) : Alike x x
  | invalid (reason reason') : Alike (.error (.invalid reason)) (.error (.invalid reason'))

namespace ScalarKind.Alike

variable {α : Type} {f : TextCursor → Except CursorError α} {g : Replay → Except CursorError α}
variable {c : TextCursor} {r : Replay} {h : α → Except ScalarFault Value}

theorem access (he : f c = g r) : Alike (access f c >>= h) (access g r >>= h) := by
  simp only [ScalarKind.access, he]
  exact .same _

theorem access_fault {e e' : CursorError} (hf : f c = .error e) (hg : g r = .error e')
    (he : e.isValueFault) (he' : e'.isValueFault) :
    Alike (ScalarKind.access f c >>= h) (ScalarKind.access g r >>= h) := by
  rw [access_of_fault hf he, access_of_fault hg he']
  exact .invalid ..

end ScalarKind.Alike

open ScalarKind

namespace TextCursor.Shows

variable {c : TextCursor} {r : Replay} {l : Lexeme} (hs : c.Shows l) (ht : l.Replays r.current)
include hs ht

theorem kind_same : c.kind = r.current.kind :=
  hs.kind_eq.trans ht.kind_eq

theorem fieldName_same : c.fieldName = r.fieldName := by
  have kind := hs.kind_same ht
  generalize hr : r.current = t at ht kind
  simp only [Replay.fieldName, Replay.wrong, hr]
  cases ht
  case name => exact hs.2
  case bool b =>
    simp only [fieldName, CursorError.expectKind, kind]
    cases b <;> rfl
  all_goals
    simp only [fieldName, CursorError.expectKind, kind]
    rfl

theorem text_same : c.text = r.text := by
  have kind := hs.kind_same ht
  generalize hr : r.current = t at ht kind
  simp only [Replay.text, Replay.wrong, hr]
  cases ht
  case string => exact hs.2
  case bool b =>
    simp only [text, CursorError.expectKind, kind]
    cases b <;> rfl
  all_goals
    simp only [text, CursorError.expectKind, kind]
    rfl

theorem binary_alike {h : List UInt8 → Except ScalarFault Value} :
    Alike (access binary c >>= h) (access Replay.binary r >>= h) := by
  cases hr : r.text
  case error e =>
    refine .access ?_
    rw [c.binary_eq, hs.text_same ht, Replay.binary, hr]
    rfl
  case ok s =>
    have left := binary_of_text ((hs.text_same ht).trans hr)
    have right : r.binary = (Base64.decode? s).elim (.error (.invalidBase64 r.index)) .ok := by
      simp only [Replay.binary, hr, bind, Except.bind]
    cases hb : Base64.decode? s
    case some => exact .access (by rw [left, right, hb]; rfl)
    case none =>
      rw [hb] at left right
      exact .access_fault left right rfl rfl

theorem int_alike (hk : c.kind = .integer) {h : Int64 → Except ScalarFault Value} :
    Alike (access int c >>= h) (access Replay.int r >>= h) := by
  have ⟨literal, hl, _, value⟩ := ht.of_integer (hs.kind_same ht ▸ hk)
  subst hl
  have left := int_eq hk hs.1
  rcases value with ⟨n, hr, hn⟩ | ⟨hr, hn⟩
  case inl =>
    refine .access ?_
    rw [left, readInt64?_eq_some_iff.mpr hn, Replay.int, hr]
    rfl
  case inr =>
    have none : readInt64? literal = none :=
      Option.eq_none_iff_forall_ne_some.mpr fun n h => hn n (readInt64?_eq_some_iff.mp h)
    have right : r.int = (readInt64? literal).elim (.error (.numberOutOfRange r.index)) .ok := by
      rw [Replay.int, hr]
    rw [none] at left right
    exact .access_fault left right rfl rfl

-- Here the texts of the numbers may differ.
theorem bigInt_alike (hk : c.kind = .integer) :
    Alike (access numberText c >>= readBigInt) (access Replay.numberText r >>= readBigInt) := by
  have ⟨literal, hl, hi, value⟩ := ht.of_integer (hs.kind_same ht ▸ hk)
  subst hl
  have left : c.numberText = .ok literal := hs.1
  rcases value with ⟨n, hr, hn⟩ | ⟨hr, _⟩
  case inl =>
    have right : r.numberText = .ok (toString n.toInt) := by
      rw [Replay.numberText, hr]
      rfl
    have same : readBigInt literal = readBigInt (toString n.toInt) := by
      simp only [readBigInt, canonicalNumeral?_of_toInt? hi hn, canonicalNumeral?_toString]
    rw [access_of_ok left, access_of_ok right]
    show Alike (readBigInt literal) (readBigInt (toString n.toInt))
    rw [same]
    exact .same _
  case inr =>
    refine .access ?_
    rw [left, Replay.numberText, hr]
    rfl

end TextCursor.Shows

namespace SameToken

variable {ls : List Lexeme} {tokens : List Token} {c : TextCursor} {r : Replay}

theorem read [UuidFormat] (replays : List.Forall₂ Lexeme.Replays ls tokens)
    (h : SameToken ls tokens c r) {k : ScalarKind} (hk : k ≠ .f32 ∧ k ≠ .f64) :
    ScalarKind.Alike (k.read c) (k.read r) := by
  have ⟨l, hs, ht⟩ := h.shows replays
  have kind : Cursor.kind c = Cursor.kind r := hs.kind_same ht
  unfold ScalarKind.read
  rw [← kind]
  split
  case isFalse => exact .same _
  case isTrue accepted =>
    cases k
    case string => exact .access (hs.text_same ht)
    case bool =>
      simp only [ScalarKind.readAccepted, kind]
      exact .same _
    case int width => exact hs.int_alike ht (KindSet.mem_onlyInteger.mp accepted)
    case bigInt => exact hs.bigInt_alike ht (KindSet.mem_onlyInteger.mp accepted)
    case f32    => exact absurd rfl hk.1
    case f64    => exact absurd rfl hk.2
    case binary => exact hs.binary_alike ht
    case uuid   => exact .access (hs.text_same ht)

end SameToken

-- An error but for where it occurred and for what makes a value invalid.
def DecodeError.gist (e : DecodeError) : DecodeError :=
  match e.at none with
  | invalidScalar type field kind _ p => invalidScalar type field kind "" p
  | e                                 => e

namespace Correspondence

-- Between a text and a replay of its tokens.
def replay (ls : List Lexeme) (tokens : List Token) : Correspondence TextCursor Replay where
  cursor := SameToken ls tokens
  stats := Eq
  name := Eq
  error e e' := e.gist = e'.gist

variable [UuidFormat]

namespace replay

variable {ls : List Lexeme} {tokens : List Token}

theorem scalar (replays : List.Forall₂ Lexeme.Replays ls tokens) (schema : Schema) (field : Field)
    {k : ScalarKind} (hk : k ≠ .f32 ∧ k ≠ .f64) :
    (replay ls tokens).Steps Eq (Level.scalar schema field k) (Level.scalar schema field k) := by
  intro s t hs
  have alike := SameToken.read replays hs.cursor hk
  simp only [Level.scalar, Level.mismatch, run_bind, run_look]
  generalize k.read s.cursor = x, k.read t.cursor = y at alike
  cases alike
  case invalid => exact .error rfl hs
  case same =>
    cases x
    case ok          => exact .ok rfl hs
    case error fault => cases fault <;> exact .error rfl hs

theorem lawful (replays : List.Forall₂ Lexeme.Replays ls tokens) :
    (replay ls tokens).Lawful fun k => k ≠ .f32 ∧ k ≠ .f64 where
  kind_eq h := by
    have ⟨_, hs, ht⟩ := SameToken.shows replays h
    exact hs.kind_same ht
  text_eq h := congrArg _ h
  advance := SameToken.advance replays rfl
  fieldName := by
    refine Steps.fieldName (fun h => ?_) (fun _ => rfl) fun _ => rfl
    have ⟨_, hs, ht⟩ := SameToken.shows replays h
    exact hs.fieldName_same ht
  matchName := by
    rintro n _ schema field rfl
    exact Steps.matchName (K := replay ls tokens) (fun h => by cases h; rfl) schema field n
  scalar schema field := scalar replays schema field
  error_refl _ := rfl
  error_at e _ := by cases e <;> rfl
  objects h := by cases h; rfl
  inOrder h := by cases h; rfl
  dispatched h := by cases h; rfl
  skipped h := by cases h; rfl

end replay
end Correspondence

-- A first token stands for the first lexeme of a text.
theorem SameToken.start {j : Json} {bytes : List UInt8} {tokens : List Token}
    (text : Json.IsText j bytes) (replays : List.Forall₂ Lexeme.Replays j.lexemes tokens) :
    ∃ c r, TextCursor.ofBytes bytes = .ok c ∧ Replay.ofTokens tokens none = .ok r ∧
      SameToken j.lexemes tokens c r := by
  have first := TextCursor.advance_yields (TextCursor.follows_initial text) rfl
  generalize j.lexemes = ls at replays first
  cases replays
  case nil => exact first.elim
  case cons l t ls ts _ _ =>
    have ⟨c, hr, hs, hf⟩ := first
    exact ⟨c, _, by rw [TextCursor.ofBytes, hr], rfl, 0, ⟨l, ls, rfl, hs, hf⟩, rfl, rfl, rfl⟩

-- A text and a replay of its tokens are decoded alike, to records without floats.
theorem decodeRecord_replay [UuidFormat] {types : List TypeDecl} {set : SchemaSet}
    (built : SchemaSet.build types = .ok set) {id : SchemaId} {schema : Schema}
    (found : set.get? id = some schema)
    (floatless : ∀ s, set.Reaches schema s → ∀ f ∈ s.fields, ∀ k ∈ f.kind.scalar?,
      k ≠ .f32 ∧ k ≠ .f64)
    (opt : DecodeOptions) {j : Json} {bytes : List UInt8} {tokens : List Token}
    (text : Json.IsText j bytes) (replays : List.Forall₂ Lexeme.Replays j.lexemes tokens) :
    ∃ c r, TextCursor.ofBytes bytes = .ok c ∧ Replay.ofTokens tokens none = .ok r ∧
      ((decodeRecord set id opt).run { cursor := c }).Matches (fun e e' => e.gist = e'.gist) Eq
        (fun s t => SameToken j.lexemes tokens s.cursor t.cursor ∧ s.stats = t.stats ∧
          s.extent = t.extent)
        ((decodeRecord set id opt).run { cursor := r }) := by
  have wf := SchemaSet.wellFormed_of_build built
  let scope := wf.reached (List.mem_of_getElem? found) floatless
  have lawful : (Correspondence.replay j.lexemes tokens).Lawful scope.scalars :=
    Correspondence.replay.lawful replays
  have root : ∀ s ∈ set.get? id, set.Reaches schema s := by
    intro s hs
    rw [found] at hs
    cases hs
    exact .root
  have ⟨c, r, hc, hr, start⟩ := SameToken.start text replays
  refine ⟨c, r, hc, hr, ?_⟩
  have steps := (lawful.sameMembers opt).decodeRecord lawful id root
  have m := steps (s := { cursor := c }) (t := { cursor := r }) ⟨start, rfl, rfl⟩
  generalize (decodeRecord set id opt).run { cursor := c } = o,
    (decodeRecord set id opt).run { cursor := r } = o' at m
  cases m
  case ok he hs    => exact .ok he ⟨hs.cursor, hs.stats, hs.extent⟩
  case error he hs => exact .error he ⟨hs.cursor, hs.stats, hs.extent⟩

theorem decodeRecord_replay_zero :
    let _ : UuidFormat := .hyphenated
    let types : List TypeDecl := [⟨"Sum", [{ name := "n", type := .scalar .bigInt }]⟩]
    let schema : Schema := ⟨⟨0⟩, "Sum", [⟨"n", 0, .scalar .bigInt, false, false⟩]⟩
    let j : Json := .object [("n", .number "-0")]
    let bytes := Json.plain "\x7b\"n\":-0\x7d".toList
    let tokens : List Token := [.objectStart, .fieldName (.fresh "n"), .int 0, .objectEnd]
    SchemaSet.build types = .ok ⟨[schema]⟩ ∧ Json.IsText j bytes ∧
      List.Forall₂ Lexeme.Replays j.lexemes tokens ∧
      ∃ c r, TextCursor.ofBytes bytes = .ok c ∧ Replay.ofTokens tokens none = .ok r ∧
        ((decodeRecord ⟨[schema]⟩ ⟨0⟩ .default).run { cursor := c }).Matches
          (fun e e' => e.gist = e'.gist) Eq
          (fun s t => SameToken j.lexemes tokens s.cursor t.cursor ∧ s.stats = t.stats ∧
            s.extent = t.extent)
          ((decodeRecord ⟨[schema]⟩ ⟨0⟩ .default).run { cursor := r }) := by
  intro _ types schema j bytes tokens
  have built : SchemaSet.build types = .ok ⟨[schema]⟩ := by rfl
  have found : SchemaSet.get? ⟨[schema]⟩ ⟨0⟩ = some schema := rfl
  have only : ∀ s, SchemaSet.Reaches ⟨[schema]⟩ schema s → s = schema := by
    intro s h
    induction h
    case root => rfl
    case target hf ht _ ih =>
      subst ih
      rw [List.mem_singleton.mp hf] at ht
      cases ht
  have floatless : ∀ s, SchemaSet.Reaches ⟨[schema]⟩ schema s → ∀ f ∈ s.fields,
      ∀ k ∈ f.kind.scalar?, k ≠ .f32 ∧ k ≠ .f64 := by
    intro s h f hf k hk
    rw [only s h, List.mem_singleton.mp hf] at *
    cases hk
    exact ⟨nofun, nofun⟩
  have raw : Json.CharText 'n' (Json.plain ['n']) := .raw ⟨by decide, by decide, by decide⟩
  have name : Json.StringText "n" (Json.plain "\"n\"".toList) :=
    .quoted (s := "n") (.cons raw .nil)
  have integer : Numeral.IsInteger "-0".toList := .negative .zero
  have number : Json.ValueText (.number "-0") (Json.plain "-0".toList) :=
    .number (.of integer .none .none)
  have none : Json.Blank [] := nofun
  have text : Json.IsText j bytes :=
    ⟨[], _, [], none, .object (.one (.of none name none none number) none), none, rfl⟩
  have replays : List.Forall₂ Lexeme.Replays j.lexemes tokens :=
    .cons .objectStart (.cons (.name "n") (.cons (.int integer rfl) (.cons .objectEnd .nil)))
  exact ⟨built, text, replays, decodeRecord_replay built found floatless .default text replays⟩

end RecordDecoding
