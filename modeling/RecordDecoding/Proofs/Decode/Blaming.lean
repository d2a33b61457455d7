import RecordDecoding.External.Uuid
import RecordDecoding.Proofs.Decode.Composed
import RecordDecoding.Proofs.Decode.Faults
import RecordDecoding.Proofs.Decode.Leading
import RecordDecoding.Proofs.Json.Standing

namespace RecordDecoding

open Decoding Forward

-- What each of some steps keeps, and what each of them fails with, goes for what is put together
-- from them.
theorem Forward.Composed.meets {ε σ α : Type} [Readable σ]
    {Atom : {α : Type} → Forward ε σ α → Prop} {x : Forward ε σ α} {P : σ → Prop}
    {E : ε → σ → Prop} (hx : Forward.Composed Atom x)
    (atom : ∀ {α : Type} {x : Forward ε σ α}, Atom x → x.Meets P (fun _ => P) E) :
    x.Meets P (fun _ => P) E := by
  induction hx
  case atom h       => exact atom h
  case pure         => exact .pure id
  case bind ihx ihf => exact .bind ihx ihf
  case loop b _ _ ihn ihs =>
    refine Meets.loop (J := fun _ => P) (M := fun _ => P) (fun b => ?_) (fun _ => ihn) b
    refine (ihs b).imp id (fun {next _} h => ?_) id
    cases next <;> exact h

namespace Cursor

variable {σ : Type} [Cursor σ]

-- The cursor moves on some number of times.
abbrev Reaches : σ → σ → Prop :=
  Relation.ReflTransGen fun c c' => Cursor.advance.run c = .ok () c'

-- From one state on the cursor moved on some number of times, and then failed to. The error left
-- it in the other state.
def Stuck (c₀ : σ) (e : CursorError) (c : σ) : Prop :=
  ∃ c₁, Reaches c₀ c₁ ∧ Cursor.advance.run c₁ = .error e c

variable {c₀ : σ}

theorem advance_reaches :
    (Cursor.advance (σ := σ)).Meets (Reaches c₀) (fun _ => Reaches c₀) (Stuck c₀) := by
  intro c hc
  cases hr : Cursor.advance.run c
  case ok    => exact .ok (hc.tail hr)
  case error => exact .error ⟨c, hc, hr⟩

end Cursor

open Cursor (Reaches Stuck)

section

variable {σ : Type} [Cursor σ] {P : σ → Prop} {E : CursorError → σ → Prop}

-- If the error is one of the cursor, then this is what there is to say of it.
def DecodeError.CursorAs (E : CursorError → σ → Prop) (e : DecodeError) (c : σ) : Prop :=
  ∀ e', e = .cursor e' → E e' c

variable [UuidFormat]

-- Where names are given, decoding keeps what moving on keeps, and an error of the cursor is one of
-- moving on or of a scalar.
theorem decodeRecord_leads (advance : Cursor.advance.Meets P (fun _ => P) E)
    (name : ∀ {c e}, P c → Cursor.kind c = .fieldName → Cursor.fieldName c ≠ .error e)
    (scalar : ∀ {c e} {k : ScalarKind}, P c → k.read c = .error (.source e) → E e c)
    (set : SchemaSet) (id : SchemaId) (opt : DecodeOptions) :
    Leads (DecodeError.CursorAs E) (decodeRecord set id opt) P fun _ => P := by
  refine (Composed.decodeRecord set id opt).meets fun atom => ?_
  cases atom
  case kind     => exact fun s hs => .ok hs
  case position => exact fun s hs => .ok hs
  case fail he  => exact Leads.fail fun _ e' h => absurd h (he e')
  case heading =>
    intro s hs
    by_cases hk : Cursor.kind s.cursor = .fieldName
    case neg =>
      simp only [heading, check, dif_neg hk]
      exact .ok hs
    case pos =>
      cases hn : Cursor.fieldName s.cursor
      case error => exact absurd hn (name hs hk)
      case ok =>
        simp only [heading, check, dif_pos hk, hn]
        exact .ok hs
  case scalar schema field k =>
    intro s hs
    simp only [Level.scalar, Level.mismatch, run_bind, run_look]
    cases hr : k.read s.cursor
    case ok => exact .ok hs
    case error fault =>
      cases fault
      case source e =>
        refine .error ?_
        rintro _ ⟨⟩
        exact scalar hs hr
      all_goals exact .error fun _ h => by cases h
  case note f hf h =>
    refine Meets.change fun {s} hs => ?_
    rwa [cursor_of_note h]
  case onCursor x hx =>
    have meets : x.Meets P (fun _ => P) E := hx.meets fun atom => by
      cases atom
      case kind    => exact fun c hc => .ok hc
      case advance => exact advance
    refine Leads.onCursor (meets.imp (fun h => h) (fun h => h) fun h => ?_)
    rintro _ ⟨⟩
    exact h

-- However decoding starts out from this state of the cursor, so much is to be said of an error of
-- the cursor that it ends with.
def Cursor.EndsAs (E : CursorError → σ → Prop) (c₀ : σ) : Prop :=
  ∀ (set : SchemaSet) (id : SchemaId) (opt : DecodeOptions) (s s' : Session σ) (e : CursorError),
    s.cursor = c₀ → (decodeRecord set id opt).run s = .error (.cursor e) s' → E e s'.cursor

theorem Cursor.endsAs {c₀ : σ} (start : P c₀) (advance : Cursor.advance.Meets P (fun _ => P) E)
    (name : ∀ {c e}, P c → Cursor.kind c = .fieldName → Cursor.fieldName c ≠ .error e)
    (scalar : ∀ {c e} {k : ScalarKind}, P c → k.read c = .error (.source e) → E e c) :
    Cursor.EndsAs E c₀ := by
  rintro set id opt s s' e rfl run
  have leads := decodeRecord_leads advance name scalar set id opt start
  rw [run] at leads
  cases leads
  case error as => exact as e rfl

end

namespace TextCursor

variable {source : List UInt8} {first c c' : TextCursor}

theorem trail_of_reaches (h : Reaches c c') : Trail [] c c' :=
  Relation.ReflTransGen.mono (fun _ _ hr => ⟨List.nil_suffix, hr⟩) _ _ h

variable [UuidFormat]

theorem read_ne_source_of_reaches (start : ofBytes source = .ok first) (reaches : Reaches first c)
    (k : ScalarKind) (e : CursorError) : k.read c ≠ .error (.source e) :=
  read_ne_source k e (exists_numberText start (trail_of_reaches reaches))

theorem endsAs_stuck (start : ofBytes source = .ok first) (reaches : Reaches first c) :
    Cursor.EndsAs (Stuck c) c :=
  Cursor.endsAs (P := Reaches c) .refl Cursor.advance_reaches
    (fun _ hk he => nomatch (fieldName_eq hk).symm.trans he)
    fun hc hr => absurd hr (read_ne_source_of_reaches start (reaches.trans hc) _ _)

end TextCursor

namespace Replay

variable {r c : Replay}

theorem fieldName_ne_error {e : CursorError} (hk : Cursor.kind c = .fieldName) :
    Cursor.fieldName c ≠ .error e := by
  obtain ⟨current, ahead, index, advances, cancelAfter⟩ := c
  cases current
  case fieldName => nofun
  case bool b    => cases b <;> cases hk
  all_goals cases hk

-- A replay that cannot move on was cancelled or is at its end.
theorem advance_error {e : CursorError} (h : Cursor.advance.run r = .error e c) :
    e = .cancelled ∨ e = .exhausted := by
  simp only [Cursor.advance, advance] at h
  split at h
  case isTrue  => exact .inl (by cases h; rfl)
  case isFalse =>
    split at h
    case h_1 => exact .inr (by cases h; rfl)
    case h_2 => cases h

-- The replay ran into an integer that is asked for as a float, and whose text is no number.
def Chokes (r : Replay) (e : CursorError) (c : Replay) : Prop :=
  Reaches r c ∧ e = .invalidNumber c.index ∧ ∃ k literal, c.Unreadable k literal

theorem endsAs_stuck_or_chokes [UuidFormat] (r : Replay) :
    Cursor.EndsAs (fun e c => Stuck r e c ∨ r.Chokes e c) r := by
  have advance : Cursor.advance.Meets (Reaches r) (fun _ => Reaches r)
      fun e c => Stuck r e c ∨ r.Chokes e c :=
    Meets.imp Cursor.advance_reaches (fun h => h) (fun h => h) .inl
  refine Cursor.endsAs .refl advance (fun _ => fieldName_ne_error) fun {c e k} hc hr => ?_
  by_cases h : ∃ literal, c.Unreadable k literal
  case neg => exact absurd hr (read_ne_source k e (not_exists.mp h))
  case pos =>
    have ⟨literal, unreadable⟩ := h
    cases hr.symm.trans unreadable.read_eq
    exact .inr ⟨hc, rfl, k, literal, unreadable⟩

end Replay

-- A token is of the wrong kind exactly if its kind is not accepted, and else it is read or of no
-- use; and decoding ends with an error of the cursor only if the cursor could not move on. This is
-- so of every token of a text, and of every token of a replay but one.
theorem decodeRecord_blames [UuidFormat] (source : List UInt8) (first c : TextCursor) (r : Replay) :
    (TextCursor.ofBytes source = .ok first → Reaches first c →
      (∀ k : ScalarKind, k.Sorts c) ∧ Cursor.EndsAs (Stuck c) c) ∧
    (∀ k, (∀ literal, ¬r.Unreadable k literal) → k.Sorts r) ∧
    (∀ k literal, r.Unreadable k literal →
      k.read r = .error (.source (.invalidNumber r.index))) ∧
    Cursor.EndsAs (fun e c => Stuck r e c ∨ r.Chokes e c) r := by
  refine ⟨fun start reaches => ⟨fun k => ?_, ?_⟩, fun k readable => ?_, fun k literal h => ?_, ?_⟩
  · exact ScalarKind.sorts_of_ne_source fun e =>
      TextCursor.read_ne_source_of_reaches start reaches k e
  · exact TextCursor.endsAs_stuck start reaches
  · exact ScalarKind.sorts_of_ne_source fun e => Replay.read_ne_source k e readable
  · exact h.read_eq
  · exact r.endsAs_stuck_or_chokes

-- A text that ends behind an opening brace cannot be read on. An integer of a replay is read as a
-- float if its text is a number.
theorem decodeRecord_blames_end :
    let _ : UuidFormat := .hyphenated
    let types : List TypeDecl := [⟨"Flag", [{ name := "on", type := .scalar .bool }]⟩]
    let set : SchemaSet := ⟨[⟨⟨0⟩, "Flag", [⟨"on", 0, .scalar .bool, false, false⟩]⟩]⟩
    let source := Json.plain "\x7b".toList
    let r : Replay := ⟨.bigInt "12", [], 0, 0, none⟩
    SchemaSet.build types = .ok set ∧
      (∃ first s', TextCursor.ofBytes source = .ok first ∧
        (decodeRecord set ⟨0⟩ .default).run { cursor := first } =
          .error (.cursor (.unexpectedEof 1)) s' ∧ Stuck first (.unexpectedEof 1) s'.cursor) ∧
      (∀ literal, ¬r.Unreadable .f64 literal) ∧ ScalarKind.f64.Sorts r := by
  intro _ types set source r
  let first : TextCursor := {
    source, reader := ⟨1, []⟩, kind := .objectStart, start := 0, scratch := "", numberEnd := 0,
    stack := [.object], expect := .keyOrEnd, isCancelled := false }
  have start : TextCursor.ofBytes source = .ok first := by rfl
  have run : (decodeRecord set ⟨0⟩ .default).run { cursor := first } =
      .error (.cursor (.unexpectedEof 1))
        { cursor := first, stats := { objects := 1 }, extent := { depth := 1 } } := by rfl
  have readable : ∀ literal, ¬r.Unreadable .f64 literal := by
    rintro literal ⟨_, current, none⟩
    cases current
    exact absurd none (by decide +kernel)
  have ⟨text, sorts, _⟩ := decodeRecord_blames source first first r
  have ⟨_, ends⟩ := text start .refl
  refine ⟨by rfl, ⟨first, _, start, run, ends set ⟨0⟩ .default _ _ _ rfl run⟩, readable, ?_⟩
  exact sorts .f64 readable

-- Asked for a float, a replay on an integer whose text is no number blames the cursor, which could
-- well move on. Asked for an integer, it blames the value.
theorem decodeRecord_chokes :
    let _ : UuidFormat := .hyphenated
    let types : List TypeDecl := [⟨"Scale", [{ name := "x", type := .scalar .f64 }]⟩]
    let set : SchemaSet := ⟨[⟨⟨0⟩, "Scale", [⟨"x", 0, .scalar .f64, false, false⟩]⟩]⟩
    let ahead : List Token := [.fieldName (.fresh "x"), .bigInt "abc", .objectEnd]
    let start : Replay := ⟨.objectStart, ahead, 0, 0, none⟩
    let c : Replay := ⟨.bigInt "abc", [.objectEnd], 2, 2, none⟩
    SchemaSet.build types = .ok set ∧ Cursor.kind c ∈ ScalarKind.f64.accepts ∧
      ScalarKind.f64.read c = .error (.source (.invalidNumber 2)) ∧
      (ScalarKind.int .w64).read c = .error (.invalid (CursorError.numberOutOfRange 2).message) ∧
      (∃ s', (decodeRecord set ⟨0⟩ .default).run { cursor := start } =
        .error (.cursor (.invalidNumber 2)) s' ∧ s'.cursor = c) ∧
      ¬Stuck start (.invalidNumber 2) c := by
  intro _ types set ahead start c
  have unreadable : c.Unreadable .f64 "abc" := ⟨.inr rfl, rfl, by decide +kernel⟩
  refine ⟨by rfl, by decide, unreadable.read_eq, ?int, ⟨?s', ?run, ?cursor⟩, ?_⟩
  case int =>
    have int : Cursor.int c = .error (.numberOutOfRange 2) := by decide +kernel
    rw [ScalarKind.read, if_pos (by decide), ScalarKind.readAccepted,
      ScalarKind.access_of_fault int rfl]
    rfl
  case s' => exact { cursor := c, stats := { objects := 1 }, extent := { depth := 1 } }
  case run => with_unfolding_all rfl
  case cursor => rfl
  rintro ⟨c₁, _, stuck⟩
  simpa using Replay.advance_error stuck

end RecordDecoding
