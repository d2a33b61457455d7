import RecordDecoding.Cursor.Replay
import RecordDecoding.External.Uuid
import RecordDecoding.Proofs.Cutting
import RecordDecoding.Proofs.Decode.Composed
import RecordDecoding.Proofs.Decode.Correspondence

namespace RecordDecoding

open Forward

-- A cursor that counts how often it was asked to move on, successfully or not.
structure Counted (σ : Type) where
  cursor : σ
  calls : Nat := 0

namespace Counted

variable {σ : Type} [Cursor σ]

instance : Readable (Counted σ) where
  left w := left w.cursor

def advance : Forward CursorError (Counted σ) Unit where
  run w := match Cursor.advance.run w.cursor with
    | .ok _ c    => .ok () ⟨c, w.calls + 1⟩
    | .error e c => .error e ⟨c, w.calls + 1⟩
  run_le w := by
    have h := Cursor.advance.run_le w.cursor
    split <;> simp_all [left]

theorem advance_reads : (advance (σ := σ)).Reads := by
  intro w _ w' h
  simp only [advance] at h
  split at h
  case h_1 hr =>
    cases h
    exact Cursor.advance_reads hr
  case h_2 => cases h

-- Seen through its accessors, a cursor that counts is the same.
instance : Cursor (Counted σ) where
  kind w := Cursor.kind w.cursor
  advance := advance
  advance_reads := advance_reads
  fieldName w := Cursor.fieldName w.cursor
  text w := Cursor.text w.cursor
  int w := Cursor.int w.cursor
  numberText w := Cursor.numberText w.cursor
  float w := Cursor.float w.cursor
  binary w := Cursor.binary w.cursor
  position w := Cursor.position w.cursor

end Counted

-- Counting the calls does not show in what is decoded.
def Correspondence.counted (σ : Type) [Cursor σ] : Correspondence (Counted σ) σ where
  cursor w c := w.cursor = c
  stats := Eq
  name := Eq
  error := Eq

namespace Cutting

variable {ε σ α : Type}

theorem Cuts.composed [Readable σ] {C : Cutting ε σ} {Atom : {α : Type} → Forward ε σ α → Prop}
    {x : Forward ε σ α} (hx : Forward.Composed Atom x)
    (atom : ∀ {α : Type} {x : Forward ε σ α}, Atom x → C.Cuts x) : C.Cuts x := by
  induction hx
  case atom h             => exact atom h
  case pure a             => exact .pure a
  case bind ihx ihf       => exact .bind ihx ihf
  case loop b _ _ ihn ihs => exact .loop ihn ihs b

variable [Cursor σ] {C : Cutting CursorError σ}

-- A cut of cursors, taken as one of sessions.
def session (C : Cutting CursorError σ) : Cutting DecodeError (Session σ) where
  cut s := { s with cursor := C.cut s.cursor }
  Live s := C.Live s.cursor
  Past s := C.Past s.cursor
  Stopped e s := ∃ e', e = .cursor e' ∧ C.Stopped e' s.cursor

theorem Cuts.onCursor {x : Forward CursorError σ α} (hx : C.Cuts x) :
    C.session.Cuts (Decoding.onCursor x) where
  past := by
    intro s hs
    have sat := hx.past hs
    simp only [Decoding.onCursor]
    generalize x.run s.cursor = o at sat
    cases sat
    case ok h    => exact .ok h
    case error h => exact .error h
  ends := by
    intro s hs
    have ends := hx.ends hs
    simp only [Decoding.onCursor, session]
    generalize x.run s.cursor = o, x.run (C.cut s.cursor) = o' at ends
    cases ends
    case ok h    => exact .ok h
    case error h => exact .error h
    case stopped stops h =>
      refine .stopped ?_ ⟨_, rfl, stops⟩
      cases o <;> exact h

-- Decoding looks at a cursor through its accessors, so a cut they do not see cuts decoding.
theorem Cuts.decodeRecord [UuidFormat] (live : ∀ {c}, C.Live c → ¬C.Past c)
    (kind : ∀ c, Cursor.kind (C.cut c) = Cursor.kind c)
    (position : ∀ c, Cursor.position (C.cut c) = Cursor.position c)
    (fieldName : ∀ c, Cursor.fieldName (C.cut c) = Cursor.fieldName c)
    (read : ∀ c (k : ScalarKind), k.read (C.cut c) = k.read c)
    (advance : C.Cuts Cursor.advance) (set : SchemaSet) (id : SchemaId) (opt : DecodeOptions) :
    C.session.Cuts (decodeRecord set id opt) := by
  have position : C.session.Cuts Decoding.position := .view fun s => position s.cursor
  refine .composed (Decoding.Composed.decodeRecord set id opt) fun atom => ?_
  cases atom
  case kind     => exact .view fun s => kind s.cursor
  case position => exact position
  case heading  => exact .check live fun s => by simp only [session, kind, fieldName]
  case fail     => exact .fail _ live
  case scalar schema field k =>
    have failAt {e : Option Position → DecodeError} : C.session.Cuts (α := Value)
        (Decoding.position >>= fun pos => Forward.fail (e pos)) :=
      .bind position fun _ => .fail _ live
    rw [Level.scalar_eq]
    refine .bind (.view fun s => read s.cursor k) fun r => ?_
    cases r
    case ok v        => exact .pure v
    case error fault => cases fault <;> first | exact failAt | exact .fail _ live
  case note f hf h =>
    have keeps := Decoding.cursor_of_note h
    refine .change (fun s => ?_) (fun s hs => ?_) fun s hs => ?_
    · show f { s with cursor := _ } = { f s with cursor := C.cut (f s).cursor }
      rw [h, keeps]
    · simpa only [session, keeps] using hs
    · simpa only [session, keeps] using hs
  case onCursor x hx =>
    refine .onCursor (.composed hx fun atom => ?_)
    cases atom
    case kind    => exact .view kind
    case advance => exact advance

end Cutting

namespace Counted

variable {σ : Type} [Cursor σ]

theorem lawful [UuidFormat] (σ : Type) [Cursor σ] :
    (Correspondence.counted σ).Lawful fun _ => True := by
  refine Correspondence.lawful_through (f := Counted.cursor) (fun _ => rfl) (fun _ => rfl)
    (fun _ => rfl) (fun _ k => by cases k <;> rfl) ?_
  rintro w _ rfl
  show Outcome.Matches _ _ _ (Counted.advance.run w) _
  simp only [Counted.advance]
  cases Cursor.advance.run w.cursor
  case ok    => exact .ok rfl rfl
  case error => exact .error rfl rfl

-- Each call counts.
theorem calls_advance (w : Counted σ) : (Cursor.advance.run w).state.calls = w.calls + 1 := by
  show (advance.run w).state.calls = _
  simp only [advance]
  cases Cursor.advance.run w.cursor <;> rfl

-- A replay next to the same one with a point after which it is cancelled. They part when one step
-- more is asked for than that one allows.
def cutting (limit : Nat) : Cutting CursorError (Counted Replay) where
  cut w := { w with cursor := { w.cursor with cancelAfter := some limit } }
  Live w := w.cursor.cancelAfter = none ∧ w.calls = w.cursor.advances ∧
    w.cursor.advances = w.cursor.index ∧ w.calls ≤ limit
  Past w := limit < w.calls
  Stopped e w := e = .cancelled ∧ w.cursor.index = limit

variable {limit : Nat}

theorem not_past_of_live {w : Counted Replay} (h : (cutting limit).Live w) :
    ¬(cutting limit).Past w :=
  Nat.not_lt.mpr h.2.2.2

theorem run_cut_past {w : Counted Replay} (h : limit ≤ w.cursor.advances) :
    Cursor.advance.run ((cutting limit).cut w) =
      .error .cancelled { (cutting limit).cut w with calls := w.calls + 1 } := by
  simp [Cursor.advance, advance, Replay.advance, Replay.isCancelled, cutting, h]

theorem run_cut {w : Counted Replay} (live : (cutting limit).Live w)
    (h : w.cursor.advances < limit) :
    Cursor.advance.run ((cutting limit).cut w) = match Cursor.advance.run w with
      | .ok u w'    => .ok u ((cutting limit).cut w')
      | .error e w' => .error e ((cutting limit).cut w') := by
  have free : w.cursor.cancelAfter = none := live.1
  simp only [Cursor.advance, advance, Replay.advance, Replay.isCancelled, cutting, free,
    Option.any_some, Option.any_none, Nat.not_le.mpr h, decide_false, Bool.false_eq_true, if_false]
  cases ha : w.cursor.ahead <;> simp only [ha, Replay.onto]

theorem live_of_advance_ok {w w' : Counted Replay} {u : Unit} (live : (cutting limit).Live w)
    (h : w.cursor.advances < limit) (hr : Cursor.advance.run w = .ok u w') :
    (cutting limit).Live w' := by
  obtain ⟨⟨current, ahead, index, advances, cancelAfter⟩, calls⟩ := w
  obtain ⟨rfl, rfl, rfl, _⟩ : cancelAfter = none ∧ calls = advances ∧ advances = index ∧ _ := live
  cases ahead <;> cases hr
  exact ⟨rfl, rfl, rfl, h⟩

theorem cutting_advance : (cutting limit).Cuts Cursor.advance where
  past w hw := by
    have calls := calls_advance w
    generalize Cursor.advance.run w = o at calls
    have past : limit < o.state.calls := calls ▸ Nat.lt_succ_of_lt hw
    cases o
    case ok    => exact .ok past
    case error => exact .error past
  ends {w} live := by
    obtain ⟨_, here, same, le⟩ := id live
    have calls := calls_advance w
    by_cases h : limit ≤ w.cursor.advances
    case pos =>
      rw [run_cut_past h]
      have last : w.cursor.index = limit := by omega
      refine .stopped ?_ ⟨rfl, last⟩
      show limit < _
      omega
    case neg =>
      have lt : w.cursor.advances < limit := Nat.lt_of_not_le h
      rw [run_cut live lt]
      generalize hr : Cursor.advance.run w = o at calls
      cases o
      case ok      => exact .ok (live_of_advance_ok live lt hr)
      case error w' =>
        have calls : w'.calls = w.calls + 1 := calls
        have le : w'.calls ≤ limit := by omega
        exact .error (Nat.not_lt.mpr le)

-- How a run ends that is cut, and one that is not.
theorem part_of_ends {α : Type} {o o' : Outcome DecodeError (Session (Counted Replay)) α}
    (h : (cutting limit).session.Ends o o') :
    (o.state.cursor.calls ≤ limit → o'.result = o.result ∧ o'.state.stats = o.state.stats ∧
      o'.state.cursor.cursor.index = o.state.cursor.cursor.index) ∧
    (limit < o.state.cursor.calls → o'.result = .error (.cursor .cancelled) ∧
      o'.state.cursor.cursor.index = limit) := by
  cases h
  case ok live =>
    exact ⟨fun _ => ⟨rfl, rfl, rfl⟩, fun past => absurd past (not_past_of_live live)⟩
  case error live => exact ⟨fun _ => ⟨rfl, rfl, rfl⟩, fun past => absurd past live⟩
  case stopped stops past =>
    obtain ⟨_, rfl, rfl, here⟩ := stops
    exact ⟨fun le => absurd past (Nat.not_lt.mpr le), fun _ => ⟨rfl, here⟩⟩

theorem decodeRecord_cuts [UuidFormat] (limit : Nat) (set : SchemaSet) (id : SchemaId)
    (opt : DecodeOptions) : (cutting limit).session.Cuts (decodeRecord set id opt) :=
  .decodeRecord not_past_of_live (fun _ => rfl) (fun _ => rfl) (fun _ => rfl)
    (fun _ k => by cases k <;> rfl) cutting_advance set id opt

end Counted

theorem SchemaSet.WellFormed.counted_steps [UuidFormat] {σ : Type} [Cursor σ] {set : SchemaSet}
    (wf : set.WellFormed) (id : SchemaId) (opt : DecodeOptions) :
    (Correspondence.counted σ).Steps Eq (decodeRecord set id opt) (decodeRecord set id opt) :=
  (Counted.lawful σ).decodeRecord wf id opt

-- How often decoding asks a replay to move on, successfully or not.
def advanceCalls [UuidFormat] (set : SchemaSet) (id : SchemaId) (opt : DecodeOptions) (r : Replay) :
    Nat :=
  ((decodeRecord set id opt).run
    { cursor := ({ cursor := r } : Counted Replay) }).state.cursor.calls

-- A replay that is cancelled after as many steps as decoding asks for, or more, is decoded as if it
-- were not. After fewer, decoding fails at that step, and for no other reason.
theorem decodeRecord_cancelled [UuidFormat] {types : List TypeDecl} {set : SchemaSet}
    (built : SchemaSet.build types = .ok set) (id : SchemaId) (opt : DecodeOptions)
    {tokens : List Token} {whole : Replay} (replayed : Replay.ofTokens tokens none = .ok whole)
    (limit : Nat) :
    ∃ part, Replay.ofTokens tokens (some limit) = .ok part ∧
      let o := (decodeRecord set id opt).run { cursor := whole }
      let o' := (decodeRecord set id opt).run { cursor := part }
      (advanceCalls set id opt whole ≤ limit →
        o'.result = o.result ∧ o'.state.stats = o.state.stats ∧
          o'.state.cursor.index = o.state.cursor.index) ∧
      (limit < advanceCalls set id opt whole →
        o'.result = .error (.cursor .cancelled) ∧ o'.state.cursor.index = limit) := by
  have steps := (SchemaSet.wellFormed_of_build built).counted_steps (σ := Replay) id opt
  cases tokens
  case nil => cases replayed
  case cons token ahead =>
    cases replayed
    let counted (cancelAfter : Option Nat) : Counted Replay :=
      { cursor := ⟨token, ahead, 0, 0, cancelAfter⟩ }
    refine ⟨(counted (some limit)).cursor, rfl, ?_⟩
    intro o o'
    have runs (cancelAfter : Option Nat) := steps (s := { cursor := counted cancelAfter })
      (t := { cursor := (counted cancelAfter).cursor }) ⟨rfl, rfl, rfl⟩
    have whole := runs none
    have part := runs (some limit)
    have here : o.state.cursor = _ := whole.state.cursor.symm
    have here' : o'.state.cursor = _ := part.state.cursor.symm
    rw [← whole.result_eq, ← part.result_eq, here, here', ← whole.state.stats, ← part.state.stats]
    exact Counted.part_of_ends
      ((Counted.decodeRecord_cuts limit set id opt).ends ⟨rfl, rfl, rfl, Nat.zero_le _⟩)

theorem decodeRecord_cancelled_flag :
    let _ : UuidFormat := .hyphenated
    let types : List TypeDecl := [⟨"Flag", [{ name := "on", type := .scalar .bool }]⟩]
    let set : SchemaSet := ⟨[⟨⟨0⟩, "Flag", [⟨"on", 0, .scalar .bool, false, false⟩]⟩]⟩
    let ahead : List Token := [.fieldName (.fresh "on"), .bool true, .objectEnd]
    let whole : Replay := ⟨.objectStart, ahead, 0, 0, none⟩
    let part (limit : Nat) : Replay := ⟨.objectStart, ahead, 0, 0, some limit⟩
    let decoding := decodeRecord (σ := Replay) set ⟨0⟩ .default
    SchemaSet.build types = .ok set ∧
    Replay.ofTokens (.objectStart :: ahead) none = .ok whole ∧
    advanceCalls set ⟨0⟩ .default whole = 3 ∧
    (decoding.run { cursor := part 3 }).result = (decoding.run { cursor := whole }).result ∧
    (decoding.run { cursor := part 2 }).result = .error (.cursor .cancelled) := by
  intro _ types set ahead whole part decoding
  have built : SchemaSet.build types = .ok set := by rfl
  have replayed : Replay.ofTokens (.objectStart :: ahead) none = .ok whole := rfl
  have calls : advanceCalls set ⟨0⟩ .default whole = 3 := by cbv
  have enough := decodeRecord_cancelled built ⟨0⟩ .default replayed 3
  have few := decodeRecord_cancelled built ⟨0⟩ .default replayed 2
  obtain ⟨_, ⟨⟩, same, _⟩ := enough
  obtain ⟨_, ⟨⟩, _, stopped⟩ := few
  exact ⟨built, replayed, calls, (same (calls ▸ Nat.le_refl 3)).1,
    (stopped (calls ▸ Nat.lt_succ_self 2)).1⟩

end RecordDecoding
