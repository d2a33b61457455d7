import RecordDecoding.Proofs.Json.Standing
import RecordDecoding.Proofs.Position

namespace RecordDecoding

open Forward

-- The cursor is on a token that is spelled where the cursor says, and its line and its column lead
-- there.
structure TextCursor.Marks (source : List UInt8) (c : TextCursor) : Prop where
  spelled : ∃ l text, c.Shows l ∧ l.Spells text ∧ text <+: source.drop c.position.offset
  leads   : Position.toLine (c.position.line - 1) source + (c.position.column - 1) =
    c.position.offset

namespace Watched

variable {source : List UInt8} {w : Watched TextCursor}

-- The tokens that a cursor came to, each behind the one before and in front of what is not read
-- yet.
structure Ordered (source : List UInt8) (w : Watched TextCursor) : Prop where
  rests   : w.Rests source
  on      : ∀ t ∈ w.trail, t.On source
  passed  : ∀ t ∈ w.trail, t.start < w.cursor.reader.offset
  ordered : w.trail.Pairwise fun t t' => t.start < t'.start

-- The cursor may have read on.
theorem Ordered.move {c : TextCursor} (h : w.Ordered source)
    (rests : Rests source { w with cursor := c }) (le : left c ≤ left w.cursor) :
    Ordered source { w with cursor := c } where
  rests   := rests
  on      := h.on
  passed  := by
    have ⟨hs, _, _, before⟩ := h.rests
    have ⟨hs', _, _, behind⟩ := rests
    have reader := hs ▸ before.reader
    have reader' : c.reader.Over source := (show c.source = source from hs') ▸ behind.reader
    exact fun t ht => Nat.lt_of_lt_of_le (h.passed t ht) (reader.offset_le reader' le)
  ordered := h.ordered

theorem Ordered.concat {c : TextCursor} (h : w.Ordered source)
    (rests : Rests source ⟨c, w.trail ++ [c]⟩) (on : c.On source)
    (le : w.cursor.reader.offset ≤ c.start) : Ordered source ⟨c, w.trail ++ [c]⟩ where
  rests   := rests
  on      := by simpa [or_imp, forall_and] using ⟨h.on, on⟩
  passed  := by
    have passed (t) (ht : t ∈ w.trail) : t.start < c.reader.offset :=
      (h.passed t ht).trans_le (le.trans on.stands.start.le)
    simpa [or_imp, forall_and] using ⟨passed, on.stands.start⟩
  ordered := by
    refine List.pairwise_append.mpr ⟨h.ordered, List.pairwise_singleton .., fun t ht c' hc' => ?_⟩
    rw [List.mem_singleton.mp hc']
    exact (h.passed t ht).trans_le le

theorem advance_ordered : (Cursor.advance (σ := Watched TextCursor)).Meets (Ordered source)
    (fun _ => Ordered source) fun _ => Ordered source := by
  intro w h
  obtain ⟨hs, t, _, before⟩ := h.rests
  have rests : (advance.run w).Satisfies _ _ := advance_rests h.rests
  show (advance.run w).Satisfies _ _
  simp only [advance] at rests ⊢
  generalize hr : Cursor.advance.run w.cursor = o at rests
  cases o
  case error e c =>
    cases rests
    case error rests => exact .error (h.move rests (left_le_of_run_error hr))
  case ok u c =>
    cases rests
    case ok rests =>
      obtain ⟨on, le⟩ := TextCursor.on_of_advance hs before hr
      exact .ok (h.concat rests on le)

-- The cursor is on the last of the tokens that it came to.
def AtLast (w : Watched TextCursor) : Prop :=
  ∃ t ∈ w.trail.getLast?, w.cursor.start = t.start

theorem advance_atLast : (Cursor.advance (σ := Watched TextCursor)).Meets AtLast
    (fun _ => AtLast) fun _ _ => True := by
  intro w _
  show (advance.run w).Satisfies _ _
  simp only [advance]
  cases Cursor.advance.run w.cursor
  case ok u c => exact .ok ⟨c, List.getLast?_concat .., rfl⟩
  case error  => exact .error trivial

end Watched

namespace Call

variable {source : List UInt8} {w : Watched TextCursor}

theorem onWatched_ordered (h : w.Ordered source) (call : Call) :
    (call.onWatched w).Ordered source := by
  have rests := onWatched_rests h.rests call
  cases call
  case advance   => exact Watched.advance_ordered.state h
  case skipValue => exact (Meets.skipValue_of_advance Watched.advance_ordered).state h
  case finish    => exact h.move rests (TextCursor.finish.run_le w.cursor)
  case cancel    => exact h.move rests le_rfl

theorem foldl_onWatched_ordered (h : w.Ordered source) (calls : List Call) :
    (calls.foldl onWatched w).Ordered source := by
  induction calls generalizing w
  case nil                => exact h
  case cons call calls ih => exact ih (onWatched_ordered h call)

def answer (c : TextCursor) : Call → Except CursorError Unit
  | advance   => (TextCursor.advance.run c).result
  | skipValue => (Cursor.skipValue.run c).result
  | finish    => (TextCursor.finish.run c).result
  | cancel _  => .ok ()

-- The calls are made one after the other, and none of them fails.
def AllSucceed : TextCursor → List Call → Prop
  | _, []            => True
  | c, call :: calls => call.answer c = .ok () ∧ AllSucceed (call.on c) calls

instance decidableAllSucceed :
    (c : TextCursor) → (calls : List Call) → Decidable (AllSucceed c calls)
  | _, []            => isTrue trivial
  | c, call :: calls =>
    have := decidableAllSucceed (call.on c) calls
    inferInstanceAs (Decidable (call.answer c = .ok () ∧ AllSucceed (call.on c) calls))

theorem onWatched_atLast {call : Call} (h : w.AtLast) (succeeds : call.answer w.cursor = .ok ()) :
    (call.onWatched w).AtLast := by
  cases call
  case advance =>
    obtain ⟨c, hr⟩ := Outcome.exists_of_result succeeds
    have sat : (Watched.advance.run w).Satisfies _ _ := Watched.advance_atLast h
    show (Watched.advance.run w).state.AtLast
    simp only [Watched.advance, show Cursor.advance.run w.cursor = _ from hr] at sat ⊢
    cases sat
    case ok last => exact last
  case skipValue =>
    obtain ⟨c, hr⟩ := Outcome.exists_of_result succeeds
    have same := Lockstep.skipValue (R := fun (w : Watched TextCursor) c => w.cursor = c)
      (congrArg Cursor.kind) Watched.advance_lockstep (s := w) rfl
    have sat := Meets.skipValue_of_advance Watched.advance_atLast h
    show (Cursor.skipValue.run w).state.AtLast
    rw [hr] at same
    generalize Cursor.skipValue.run w = o at same sat
    cases same
    case ok =>
      cases sat
      case ok last => exact last
  case finish =>
    obtain ⟨t, ht, start⟩ := h
    have fixed := TextCursor.finish_fixes (v := TextCursor.start) (fun _ _ => rfl) t.start
    exact ⟨t, ht, fixed.state start⟩
  case cancel => exact h

theorem foldl_onWatched_atLast {calls : List Call} (h : w.AtLast)
    (succeed : AllSucceed w.cursor calls) : (calls.foldl onWatched w).AtLast := by
  induction calls generalizing w
  case nil => exact h
  case cons call calls ih =>
    have ⟨first, rest⟩ := succeed
    exact ih (onWatched_atLast h first) (cursor_onWatched w call ▸ rest)

end Call

namespace TextCursor

variable {source : List UInt8} {c : TextCursor}

theorem ordered_of_ofBytes (h : ofBytes source = .ok c) : Watched.Ordered source ⟨c, [c]⟩ := by
  have on := on_of_ofBytes h
  have ⟨hs, rests⟩ := rests_of_ofBytes h
  exact {
    rests   := ⟨hs, c, by simp, rests⟩
    on      := by simpa using on
    passed  := by simpa using on.stands.start
    ordered := List.pairwise_singleton ..
  }

theorem On.inside (h : c.On source) : c.start < source.length :=
  h.stands.start.trans_le (h.source ▸ h.stands.reader.offset)

theorem On.position (h : c.On source) : c.position = .of source c.start := by
  rw [TextCursor.position, h.source]

theorem On.marks (h : c.On source) (small : source.length < Position.cap) : c.Marks source := by
  have ⟨l, text, shows, spells, spelled⟩ := h.shows
  rw [h.source] at spelled
  have leads := Position.toLine_of small h.inside
  rw [← h.position] at leads
  have offset : c.position.offset = c.start := by rw [h.position]; rfl
  exact ⟨⟨l, text, shows, spells, offset ▸ spelled⟩, offset ▸ leads⟩

-- Whatever the bytes are and whichever calls are made on a cursor, its tokens are in the order of
-- their positions, and each of them is found at its position. If no call fails, the cursor tells
-- the position of the last one.
theorem positions_of_calls (h : ofBytes source = .ok c) (small : source.length < Position.cap)
    (calls : List Call) :
    let w := calls.foldl Call.onWatched ⟨c, [c]⟩
    w.cursor = calls.foldl Call.on c ∧
      w.trail.Pairwise (fun t t' => t.position.Before t'.position) ∧
      (∀ t ∈ w.trail, t.Marks source) ∧
      (Call.AllSucceed c calls → ∃ t ∈ w.trail.getLast?, w.cursor.position = t.position) := by
  intro w
  have ordered : w.Ordered source := Call.foldl_onWatched_ordered (ordered_of_ofBytes h) calls
  refine ⟨Call.cursor_foldl_onWatched _ calls, ?before, fun t ht => (ordered.on t ht).marks small,
    fun succeed => ?last⟩
  case before =>
    refine ordered.ordered.imp_of_mem fun {t t'} ht ht' lt => ?_
    rw [(ordered.on t ht).position, (ordered.on t' ht').position]
    exact Position.before_of small lt (ordered.on t' ht').inside
  case last =>
    have first : Watched.AtLast ⟨c, [c]⟩ := ⟨c, rfl, rfl⟩
    have ⟨t, ht, start⟩ := Call.foldl_onWatched_atLast first succeed
    refine ⟨t, ht, ?_⟩
    rw [(ordered.on t (List.mem_of_getLast? ht)).position, TextCursor.position, start,
      ordered.rests.1]

-- The second item is in another line.
theorem positions_of_calls_lines :
    let source := Json.plain "[1,\n \"a\"]".toList
    let c : TextCursor := {
      source, reader := ⟨1, Json.plain "1,\n \"a\"]".toList⟩, kind := .arrayStart, start := 0,
      scratch := "", numberEnd := 0, stack := [.array], expect := .valueOrEnd,
      isCancelled := false }
    let calls := [Call.advance, .skipValue, .advance, .advance, .finish]
    let w := calls.foldl Call.onWatched ⟨c, [c]⟩
    ofBytes source = .ok c ∧ source.length < Position.cap ∧ Call.AllSucceed c calls ∧
      w.trail.map (·.position) = [⟨0, 1, 1⟩, ⟨1, 1, 2⟩, ⟨5, 2, 2⟩, ⟨8, 2, 5⟩] ∧
      w.trail.Pairwise (fun t t' => t.position.Before t'.position) ∧
      (∀ t ∈ w.trail, t.Marks source) ∧
      ∃ t ∈ w.trail.getLast?, w.cursor.position = t.position := by
  intro source c calls w
  have first : ofBytes source = .ok c := by rfl
  have small : source.length < Position.cap := by decide +kernel
  have succeed : Call.AllSucceed c calls := by decide +kernel
  have ⟨_, before, marks, last⟩ := positions_of_calls first small calls
  exact ⟨first, small, succeed, by decide +kernel, before, marks, last succeed⟩

end TextCursor
end RecordDecoding
