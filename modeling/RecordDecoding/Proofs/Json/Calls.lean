import RecordDecoding.Proofs.Json.Brackets
import RecordDecoding.Proofs.Skipping

namespace RecordDecoding

open Forward Json

namespace TextCursor

variable {seen : List TokenKind} {c : TextCursor}

-- A cursor that was on tokens of these kinds so far, the last of which is the current one.
structure Bracketed (seen : List TokenKind) (c : TextCursor) : Prop where
  last : seen.getLast? = some c.kind
  -- The tokens are the start of those of some value.
  text : ∃ j source, IsText j source ∧ seen <+: j.lexemes.map Lexeme.kind
  depth : seen.countP (·.opensContainer) = c.depth + seen.countP (·.closesContainer)
  complete : c.isComplete ↔ ∃ j source, IsText j source ∧ j.lexemes.map Lexeme.kind = seen
  -- There is no way on after the root.
  stops : c.isComplete → ∀ c', advance.run c ≠ .ok () c'
  inside : c.expect = .afterValue → c.stack ≠ []

theorem bracketed_of_settled (h : c.place.Settled seen) : Bracketed seen c where
  last := h.last
  text := h.text_more
  depth := h.depth
  complete := by
    rw [← h.done_iff, isComplete, decide_eq_true_eq]
    rfl
  stops hc c' hr := by
    have goes := advance_goes h.within.suits (s := c) rfl
    rw [hr] at goes
    cases goes
    case ok moves => exact moves.ne_done (of_decide_eq_true hc)
  inside he := by
    have within := h.within
    rw [show c.place.expect = _ from he] at within
    exact within

end TextCursor

-- A cursor, and how it was on each token when it came to it.
structure Watched (σ : Type) where
  cursor : σ
  trail : List σ

namespace Watched

variable {σ : Type} [Cursor σ]

instance : Readable (Watched σ) where
  left w := left w.cursor

def advance : Forward CursorError (Watched σ) Unit where
  run w := match Cursor.advance.run w.cursor with
    | .ok _ c    => .ok () ⟨c, w.trail ++ [c]⟩
    | .error e c => .error e { w with cursor := c }
  run_le w := by
    have h := Cursor.advance.run_le w.cursor
    split <;> simp_all [left]

theorem advance_reads : (advance (σ := σ)).Reads := by
  intro w _ w' h
  simp only [advance] at h
  split at h
  case h_1 hr =>
    cases h
    exact Cursor.advance_reads hr
  case h_2 => cases h

-- Seen through its accessors, a cursor that is watched is the same.
instance : Cursor (Watched σ) where
  kind w := Cursor.kind w.cursor
  advance := advance
  advance_reads := advance_reads
  fieldName w := Cursor.fieldName w.cursor
  text w := Cursor.text w.cursor
  int w := Cursor.int w.cursor
  numberText w := Cursor.numberText w.cursor
  float w := Cursor.float w.cursor
  binary w := Cursor.binary w.cursor
  position w := Cursor.position w.cursor

theorem advance_lockstep : Lockstep (fun (w : Watched σ) c => w.cursor = c) Eq Eq
    (Cursor.advance (σ := Watched σ)) Cursor.advance := by
  rintro w _ rfl
  show Outcome.Matches _ _ _ (advance.run w) _
  simp only [advance]
  cases Cursor.advance.run w.cursor
  case ok    => exact .ok rfl rfl
  case error => exact .error rfl rfl

end Watched

-- What the owner of a cursor may do with it.
inductive Call where
  | advance
  | skipValue
  | finish
  -- Cancels the cursor, or lets it go on.
  | cancel (isCancelled : Bool)
  deriving DecidableEq, Repr

namespace Call

-- The cursor after a call, whether that failed or not.
def on (c : TextCursor) : Call → TextCursor
  | advance            => (TextCursor.advance.run c).state
  | skipValue          => (Cursor.skipValue.run c).state
  | finish             => (TextCursor.finish.run c).state
  | cancel isCancelled => { c with isCancelled }

def onWatched (w : Watched TextCursor) : Call → Watched TextCursor
  | advance            => (Cursor.advance.run w).state
  | skipValue          => (Cursor.skipValue.run w).state
  | finish             => { w with cursor := (TextCursor.finish.run w.cursor).state }
  | cancel isCancelled => { w with cursor := { w.cursor with isCancelled } }

-- To watch a cursor changes nothing of what happens to it.
theorem cursor_onWatched (w : Watched TextCursor) (call : Call) :
    (call.onWatched w).cursor = call.on w.cursor := by
  cases call
  case advance   => exact (Watched.advance_lockstep (σ := TextCursor) rfl).state
  case skipValue =>
    have skip := Lockstep.skipValue (R := fun (w : Watched TextCursor) c => w.cursor = c)
      (congrArg Cursor.kind) Watched.advance_lockstep
    exact (skip rfl).state
  case finish    => rfl
  case cancel    => rfl

theorem cursor_foldl_onWatched (w : Watched TextCursor) (calls : List Call) :
    (calls.foldl onWatched w).cursor = calls.foldl on w.cursor := by
  induction calls generalizing w
  case nil => rfl
  case cons call calls ih => rw [List.foldl_cons, ih, cursor_onWatched, List.foldl_cons]

end Call

namespace Watched

-- At each token of a trail, the cursor was settled on the tokens up to there.
def EverSettled (trail : List TextCursor) : Prop :=
  ∀ (earlier : List TextCursor) (c : TextCursor), earlier ++ [c] <+: trail →
    c.place.Settled ((earlier ++ [c]).map (·.kind))

theorem EverSettled.concat {trail : List TextCursor} {c : TextCursor} (h : EverSettled trail)
    (hc : c.place.Settled ((trail ++ [c]).map (·.kind))) : EverSettled (trail ++ [c]) := by
  intro earlier c' hp
  rcases List.prefix_concat_iff.mp hp with he | hp
  · have ⟨he, hc'⟩ := List.append_inj' he rfl
    cases hc'
    exact he ▸ hc
  · exact h _ _ hp

-- It still is.
structure Settled (w : Watched TextCursor) : Prop where
  now : w.cursor.place.Settled (w.trail.map (·.kind))
  ever : EverSettled w.trail

-- Moving on keeps the watched cursor settled, and so does a step that fails.
theorem advance_settled : (Cursor.advance (σ := Watched TextCursor)).Meets Settled
    (fun _ => Settled) fun _ => Settled := by
  intro w hw
  have goes := TextCursor.advance_goes hw.now.within.suits (s := w.cursor) rfl
  show Outcome.Satisfies _ _ (advance.run w)
  simp only [advance]
  generalize hr : Cursor.advance.run w.cursor = o
  rw [show TextCursor.advance.run w.cursor = o from hr] at goes
  cases goes
  case error e c hc => exact .error ⟨by rw [show c.place = _ from hc]; exact hw.now, hw.ever⟩
  case ok u c moves =>
    have settled : c.place.Settled ((w.trail ++ [c]).map (·.kind)) := by
      rw [List.map_append]
      exact hw.now.step moves
    exact .ok ⟨settled, hw.ever.concat settled⟩

theorem skipValue_settled : (Cursor.skipValue (σ := Watched TextCursor)).Meets Settled
    (fun _ => Settled) fun _ => Settled :=
  .skipValue_of_advance advance_settled

end Watched

theorem TextCursor.finish_fixes {γ : Type} {v : TextCursor → γ}
    (hv : ∀ c r, v { c with reader := r } = v c) : Fixes v finish := by
  intro b c hc
  rw [finish, run_bind_of_ok (run_look c)]
  split
  case isFalse => exact .error hc
  case isTrue =>
    refine Fixes.bind (.onReader hv _) (fun _ => Fixes.bind (.onReader hv _) fun r => ?_) b hc
    split
    · exact .pure _
    · exact .fail _

theorem TextCursor.finish_stays : Stays finish :=
  finish_fixes fun _ _ => rfl

theorem Call.onWatched_settled {w : Watched TextCursor} (h : w.Settled) (call : Call) :
    (call.onWatched w).Settled := by
  cases call
  case advance   => exact Watched.advance_settled.state h
  case skipValue => exact Watched.skipValue_settled.state h
  case finish =>
    have place : (TextCursor.finish.run w.cursor).state.place = w.cursor.place :=
      (TextCursor.finish_stays w.cursor.place).state rfl
    exact ⟨place ▸ h.now, h.ever⟩
  case cancel    => exact ⟨h.now, h.ever⟩

-- All calls one after the other.
theorem Call.foldl_onWatched_settled {w : Watched TextCursor} (h : w.Settled) (calls : List Call) :
    (calls.foldl onWatched w).Settled := by
  induction calls generalizing w
  case nil             => exact h
  case cons call calls ih => exact ih (call.onWatched_settled h)

namespace TextCursor

variable {source : List UInt8} {c : TextCursor}

-- The first token is settled.
theorem settled_of_ofBytes (h : ofBytes source = .ok c) : c.place.Settled [c.kind] := by
  have goes := advance_goes (p := (initial source).place) trivial (s := initial source) rfl
  rw [ofBytes] at h
  generalize advance.run (initial source) = o at h goes
  cases goes
  case error => cases h
  case ok moves =>
    cases h
    exact (Place.reached_initial source).step moves

-- Whatever the bytes are and whichever calls are made on a cursor, be it that some of them fail, at
-- each moment the tokens that it was on are the start of those of some value.
theorem bracketed_of_calls (h : ofBytes source = .ok c) (calls : List Call) :
    let w := calls.foldl Call.onWatched ⟨c, [c]⟩
    w.cursor = calls.foldl Call.on c ∧
      Bracketed (w.trail.map (·.kind)) w.cursor ∧
      ∀ earlier c', earlier ++ [c'] <+: w.trail →
        Bracketed ((earlier ++ [c']).map (·.kind)) c' := by
  intro w
  have first := settled_of_ofBytes h
  have none : Watched.EverSettled [] := fun _ _ hp => absurd hp (by simp)
  have start : Watched.Settled ⟨c, [c]⟩ := ⟨first, none.concat first⟩
  have settled := Call.foldl_onWatched_settled start calls
  exact ⟨Call.cursor_foldl_onWatched _ calls, bracketed_of_settled settled.now,
    fun _ _ hp => bracketed_of_settled (settled.ever _ _ hp)⟩

-- A doubled comma is passed over by an advance that fails, and the one after it finds an item.
theorem bracketed_of_calls_comma :
    let source := plain "[1,,2".toList
    let c : TextCursor := {
      source, reader := ⟨1, plain "1,,2".toList⟩, kind := .arrayStart, start := 0, scratch := "",
      numberEnd := 0, stack := [.array], expect := .valueOrEnd, isCancelled := false }
    let w := [Call.advance, .advance, .finish, .advance].foldl Call.onWatched ⟨c, [c]⟩
    ofBytes source = .ok c ∧
      w.trail.map (·.kind) = [.arrayStart, .integer, .integer] ∧
      Bracketed (w.trail.map (·.kind)) w.cursor := by
  intro source c w
  have first : ofBytes source = .ok c := by rfl
  exact ⟨first, by decide +kernel, (bracketed_of_calls first _).2.1⟩

end TextCursor
end RecordDecoding
