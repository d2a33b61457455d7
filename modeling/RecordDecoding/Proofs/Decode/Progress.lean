import RecordDecoding.Proofs.Decode.Blaming
import RecordDecoding.Proofs.Decode.Correspondence
import RecordDecoding.Proofs.Decode.Guards
import RecordDecoding.Proofs.Json.Bounds

namespace RecordDecoding

open Decoding Forward

section

variable [UuidFormat]

-- Decoding keeps of its cursor what moving on keeps, also where it fails.
theorem decodeRecord_keeps {σ : Type} [Cursor σ] {P : σ → Prop}
    (advance : Cursor.advance.Meets P (fun _ => P) fun _ => P) (set : SchemaSet) (id : SchemaId)
    (opt : DecodeOptions) : Leads (fun _ => P) (decodeRecord set id opt) P fun _ => P := by
  refine (Composed.decodeRecord set id opt).meets fun atom => ?_
  cases atom
  case kind     => exact fun s hs => .ok hs
  case position => exact fun s hs => .ok hs
  case fail     => exact fun s hs => .error hs
  case heading =>
    intro s hs
    simp only [heading, check]
    split
    case h_1 => exact .ok hs
    case h_2 => exact .error hs
  case scalar schema field k =>
    intro s hs
    simp only [Level.scalar, Level.mismatch, run_bind, run_look]
    cases k.read s.cursor
    case ok          => exact .ok hs
    case error fault => cases fault <;> exact .error hs
  case note f hf h =>
    refine Meets.change fun {s} hs => ?_
    rwa [cursor_of_note h]
  case onCursor x hx =>
    refine Leads.onCursor (hx.meets fun atom => ?_)
    cases atom
    case kind    => exact fun c hc => .ok hc
    case advance => exact advance

-- What may become of a cursor: a call on it, or the decoding of a record of some type.
inductive Use where
  | call (call : Call)
  | decode (types : List TypeDecl) (set : SchemaSet) (built : SchemaSet.build types = .ok set)
    (id : SchemaId) (opt : DecodeOptions)

namespace Use

-- The cursor after a use, whether that failed or not.
def on (c : TextCursor) : Use → TextCursor
  | call step             => step.on c
  | decode _ set _ id opt => ((decodeRecord set id opt).run { cursor := c }).state.cursor

def onWatched (w : Watched TextCursor) : Use → Watched TextCursor
  | call step             => step.onWatched w
  | decode _ set _ id opt => ((decodeRecord set id opt).run { cursor := w }).state.cursor

end Use

namespace Watched

-- To watch a cursor does not show in what is decoded.
theorem lawful (σ : Type) [Cursor σ] :
    (Correspondence.through (Watched.cursor (σ := σ))).Lawful fun _ => True := by
  refine Correspondence.lawful_through (fun _ => rfl) (fun _ => rfl) (fun _ => rfl)
    (fun _ k => by cases k <;> rfl) ?_
  intro w c h
  have m := advance_lockstep (σ := σ) h
  generalize Cursor.advance.run w = o, Cursor.advance.run c = o' at m
  cases m
  case ok ha hc    => exact .ok ha hc
  case error he hc => exact .error (congrArg _ he) hc

-- A cursor over a source. Each token that it came to took something of what was left to read.
structure Progressed (source : List UInt8) (w : Watched TextCursor) : Prop where
  same  : w.cursor.source = source
  rests : ∃ start, w.cursor.Rests start
  trail : w.trail.length + left w.cursor ≤ source.length

end Watched

end

namespace TextCursor

variable {c : TextCursor} {start : Nat}

theorem Rests.left_eq (h : c.Rests start) : left c = c.source.length - c.reader.offset := by
  have length := h.reader.length
  show c.reader.ahead.length = _
  omega

-- To move on is to read something, and even where it fails nothing is taken back.
theorem advance_progresses (h : c.Rests start) : (advance.run c).Satisfies
    (fun _ c' => c'.source = c.source ∧ c'.Rests c'.start ∧ left c' < left c ∧
      c.reader.offset < c'.reader.offset)
    (fun _ c' => c'.source = c.source ∧ c'.Rests start ∧ left c' ≤ left c ∧
      c.reader.offset ≤ c'.reader.offset) := by
  have comes := advance_comes h
  generalize hr : advance.run c = o at comes
  cases comes
  case ok hc =>
    have lt := advance_reads hr
    exact .ok ⟨hc.source, hc.rests, lt, h.reader.offset_lt (hc.source ▸ hc.rests.reader) lt⟩
  case error hc =>
    have le := left_le_of_run_error hr
    exact .error ⟨hc.source, hc.rests h, le, h.reader.offset_le (hc.source ▸ hc.reader) le⟩

end TextCursor

namespace Watched

variable {source : List UInt8} {w : Watched TextCursor}

theorem advance_progressed : (Cursor.advance (σ := Watched TextCursor)).Meets (Progressed source)
    (fun _ => Progressed source) fun _ => Progressed source := by
  intro w h
  have ⟨start, rests⟩ := h.rests
  have progress := TextCursor.advance_progresses rests
  show Outcome.Satisfies _ _ (advance.run w)
  simp only [advance]
  generalize hr : Cursor.advance.run w.cursor = o
  rw [show TextCursor.advance.run w.cursor = o from hr] at progress
  have trail := h.trail
  cases progress
  case ok u c hc =>
    obtain ⟨same, rests, lt, _⟩ := hc
    refine .ok ⟨same.trans h.same, ⟨c.start, rests⟩, ?_⟩
    show (w.trail ++ [c]).length + left c ≤ source.length
    rw [List.length_append, List.length_singleton]
    omega
  case error hc =>
    obtain ⟨same, rests, le, _⟩ := hc
    exact .error ⟨same.trans h.same, ⟨start, rests⟩, Nat.le_trans (Nat.add_le_add_left le _) trail⟩

end Watched

theorem Call.onWatched_progressed {source : List UInt8} {w : Watched TextCursor}
    (h : w.Progressed source) (call : Call) : (call.onWatched w).Progressed source := by
  cases call
  case advance   => exact Watched.advance_progressed.state h
  case skipValue => exact (Meets.skipValue_of_advance Watched.advance_progressed).state h
  case finish =>
    have ⟨start, rests⟩ := h.rests
    have since := (TextCursor.finish_quiet w.cursor w.cursor.numberEnd).state rests.since
    have le := TextCursor.finish.run_le w.cursor
    exact ⟨since.source.trans h.same, ⟨start, since.rests rests⟩,
      Nat.le_trans (Nat.add_le_add_left le _) h.trail⟩
  case cancel =>
    have ⟨start, rests⟩ := h.rests
    exact ⟨h.same, ⟨start, { rests with }⟩, h.trail⟩

variable [UuidFormat]

namespace Use

-- To watch a cursor changes nothing of what becomes of it.
theorem cursor_onWatched (w : Watched TextCursor) (use : Use) :
    (use.onWatched w).cursor = use.on w.cursor := by
  cases use
  case call step => exact step.cursor_onWatched w
  case decode set built id opt =>
    have wf := SchemaSet.wellFormed_of_build built
    have steps := (Watched.lawful TextCursor).decodeRecord wf id opt
    have m := steps (s := { cursor := w }) (t := { cursor := w.cursor }) ⟨rfl, rfl, rfl⟩
    exact m.state.cursor

theorem onWatched_progressed {source : List UInt8} {w : Watched TextCursor}
    (h : w.Progressed source) (use : Use) : (use.onWatched w).Progressed source := by
  cases use
  case call step => exact step.onWatched_progressed h
  case decode set _ id opt =>
    exact (decodeRecord_keeps Watched.advance_progressed set id opt).state (s := { cursor := w }) h

-- All uses one after the other.
theorem cursor_foldl_onWatched (w : Watched TextCursor) (uses : List Use) :
    (uses.foldl onWatched w).cursor = uses.foldl on w.cursor := by
  induction uses generalizing w
  case nil              => rfl
  case cons use uses ih => rw [List.foldl_cons, ih, cursor_onWatched, List.foldl_cons]

theorem foldl_onWatched_progressed {source : List UInt8} {w : Watched TextCursor}
    (h : w.Progressed source) (uses : List Use) : (uses.foldl onWatched w).Progressed source := by
  induction uses generalizing w
  case nil              => exact h
  case cons use uses ih => exact ih (use.onWatched_progressed h)

end Use

namespace TextCursor

-- Loops over a cursor need no more than so many rounds each, and where they are inside of each
-- other, no more than so many of them: what `beyond` does in place of more is never seen.
structure EndsWithin (rounds : Nat) (c : TextCursor) : Prop where
  skipping (beyond : Step Unit) :
    (Cursor.skipWithin beyond rounds).run c = Cursor.skipValue.run c
  draining (beyond : Step (List TextCursor)) (seen : List TextCursor) :
    (loopWithin beyond advance all.collect rounds seen).run c =
      (loop advance advance_reads all.collect seen).run c
  decoding (beyond : (α : Type) → Step α) (set : SchemaSet) (id : SchemaId)
    (options : DecodeOptions) (maxDepth : UInt32) (s : Session TextCursor) :
    let guard : Guard TextCursor := { maxDepth, room := rounds, rounds, beyond }
    let opt : DecodeOptions := { options with maxDepth := maxDepth.toNat }
    (guard.decodeRecord set opt id).run { s with cursor := c } =
      (decodeRecord set id opt).run { s with cursor := c }

theorem endsWithin_of_left_lt {rounds : Nat} {c : TextCursor} (h : left c < rounds) :
    EndsWithin rounds c where
  skipping _   := Cursor.skipWithin_agrees (Nat.le_refl _) h
  draining _ _ := Agree.loop (fun _ => .refl _) (Nat.le_refl _) _ h
  decoding _ _ id _ _ _ :=
    Guard.decodeRecord_agrees rfl (Nat.le_refl _) (.inr (Nat.le_refl _)) id h

-- Whatever the bytes are and whatever becomes of a cursor over them, be it that it fails: it moved
-- on at most as often as there are bytes, and it is not behind the end of them. When it moves on it
-- is further on, and it never goes back. All loops over it end within one round more than there are
-- bytes left, at any greatest depth and for any schemas.
theorem progress_of_uses (source : List UInt8) (uses : List Use) :
    let w := uses.foldl Use.onWatched ⟨initial source, []⟩
    let c := uses.foldl Use.on (initial source)
    w.cursor = c ∧ w.trail.length ≤ source.length ∧ c.reader.offset ≤ source.length ∧
      (advance.run c).Satisfies (fun _ c' => c.reader.offset < c'.reader.offset)
        (fun _ c' => c.reader.offset ≤ c'.reader.offset) ∧
      EndsWithin (source.length - c.reader.offset + 1) c := by
  intro w c
  have first : Watched.Progressed source ⟨initial source, []⟩ :=
    ⟨rfl, ⟨0, rests_initial source⟩, Nat.le_of_eq (Nat.zero_add _)⟩
  have progressed : w.Progressed source := Use.foldl_onWatched_progressed first uses
  have watched : w.cursor = c := Use.cursor_foldl_onWatched _ uses
  have same : c.source = source := watched ▸ progressed.same
  have ⟨start, rests⟩ : ∃ start, c.Rests start := watched ▸ progressed.rests
  have inside : c.reader.offset ≤ source.length := same ▸ rests.reader.offset
  have left_eq : left c = source.length - c.reader.offset := same ▸ rests.left_eq
  refine ⟨watched, Nat.le_of_add_right_le progressed.trail, inside, ?advance,
    endsWithin_of_left_lt (Nat.lt_succ_of_le (Nat.le_of_eq left_eq))⟩
  have progress := advance_progresses rests
  generalize advance.run c = o at progress
  cases progress
  case advance.ok h    => exact .ok h.2.2.2
  case advance.error h => exact .error h.2.2.2

end TextCursor
end RecordDecoding
