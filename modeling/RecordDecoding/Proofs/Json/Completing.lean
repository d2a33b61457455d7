import RecordDecoding.Proofs.Json.Wanting

namespace RecordDecoding

open Forward Json

namespace TextCursor

-- The cursor can be moved on until it is complete, and then finished.
inductive Accepts : TextCursor → Prop
  | stop {c c'} : c.isComplete → finish.run c = .ok () c' → Accepts c
  | step {c c'} : advance.run c = .ok () c' → Accepts c' → Accepts c

-- The error that stops a cursor at the first token of some bytes, or at a later one.
inductive Reports (source : List UInt8) (e : CursorError) : Prop
  | first : ofBytes source = .error e → Reports source e
  | later {c₀ c c'} : ofBytes source = .ok c₀ → Trail [] c₀ c → advance.run c = .error e c' →
    Reports source e

variable {c c' : TextCursor} {source bytes tail : List UInt8} {ls : List Lexeme} {e : CursorError}
  {n : Nat}

theorem Reports.reached (h : Reports source e) :
    ∃ c c', Reached source c ∧ advance.run c = .error e c' := by
  cases h
  case first h =>
    rw [ofBytes] at h
    split at h
    case h_1 => cases h
    case h_2 hr =>
      cases h
      exact ⟨_, _, .refl, hr⟩
  case later first trail failed =>
    exact ⟨_, _, .head ⟨List.nil_suffix, ofBytes_eq_ok_iff.mp first⟩ trail, failed⟩

-- A complete cursor does not move.
theorem advance_of_complete (h : c.isComplete) : ∃ c',
    advance.run c = .error .cancelled c' ∨ advance.run c = .error .exhausted c' := by
  have he : c.expect = .done := of_decide_eq_true h
  rw [advance, run_bind_of_ok (run_look c), he]
  split
  case isTrue  => exact ⟨_, .inl rfl⟩
  case isFalse => exact ⟨_, .inr rfl⟩

theorem not_complete_of_advance (h : advance.run c = .ok () c') : c.isComplete = false := by
  cases hc : c.isComplete
  case false => rfl
  case true =>
    have ⟨_, hr⟩ := advance_of_complete hc
    rcases hr with hr | hr <;> cases hr.symm.trans h

theorem not_complete_of_wants (h : advance.run c = .error (.unexpectedEof n) c') :
    c.isComplete = false := by
  cases hc : c.isComplete
  case false => rfl
  case true =>
    have ⟨_, hr⟩ := advance_of_complete hc
    rcases hr with hr | hr <;> cases hr.symm.trans h

section Accepting

variable {seen cursors : List TextCursor}

theorem Accepts.exists_loop (h : Accepts c) (seen : List TextCursor) :
    ∃ cursors c₁ c₂, (loop advance advance_reads all.collect seen).run c = .ok cursors c₁ ∧
      finish.run c₁ = .ok () c₂ := by
  induction h generalizing seen
  case stop c c' hc hf =>
    refine ⟨(c :: seen).reverse, c, c', ?_, hf⟩
    rw [run_loop, run_collect, if_pos hc]
  case step c c' hr _ ih =>
    have ⟨cursors, c₁, c₂, hl, hf⟩ := ih (c :: seen)
    refine ⟨cursors, c₁, c₂, ?_, hf⟩
    rw [run_loop, run_collect, not_complete_of_advance hr, if_neg Bool.false_ne_true]
    simp only [hr, hl]

theorem Tour.accepts {last : TextCursor} (tour : Tour c cursors last)
    (hf : finish.run last = .ok () c') : Accepts c := by
  induction tour
  case done hc      => exact .stop hc hf
  case move hr _ ih => exact .step hr (ih hf)

theorem all_ok_iff : (∃ cursors, all bytes = .ok cursors) ↔ Accepts (initial bytes) := by
  constructor
  case mp =>
    intro ⟨cursors, h⟩
    have ⟨_, _, tour, finished⟩ := tour_of_all h
    exact tour.accepts finished
  case mpr =>
    intro h
    cases h
    case stop hc _ => cases hc
    case step h hr =>
      have ⟨cursors, c₁, c₂, hl, hf⟩ := h.exists_loop []
      exact ⟨cursors, all_eq_ok_iff.mpr ⟨_, c₁, c₂, hr, hl, hf⟩⟩

theorem Follows.accepts (h : c.Follows ls) : Accepts c := by
  induction ls generalizing c
  case nil =>
    have ⟨_, hf⟩ := h.finish h.isComplete
    exact .stop h.isComplete hf
  case cons l ls ih =>
    have ⟨_, hr, _, h⟩ := advance_yields h h.not_complete
    exact .step hr (ih h)

theorem Accepts.advance (h : Accepts c) (hc : c.isComplete = false) :
    ∃ c', TextCursor.advance.run c = .ok () c' ∧ Accepts c' := by
  cases h
  case stop hc' _ => cases hc.symm.trans hc'
  case step h hr    => exact ⟨_, hr, h⟩

theorem accepts_trail_iff {stack : List Container} (trail : Trail stack c c') :
    Accepts c ↔ Accepts c' := by
  induction trail
  case refl => exact Iff.rfl
  case tail step ih =>
    rw [ih]
    constructor
    case mpr => exact .step step.2
    case mp =>
      intro h
      have ⟨_, hr, h⟩ := h.advance (not_complete_of_advance step.2)
      cases hr.symm.trans step.2
      exact h

end Accepting

theorem Reached.past (h : Reached source c) : (initial source).Past c := by
  induction h
  case refl         => exact .refl _
  case tail step ih => exact ih.trans ((advance_mends _).past step.2)

theorem Reached.ending (h : Reached source c) : Ending.of source = Ending.of c.reader.ahead :=
  h.past.ending

theorem Past.inText (h : (initial source).Past c) : c.InText where
  active := h.active
  ahead  := by
    obtain ⟨bytes, _, (hb : source = _)⟩ := h.bytes
    have stop : c.reader.offset + c.reader.ahead.length = 0 + source.length := h.stop
    have offset : c.reader.offset = bytes.length := by
      rw [hb, List.length_append] at stop
      omega
    rw [show c.source = source from h.source, offset, hb, List.drop_left]

section Tails

variable (reached : Reached source c) (failed : advance.run c = .error (.unexpectedEof n) c')
include reached failed

theorem Reached.stop_eq : n = source.length := by
  have stop : c.reader.stop = 0 + source.length := reached.past.stop
  rw [((advance_mends c).wants failed).stop, stop, Nat.zero_add]

-- If some bytes are left, what was read so far is no other for more of them.
theorem Reached.completes_of_all (accepted : ∃ cursors, all (source ++ tail) = .ok cursors) :
    (Ending.of source).Completes := by
  rw [reached.ending]
  cases hc : c.reader.ahead
  case nil => trivial
  case cons =>
    have more : More c := Scan.more_of_ahead hc
    have trail : Trail [] (initial (source ++ tail)) (append tail c) := reached.append (.inl more)
    have accepts := (accepts_trail_iff trail).mp (all_ok_iff.mp accepted)
    have unread : c.isComplete = false := not_complete_of_wants failed
    have ⟨_, hr, _⟩ := accepts.advance (show (append tail c).isComplete = false from unread)
    rw [← hc]
    exact ((advance_mends c).wants failed).completes hr

theorem Reached.exists_tail (completes : (Ending.of source).Completes) :
    ∃ tail cursors, tail ≠ [] ∧ all (source ++ tail) = .ok cursors := by
  rw [reached.ending] at completes
  obtain ⟨tail, _, c₁, hr, hc₁, apart⟩ := ((advance_mends c).wants failed).exists_tail completes
  have suits : (append tail c).place.expect.Suits (append tail c).place.stack := reached.suits
  have within := (moves_of_advance suits hr).within
  obtain ⟨closers, ls, due, stops⟩ := exists_due within
  have reached' : Reached (source ++ (tail ++ closers)) (append (tail ++ closers) c) := by
    cases hc : c.reader.ahead
    case nil  => exact Trail.append_stops reached ((apart hc).append closers).stops
    case cons => exact Trail.append reached (.inl (Scan.more_of_ahead hc))
  have hr' : advance.run (append (tail ++ closers) c) = .ok () (append closers c₁) := by
    rw [append_append]
    exact firm_advance stops hr trivial
  have last : Reached (source ++ (tail ++ closers)) (append closers c₁) :=
    reached'.tail ⟨List.nil_suffix, hr'⟩
  have ahead : (append closers c₁).reader.ahead = closers := by
    rw [append, Reader.append, hc₁, List.nil_append]
  have follows : (append closers c₁).Follows ls := ⟨last.past.inText, ahead.symm ▸ due⟩
  obtain ⟨cursors, accepted⟩ := all_ok_iff.mpr ((accepts_trail_iff last).mpr follows.accepts)
  refine ⟨tail ++ closers, cursors, ?_, accepted⟩
  rintro he
  obtain ⟨rfl, rfl⟩ := List.append_eq_nil_iff.mp he
  rw [append_nil] at hr
  cases failed.symm.trans hr

end Tails

-- The end of some bytes is complained of where it is. They are the start of a text, unless they end
-- in a unit that cannot be completed.
theorem unexpectedEof_completed (h : Reports source (.unexpectedEof n)) :
    n = source.length ∧
      ((∃ tail cursors, tail ≠ [] ∧ all (source ++ tail) = .ok cursors) ↔
        (Ending.of source).Completes) := by
  have ⟨c, c', reached, failed⟩ := h.reached
  refine ⟨reached.stop_eq failed, ?_, reached.exists_tail failed⟩
  intro ⟨tail, cursors, _, accepted⟩
  exact reached.completes_of_all failed ⟨cursors, accepted⟩

-- An item that is cut off in a unit, which can be completed.
theorem unexpectedEof_completed_item :
    let source := plain "[\"\\u00".toList
    Reports source (.unexpectedEof 6) ∧ 6 = source.length ∧
      ((∃ tail cursors, tail ≠ [] ∧ all (source ++ tail) = .ok cursors) ↔
        (Ending.of source).Completes) ∧ (Ending.of source).Completes := by
  intro source
  let c : TextCursor := {
    source, reader := ⟨1, plain "\"\\u00".toList⟩, kind := .arrayStart, start := 0,
    scratch := "", numberEnd := 0, stack := [.array], expect := .valueOrEnd, isCancelled := false }
  have first : ofBytes source = .ok c := by rfl
  have failed : advance.run c = .error (.unexpectedEof 6) (advance.run c).state := by
    decide +kernel
  have reports : Reports source (.unexpectedEof 6) := .later first .refl failed
  have completes : (Ending.of source).Completes := ⟨plain "41".toList, 0x41, by decide, by decide⟩
  have ⟨stop, iff⟩ := unexpectedEof_completed reports
  exact ⟨reports, stop, iff, completes⟩

-- What is there of the unit is no digit, and still only the end of the bytes is complained of.
theorem unit_not_completed :
    let source := plain "\"\\uZ".toList
    ofBytes source = .error (.unexpectedEof 4) ∧
      ¬∃ tail cursors, all (source ++ tail) = .ok cursors := by
  intro source
  let c := initial source
  have failed : advance.run c = .error (.unexpectedEof 4) (advance.run c).state := by
    decide +kernel
  refine ⟨by rw [ofBytes, failed], ?_⟩
  rintro ⟨tail, cursors, h⟩
  obtain ⟨c₁, _, _, hr, _⟩ := all_eq_ok_iff.mp h
  have completes : (Ending.unit false [ascii 'Z']).Completes :=
    ((advance_mends c).wants failed).completes hr
  rcases Ending.head_of_completes completes with sign | ⟨_, digit⟩
  · cases sign
  · cases digit

end TextCursor
end RecordDecoding
