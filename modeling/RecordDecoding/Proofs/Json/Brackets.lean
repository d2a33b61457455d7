import RecordDecoding.Proofs.Json.Moves

namespace RecordDecoding

open Forward Json

namespace Json

variable {stack : List Container}

-- As many tokens open a container as close one.
def Paired (ls : List Lexeme) : Prop :=
  ls.countP (·.kind.opensContainer) = ls.countP (·.kind.closesContainer)

theorem Paired.append {ls ls' : List Lexeme} (h : Paired ls) (h' : Paired ls') :
    Paired (ls ++ ls') := by
  simp only [Paired, List.countP_append] at *
  omega

theorem paired_number (literal : String) : Paired [.number literal] := by
  simp only [Paired, List.countP_singleton, Lexeme.kind]
  split <;> rfl

mutual

theorem paired_lexemes : ∀ j : Json, Paired j.lexemes
  | null           => rfl
  | bool b         => by cases b <;> rfl
  | number literal => paired_number literal
  | string _       => rfl
  | array items    => by
    have := paired_items items
    simp_all [Paired, lexemes, Lexeme.kind, TokenKind.opensContainer, TokenKind.closesContainer]
  | object members => by
    have := paired_members members
    simp_all [Paired, lexemes, Lexeme.kind, TokenKind.opensContainer, TokenKind.closesContainer]

theorem paired_items : ∀ items : List Json, Paired (itemLexemes items)
  | []            => rfl
  | item :: items => (paired_lexemes item).append (paired_items items)

theorem paired_members : ∀ members : List (String × Json), Paired (memberLexemes members)
  | []                    => rfl
  | (_, value) :: members => by
    have h := (paired_lexemes value).append (paired_members members)
    simpa [Paired, memberLexemes, Lexeme.kind, TokenKind.opensContainer,
      TokenKind.closesContainer] using h

end

-- A text can be completed in any place.
theorem exists_after (stack : List Container) : ∃ bytes ls, After stack bytes ls := by
  induction stack
  case nil => exact ⟨[], [], .root blank_nil⟩
  case cons container stack ih =>
    have ⟨_, _, h⟩ := ih
    cases container
    case object => exact ⟨_, _, .objectEnd blank_nil h⟩
    case array  => exact ⟨_, _, .arrayEnd blank_nil h⟩

-- It is completed by bytes that do not go on with a number.
theorem exists_due {expect : Expect} (h : expect.Within stack) :
    ∃ bytes ls, Due expect stack bytes ls ∧ Scan.Stops Scan.goesOn bytes := by
  cases expect
  case value =>
    have ⟨_, _, after⟩ := exists_after stack
    exact ⟨_, _, .value blank_nil .null after, .cons rfl⟩
  case valueOrEnd =>
    have ⟨stack, hs⟩ := List.head?_eq_some_iff.mp h
    subst hs
    have ⟨_, _, after⟩ := exists_after stack
    exact ⟨_, _, .emptyArray blank_nil after, .cons rfl⟩
  case keyOrEnd =>
    have ⟨stack, hs⟩ := List.head?_eq_some_iff.mp h
    subst hs
    have ⟨_, _, after⟩ := exists_after stack
    exact ⟨_, _, .emptyObject blank_nil after, .cons rfl⟩
  case afterValue =>
    have ⟨container, stack, hs⟩ := List.exists_cons_of_ne_nil h
    subst hs
    have ⟨_, _, after⟩ := exists_after (container :: stack)
    exact ⟨_, _, .afterValue after, TextCursor.stops_after after⟩
  case done =>
    subst h
    exact ⟨_, _, .done blank_nil, nofun⟩

-- Some value for each kind of scalar.
theorem exists_scalar {k : TokenKind}
    (hk : k ∈ [.string, .integer, .float, .boolTrue, .boolFalse, .null]) :
    ∃ j text l, ValueText j text ∧ j.lexemes = [l] ∧ l.kind = k := by
  simp only [List.mem_cons, List.not_mem_nil, or_false] at hk
  rcases hk with rfl | rfl | rfl | rfl | rfl | rfl
  · exact ⟨.string "", _, _, .string (.quoted .nil), rfl, rfl⟩
  · have zero : Numeral.IsNumber "0".toList := .of (.plain .zero) .none .none
    exact ⟨.number "0", _, _, .number zero, rfl, rfl⟩
  · have fraction : Numeral.IsFraction ['.', '5'] := .digits rfl
    have half : Numeral.IsNumber "0.5".toList := .of (.plain .zero) fraction .none
    exact ⟨.number "0.5", _, _, .number half, rfl, rfl⟩
  · exact ⟨.bool true, _, _, .true, rfl, rfl⟩
  · exact ⟨.bool false, _, _, .false, rfl, rfl⟩
  · exact ⟨.null, _, _, .null, rfl, rfl⟩

end Json

namespace TextCursor.ValueDue

variable {stack : List Container} {bytes : List UInt8} {ls : List Lexeme}

theorem value (h : ValueDue stack bytes ls) : Due .value stack bytes ls := by
  cases h
  case of hv after => exact .value blank_nil hv after

theorem firstItem (h : ValueDue (.array :: stack) bytes ls) :
    Due .valueOrEnd (.array :: stack) bytes ls := by
  cases h
  case of hv after => exact .firstItem blank_nil hv after

theorem nextItem (h : ValueDue (.array :: stack) bytes ls) :
    After (.array :: stack) (ascii ',' :: bytes) ls := by
  cases h
  case of hv after => exact .nextItem blank_nil blank_nil hv after

end TextCursor.ValueDue

namespace Place

variable {p q : Place} {stack : List Container} {bytes : List UInt8} {ls : List Lexeme}
  {seen : List TokenKind}

-- A rest from the first token of a value on, and a rest from before it on.
theorem Begins.due (h : q.Begins stack) (hd : Due q.expect q.stack bytes ls) :
    ∃ bytes' l, l.kind = q.kind ∧ TextCursor.ValueDue stack bytes' (l :: ls) := by
  cases h
  case object => exact ⟨_, .objectStart, rfl, TextCursor.valueDue_object hd⟩
  case array  => exact ⟨_, .arrayStart, rfl, TextCursor.valueDue_array hd⟩
  case scalar hk =>
    have ⟨j, text, l, hv, hl, hk⟩ := exists_scalar hk
    have due := TextCursor.ValueDue.of hv (due_after_iff.mp hd)
    rw [hl] at due
    exact ⟨_, l, hk, due⟩

-- A member with any name, and what is due after it.
theorem exists_member (hd : Due .value (.object :: stack) bytes ls) :
    ∃ j text rest ls', MemberText "" j text ∧ After (.object :: stack) rest ls' ∧
      j.lexemes ++ ls' = ls := by
  cases hd
  case value hb hv after =>
    exact ⟨_, _, _, _, .of blank_nil (.quoted .nil) blank_nil hb hv, after, rfl⟩

theorem Moves.due (h : p.Moves q) (hd : Due q.expect q.stack bytes ls) :
    ∃ bytes' l, l.kind = q.kind ∧ Due p.expect p.stack bytes' (l :: ls) := by
  cases h
  case value he hq =>
    have ⟨_, l, hk, due⟩ := hq.due hd
    rw [he]
    exact ⟨_, l, hk, due.value⟩
  case item stack he hs hq =>
    have ⟨_, l, hk, due⟩ := hq.due hd
    rw [hs] at due ⊢
    rcases he with he | he <;> rw [he]
    · exact ⟨_, l, hk, due.firstItem⟩
    · exact ⟨_, l, hk, .afterValue due.nextItem⟩
  case name stack he hs =>
    have ⟨j, text, rest, ls', hm, after, hl⟩ := exists_member (hs ▸ hd)
    rw [hs, ← hl]
    rcases he with he | he <;> rw [he]
    · exact ⟨_, .name "", rfl, .firstMember hm after⟩
    · exact ⟨_, .name "", rfl, .afterValue (.nextMember blank_nil hm after)⟩
  case arrayEnd stack he hs =>
    have after := due_after_iff.mp hd
    rw [hs]
    rcases he with he | he <;> rw [he]
    · exact ⟨_, .arrayEnd, rfl, .emptyArray blank_nil after⟩
    · exact ⟨_, .arrayEnd, rfl, .afterValue (.arrayEnd blank_nil after)⟩
  case objectEnd stack he hs =>
    have after := due_after_iff.mp hd
    rw [hs]
    rcases he with he | he <;> rw [he]
    · exact ⟨_, .objectEnd, rfl, .emptyObject blank_nil after⟩
    · exact ⟨_, .objectEnd, rfl, .afterValue (.objectEnd blank_nil after)⟩

-- Tokens of these kinds were seen up to a place: what is due there makes a text of them, and as
-- many containers are open as were not closed again.
structure Reached (seen : List TokenKind) (p : Place) : Prop where
  text {bytes : List UInt8} {ls : List Lexeme} : Due p.expect p.stack bytes ls →
    ∃ j source, IsText j source ∧ j.lexemes.map Lexeme.kind = seen ++ ls.map Lexeme.kind
  depth : seen.countP (·.opensContainer) = p.stack.length + seen.countP (·.closesContainer)

-- The last of these tokens is the one at the place.
structure Settled (seen : List TokenKind) (p : Place) : Prop extends Reached seen p where
  within : p.expect.Within p.stack
  last : seen.getLast? = some p.kind

theorem reached_initial (source : List UInt8) : Reached [] (TextCursor.initial source).place where
  text h := by
    have ⟨j, ht, hl⟩ := due_text_iff.mp h
    exact ⟨j, _, ht, hl ▸ rfl⟩
  depth := rfl

theorem Moves.ne_done (h : p.Moves q) : p.expect ≠ .done := by
  intro hd
  cases h <;> simp_all

theorem Moves.depth (h : p.Moves q) :
    q.stack.length + (if q.kind.closesContainer then 1 else 0) =
      p.stack.length + (if q.kind.opensContainer then 1 else 0) := by
  have begins (hq : q.Begins p.stack) :
      q.stack.length + (if q.kind.closesContainer then 1 else 0) =
        p.stack.length + (if q.kind.opensContainer then 1 else 0) := by
    cases hq
    case scalar hk =>
      simp only [List.mem_cons, List.not_mem_nil, or_false] at hk
      rcases hk with rfl | rfl | rfl | rfl | rfl | rfl <;> rfl
    all_goals rfl
  cases h
  case value hq        => exact begins hq
  case item hq         => exact begins hq
  case name            => rfl
  case arrayEnd hs     => rw [hs]; rfl
  case objectEnd hs    => rw [hs]; rfl

-- What a step of a cursor preserves.
theorem Reached.step (h : p.Reached seen) (hm : p.Moves q) : q.Settled (seen ++ [q.kind]) where
  text hd := by
    have ⟨bytes', l, hk, due⟩ := hm.due hd
    have ⟨j, source, ht, hl⟩ := h.text due
    exact ⟨j, source, ht, by simp [hl, hk]⟩
  depth := by
    have before := h.depth
    have after := hm.depth
    simp only [List.countP_append, List.countP_singleton]
    omega
  within := hm.within
  last := by simp

-- Where nothing more is expected, the tokens up to there make a text.
theorem Reached.exists_text (h : p.Reached seen) (hs : p.expect.Suits p.stack)
    (he : p.expect = .done) :
    ∃ j source, IsText j source ∧ j.lexemes.map Lexeme.kind = seen := by
  rw [he] at hs
  have due : Due p.expect p.stack [] [] := by
    rw [he, show p.stack = [] from hs]
    exact .done blank_nil
  have ⟨j, source, ht, hl⟩ := h.text due
  exact ⟨j, source, ht, by simpa using hl⟩

-- The tokens up to a place make a text with more to come.
theorem Settled.text_more (h : p.Settled seen) :
    ∃ j source, IsText j source ∧ seen <+: j.lexemes.map Lexeme.kind := by
  have ⟨_, _, due, _⟩ := exists_due h.within
  have ⟨j, source, ht, hl⟩ := h.text due
  exact ⟨j, source, ht, _, hl.symm⟩

-- They are a text by themselves if and only if nothing more is expected: as long as a container is
-- open, there are too few ends.
theorem Settled.done_iff (h : p.Settled seen) : p.expect = .done ↔
    ∃ j source, IsText j source ∧ j.lexemes.map Lexeme.kind = seen := by
  have within := h.within
  constructor
  case mp => exact h.exists_text within.suits
  case mpr =>
    intro ⟨j, source, _, hl⟩
    have depth := h.depth
    have paired := paired_lexemes j
    rw [← hl, List.countP_map, List.countP_map] at depth
    have empty : p.stack = [] := by
      refine List.length_eq_zero_iff.mp ?_
      simp only [Paired, Function.comp_def] at paired depth
      omega
    rw [empty] at within
    cases he : p.expect
    case done       => rfl
    case afterValue => exact absurd rfl (he ▸ within)
    all_goals
      rw [he] at within
      cases within

end Place

end RecordDecoding
