import RecordDecoding.Proofs.Json.Walking

namespace RecordDecoding

open Forward Json

-- Numbers have literals of numbers.
def Lexeme.Valid : Lexeme → Prop
  | number literal => Numeral.IsNumber literal.toList
  | _              => True

namespace Json

variable {stack : List Container} {bytes : List UInt8} {ls : List Lexeme}

mutual

theorem valid_value : ∀ {j : Json} {bytes : List UInt8}, ValueText j bytes →
    ∀ l ∈ j.lexemes, l.Valid
  | _, _, .null | _, _, .true | _, _, .false | _, _, .string _ => by simp [lexemes, Lexeme.Valid]
  | _, _, .number h => by simpa [lexemes, Lexeme.Valid] using h
  | _, _, .emptyArray _ | _, _, .emptyObject _ => by
    simp [lexemes, itemLexemes, memberLexemes, Lexeme.Valid]
  | _, _, .array h => by
    have := valid_items h
    simp_all [lexemes, or_imp, Lexeme.Valid]
  | _, _, .object h => by
    have := valid_members h
    simp_all [lexemes, or_imp, Lexeme.Valid]

theorem valid_items : ∀ {items : List Json} {bytes : List UInt8}, ItemsText items bytes →
    ∀ l ∈ itemLexemes items, l.Valid
  | _, _, .one _ hv _ => by simpa [itemLexemes] using valid_value hv
  | _, _, .cons _ hv _ h => by
    simp only [itemLexemes, List.forall_mem_append]
    exact ⟨valid_value hv, valid_items h⟩

theorem valid_members : ∀ {members : List (String × Json)} {bytes : List UInt8},
    MembersText members bytes → ∀ l ∈ memberLexemes members, l.Valid
  | _, _, .one hm _ => by
    simp only [memberLexemes, List.append_nil, List.forall_mem_cons]
    exact ⟨trivial, valid_member hm⟩
  | _, _, .cons hm _ h => by
    simp only [memberLexemes, List.cons_append, List.forall_mem_cons, List.forall_mem_append]
    exact ⟨trivial, valid_member hm, valid_members h⟩

theorem valid_member : ∀ {name : String} {j : Json} {bytes : List UInt8},
    MemberText name j bytes → ∀ l ∈ j.lexemes, l.Valid
  | _, _, _, .of _ _ _ _ hv => valid_value hv

end

theorem After.valid (h : After stack bytes ls) : ∀ l ∈ ls, l.Valid := by
  induction h
  case root => simp
  case nextItem hv _ ih => exact List.forall_mem_append.mpr ⟨valid_value hv, ih⟩
  case nextMember hm _ ih =>
    exact List.forall_mem_cons.mpr ⟨trivial, List.forall_mem_append.mpr ⟨valid_member hm, ih⟩⟩
  all_goals exact List.forall_mem_cons.mpr ⟨trivial, ‹_›⟩

theorem Due.valid {expect : Expect} (h : Due expect stack bytes ls) : ∀ l ∈ ls, l.Valid := by
  cases h
  case value hv after     => exact List.forall_mem_append.mpr ⟨valid_value hv, after.valid⟩
  case firstItem hv after => exact List.forall_mem_append.mpr ⟨valid_value hv, after.valid⟩
  case firstMember hm after =>
    refine List.forall_mem_cons.mpr ⟨trivial, ?_⟩
    exact List.forall_mem_append.mpr ⟨valid_member hm, after.valid⟩
  case emptyArray after  => exact List.forall_mem_cons.mpr ⟨trivial, after.valid⟩
  case emptyObject after => exact List.forall_mem_cons.mpr ⟨trivial, after.valid⟩
  case afterValue after  => exact after.valid
  case done              => simp

end Json

namespace TextCursor

variable {c c' : TextCursor} {stack : List Container}

-- The cursor is on a lexeme of a text, and the rest of the text follows.
structure Sits (c : TextCursor) : Prop where
  shows : ∃ l, c.Shows l ∧ l.Valid
  follows : ∃ ls, c.Follows ls
  within : c.expect.Within c.stack

theorem advance_from {ls : List Lexeme} (h : c.Follows ls) (hs : c.expect.Suits c.stack)
    (hd : c.expect ≠ .done) :
    ∃ c', advance.run c = .ok () c' ∧ c'.Sits ∧ c.place.Moves c'.place := by
  have valid := h.due.valid
  have yields := advance_yields h (decide_eq_false hd)
  cases ls
  case nil => cases yields
  case cons l ls =>
    have ⟨c', hr, shows, follows⟩ := yields
    have goes := advance_goes (p := c.place) hs (s := c) rfl
    rw [hr] at goes
    cases goes
    case ok moves =>
      have valid := valid l (List.mem_cons_self ..)
      exact ⟨c', hr, ⟨⟨l, shows, valid⟩, ⟨ls, follows⟩, moves.within⟩, moves⟩

-- There is a next lexeme as long as a container is open.
theorem Sits.advance (h : c.Sits) (hs : c.stack ≠ []) :
    ∃ c', TextCursor.advance.run c = .ok () c' ∧ c'.Sits ∧ c.place.Moves c'.place := by
  have ⟨_, follows⟩ := h.follows
  refine advance_from follows h.within.suits fun hd => hs ?_
  have within := h.within
  rw [hd] at within
  exact within

-- Nothing stops a cursor before the end of the text.
def sitting : Walk where
  base := []
  On := Sits
  Fails _ := False
  advance {c inner} h hs hi := by
    have ⟨c', hr, hc', hm⟩ := h.advance (by rwa [hs, List.append_nil])
    rw [hr]
    exact .ok ⟨hc', hm⟩

end TextCursor
end RecordDecoding
