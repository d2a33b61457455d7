import RecordDecoding.Proofs.Json.Walking

namespace RecordDecoding

open Forward

namespace Place

variable {p q : Place} {stack : List Container}

theorem Begins.kind_ne_fieldName (h : p.Begins stack) : p.kind ≠ .fieldName := by
  cases h
  case scalar hs =>
    rintro rfl
    simp at hs
  all_goals nofun

-- Where a container ends there is no name.
theorem Moves.kind_ne_fieldName (h : p.Moves q) (hs : q.stack ≠ p.stack)
    (hl : q.stack.length ≤ p.stack.length) : q.kind ≠ .fieldName := by
  rcases h.keeps_or_closes with keeps | ⟨container, _, hk⟩
  case inl => exact absurd (keeps.eq_of_length_le hl).symm hs
  case inr =>
    rw [hk]
    cases container <;> nofun

end Place

namespace TextCursor

variable {c c' m o v : TextCursor} {base stack : List Container} {name : String}

theorem Trail.mono (h : Trail stack c c') (hs : base <:+ stack) : Trail base c c' :=
  h.lift id fun _ _ step => ⟨hs.trans step.1, step.2⟩

-- A trail that goes on from a cursor goes on over its next token.
theorem Trail.rest (h : Trail stack c m) (hr : advance.run c = .ok () c') (ne : m ≠ c) :
    Trail stack c' m := by
  rcases h.cases_head with rfl | ⟨_, step, rest⟩
  case inl => exact absurd rfl ne
  case inr =>
    cases step.2.symm.trans hr
    exact rest

-- In the container that starts at `o`, and in no other one inside of it.
structure DirectlyIn (o c : TextCursor) : Prop where
  trail : Trail o.stack o c
  stack : c.stack = o.stack

-- At the end of the container that starts at `o`.
structure Closes (o c : TextCursor) : Prop where
  trail : Trail o.stack o c
  stack : c.stack = o.stack.tail

-- On the name of a member of the object that starts at `o`.
structure NamesMember (o : TextCursor) (name : String) (m : TextCursor) : Prop where
  directly : DirectlyIn o m
  name : m.fieldName = .ok (.fresh name)

theorem fieldName_ok {n : MemberName} (h : c.fieldName = .ok n) :
    c.kind = .fieldName ∧ n = .fresh n.text := by
  have ⟨_, expected, h⟩ := ok_of_bind_ok h
  cases h
  unfold CursorError.expectKind at expected
  split at expected
  case isTrue hk => exact ⟨hk, rfl⟩
  case isFalse   => cases expected

theorem DirectlyIn.advance (h : DirectlyIn o c) (hr : advance.run c = .ok () c') :
    Trail o.stack o c' :=
  h.trail.tail ⟨h.stack ▸ List.suffix_rfl, hr⟩

-- In the value that starts at `v`: all names around the value that are met from there on are met
-- from here on.
structure InValue (v : TextCursor) (base : List Container) (c : TextCursor) : Prop where
  suits : c.expect.Suits c.stack
  trail : Trail base v c
  inside : base <:+ c.stack
  kind : c.stack = base → c.kind ≠ .fieldName
  names : ∀ m, Trail base v m → m.stack = base → m.kind = .fieldName → Trail base c m

theorem InValue.start (begins : c.place.Begins base) : InValue c base c where
  suits  := begins.within.suits
  trail  := .refl
  inside := begins.suffix
  kind _ := begins.kind_ne_fieldName
  names _ trail _ _ := trail

theorem InValue.advance (h : InValue v base c) (hs : c.stack ≠ base)
    (hr : TextCursor.advance.run c = .ok () c') :
    InValue v base c' ∧ c.place.Moves c'.place := by
  have moves := moves_of_advance h.suits hr
  have longer : base.length < c.stack.length :=
    Nat.lt_of_le_of_ne h.inside.length_le fun hl => hs (h.inside.eq_of_length hl).symm
  refine ⟨⟨moves.within.suits, h.trail.tail ⟨h.inside, hr⟩, ?inside, ?kind, ?names⟩, moves⟩
  case inside =>
    rcases moves.keeps_or_closes with keeps | ⟨container, closes, _⟩
    case inl => exact h.inside.trans keeps
    case inr =>
      have closes : c.stack = container :: c'.stack := closes
      rcases List.suffix_cons_iff.mp (closes ▸ h.inside) with he | inside
      · exact absurd (closes.trans he.symm) hs
      · exact inside
  case kind =>
    intro hs'
    refine moves.kind_ne_fieldName (fun he => hs (he.symm.trans hs')) ?_
    exact Nat.le_of_lt (by rwa [show c'.place.stack = base from hs'])
  case names =>
    intro m trail hm hk
    refine (h.names m trail hm hk).rest hr ?_
    rintro rfl
    exact hs hm

-- The walk through the value that starts at `v`.
def throughValue (v : TextCursor) (base : List Container) : Walk where
  base := base
  On := InValue v base
  Fails _ := True
  advance {c inner} h hs hi := by
    have ne : c.stack ≠ base := fun he => hi (List.append_left_eq_self.mp (hs.symm.trans he))
    cases hr : TextCursor.advance.run c
    case ok    => exact .ok (h.advance ne hr)
    case error => exact .error trivial

-- All names of some sort that the object has are ahead of the cursor.
def Ahead (o : TextCursor) (names : String → Prop) (c : TextCursor) : Prop :=
  ∀ name, names name → ∀ m, NamesMember o name m → Trail o.stack c m

namespace Ahead

variable {names names' : String → Prop}

theorem start : Ahead o names o :=
  fun _ _ _ hm => hm.directly.trail

theorem imp (h : Ahead o names c) (hn : ∀ name, names' name → names name) : Ahead o names' c :=
  fun name hname => h name (hn name hname)

-- Moving on passes no name but the one that the cursor is on.
theorem advance (h : Ahead o names c) (hr : TextCursor.advance.run c = .ok () c')
    (hn : ∀ name, names name → c.fieldName ≠ .ok (.fresh name)) : Ahead o names c' := by
  intro name hname m hm
  refine (h name hname m hm).rest hr ?_
  rintro rfl
  exact hn name hname hm.name

theorem inValue (h : Ahead o names v) (hc : InValue v o.stack c) : Ahead o names c :=
  fun name hname m hm =>
    hc.names m (h name hname m hm) hm.directly.stack (fieldName_ok hm.name).1

-- No name is ahead of the end.
theorem none_of_closes (h : Ahead o names c) (hc : Closes o c) (ho : o.stack ≠ [])
    (hk : c.kind ≠ .fieldName) (hname : names name) : ¬∃ m, NamesMember o name m := by
  rintro ⟨m, hm⟩
  rcases (h name hname m hm).cases_head with rfl | ⟨_, step, _⟩
  case inl => exact hk (fieldName_ok hm.name).1
  case inr =>
    obtain ⟨container, inner, he⟩ := List.exists_cons_of_ne_nil ho
    have inside := step.1
    rw [hc.stack, he] at inside
    exact not_cons_suffix inside

end Ahead
end TextCursor
end RecordDecoding
