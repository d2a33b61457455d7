import Mathlib.Logic.Relation
import RecordDecoding.Proofs.Json.Moves
import RecordDecoding.Proofs.Skipping

namespace RecordDecoding

open Forward

-- The kinds of the tokens at which a container starts and ends.
def Container.first : Container → TokenKind
  | object => .objectStart
  | array  => .arrayStart

def Container.last : Container → TokenKind
  | object => .objectEnd
  | array  => .arrayEnd

namespace Place

variable {p q : Place} {stack : List Container}

-- The first token of an item of an array, or the end of the array.
def AtItem (stack : List Container) (p : Place) : Prop :=
  p.Begins (.array :: stack) ∨ p = ⟨.arrayEnd, .after stack, stack⟩

-- The name of a member of an object, or the end of the object.
def AtMember (stack : List Container) (p : Place) : Prop :=
  p = ⟨.fieldName, .value, .object :: stack⟩ ∨ p = ⟨.objectEnd, .after stack, stack⟩

theorem Begins.of_objectStart (h : p.Begins stack) (hk : p.kind = .objectStart) :
    p = ⟨.objectStart, .keyOrEnd, .object :: stack⟩ := by
  cases h
  case object => rfl
  case array  => cases hk
  case scalar hs =>
    dsimp only at hk
    subst hk
    simp at hs

theorem Begins.of_arrayStart (h : p.Begins stack) (hk : p.kind = .arrayStart) :
    p = ⟨.arrayStart, .valueOrEnd, .array :: stack⟩ := by
  cases h
  case object => cases hk
  case array  => rfl
  case scalar hs =>
    dsimp only at hk
    subst hk
    simp at hs

theorem AtMember.of_name (h : p.AtMember stack) (hk : p.kind = .fieldName) :
    p = ⟨.fieldName, .value, .object :: stack⟩ := by
  rcases h with rfl | rfl
  · rfl
  · cases hk

theorem AtMember.ends (h : p.AtMember stack) (hk : p.kind ≠ .fieldName) :
    p.kind = .objectEnd ∧ p.Ends stack := by
  rcases h with rfl | rfl
  · exact absurd rfl hk
  · exact ⟨rfl, rfl, rfl⟩

theorem AtItem.begins (h : p.AtItem stack) (hk : p.kind ≠ .arrayEnd) :
    p.Begins (.array :: stack) := by
  rcases h with h | rfl
  · exact h
  · exact absurd rfl hk

theorem AtItem.ends (h : p.AtItem stack) (hk : p.kind = .arrayEnd) : p.Ends stack := by
  rcases h with h | rfl
  · cases h
    case scalar hs =>
      dsimp only at hk
      subst hk
      simp at hs
    all_goals cases hk
  · exact ⟨rfl, rfl⟩

theorem Begins.ends (h : p.Begins stack) (hk : p.kind.opensContainer = false) : p.Ends stack := by
  cases h
  case scalar => exact ⟨rfl, rfl⟩
  all_goals cases hk

theorem Begins.opens (h : p.Begins stack) (hk : p.kind.opensContainer) :
    ∃ container, p.stack = container :: stack := by
  cases h
  case object    => exact ⟨_, rfl⟩
  case array     => exact ⟨_, rfl⟩
  case scalar hs =>
    simp only [List.mem_cons, List.not_mem_nil, or_false] at hs
    rcases hs with rfl | rfl | rfl | rfl | rfl | rfl <;> cases hk

theorem Begins.suffix (h : p.Begins stack) : stack <:+ p.stack := by
  cases h
  case scalar => exact List.suffix_rfl
  all_goals exact List.suffix_cons ..

-- Where a container starts, it is opened.
theorem Begins.of_first {container : Container} (h : p.Begins stack)
    (hk : p.kind = container.first) : p.stack = container :: stack := by
  cases container
  case object => rw [h.of_objectStart hk]
  case array  => rw [h.of_arrayStart hk]

namespace Moves

variable (h : p.Moves q)
include h

theorem begins (he : p.expect = .value) : q.Begins p.stack := by
  cases h
  case value hq => exact hq
  all_goals simp_all

theorem atItem (hs : p.stack = .array :: stack) (he : p.expect ≠ .value) : q.AtItem stack := by
  cases h
  case value he' _ => exact absurd he' he
  case item hq     => exact .inl (hs ▸ hq)
  case arrayEnd hs' =>
    rw [hs] at hs'
    cases hs'
    exact .inr rfl
  all_goals simp_all

theorem atMember (hs : p.stack = .object :: stack) (he : p.expect ≠ .value) : q.AtMember stack := by
  cases h
  case value he' _ => exact absurd he' he
  case name         => exact .inl (by rw [hs])
  case objectEnd hs' =>
    rw [hs] at hs'
    cases hs'
    exact .inr rfl
  all_goals simp_all

-- What is open stays open, unless the token is the end of the innermost container.
theorem keeps_or_closes : p.stack <:+ q.stack ∨
    ∃ container, p.stack = container :: q.stack ∧ q.kind = container.last := by
  cases h
  case value hq        => exact .inl hq.suffix
  case item hq         => exact .inl hq.suffix
  case name            => exact .inl List.suffix_rfl
  case arrayEnd hs     => exact .inr ⟨.array, hs, rfl⟩
  case objectEnd hs    => exact .inr ⟨.object, hs, rfl⟩

-- No container starts but as the value that is next.
theorem begins_of_opens (hk : q.kind.opensContainer) : q.Begins p.stack := by
  cases h
  case value hq => exact hq
  case item hq  => exact hq
  all_goals cases hk

end Moves

theorem Begins.skips {inner : List Container} (h : q.Begins (inner ++ stack)) (hi : inner ≠ []) :
    ∃ inner', q.stack = inner' ++ stack ∧
      inner'.length = Cursor.depthAfter inner.length q.kind ∧ inner' ≠ [] := by
  cases h
  case object    => exact ⟨.object :: inner, rfl, rfl, List.cons_ne_nil _ _⟩
  case array     => exact ⟨.array :: inner, rfl, rfl, List.cons_ne_nil _ _⟩
  case scalar hk =>
    simp only [List.mem_cons, List.not_mem_nil, or_false] at hk
    rcases hk with rfl | rfl | rfl | rfl | rfl | rfl <;> exact ⟨inner, rfl, rfl, hi⟩

-- Among containers that are being skipped, of which `inner` are open, the last end is the end of
-- what is skipped.
theorem Moves.skips {inner : List Container} (h : p.Moves q) (hs : p.stack = inner ++ stack)
    (hi : inner ≠ []) : ∃ inner', q.stack = inner' ++ stack ∧
      inner'.length = Cursor.depthAfter inner.length q.kind ∧ (inner' = [] → q.Ends stack) := by
  have begins (hq : q.Begins p.stack) : ∃ inner', q.stack = inner' ++ stack ∧
      inner'.length = Cursor.depthAfter inner.length q.kind ∧ (inner' = [] → q.Ends stack) := by
    have ⟨inner', hs, hl, hi⟩ := (hs ▸ hq).skips hi
    exact ⟨inner', hs, hl, fun he => absurd he hi⟩
  have ⟨container, inner', hc⟩ := List.exists_cons_of_ne_nil hi
  subst hc
  cases h
  case value hq => exact begins hq
  case item hq  => exact begins hq
  case name     => exact ⟨_, hs, rfl, fun he => absurd he hi⟩
  case arrayEnd hs' =>
    have ⟨_, hs⟩ := List.cons.inj (hs'.symm.trans hs)
    exact ⟨inner', hs, rfl, fun he => by subst he; exact ⟨by rw [hs]; rfl, hs⟩⟩
  case objectEnd hs' =>
    have ⟨_, hs⟩ := List.cons.inj (hs'.symm.trans hs)
    exact ⟨inner', hs, rfl, fun he => by subst he; exact ⟨by rw [hs]; rfl, hs⟩⟩

end Place

-- How a cursor goes on while containers inside of `base` are open: what holds of it on the way, and
-- of the errors that stop it.
structure Walk where
  base : List Container
  On : TextCursor → Prop
  Fails : CursorError → Prop
  advance {c : TextCursor} {inner : List Container} : On c → c.stack = inner ++ base → inner ≠ [] →
    (TextCursor.advance.run c).Satisfies (fun _ c' => On c' ∧ c.place.Moves c'.place)
      fun e _ => Fails e

namespace Walk

variable (w : Walk) (inner : List Container)

-- The cursor is on the first token of a value that is inside of these containers.
structure Before (c : TextCursor) : Prop where
  on : w.On c
  begins : c.place.Begins (inner ++ w.base)

-- The cursor is on the last token of such a value.
structure Behind (c : TextCursor) : Prop where
  on : w.On c
  ends : c.place.Ends (inner ++ w.base)

-- A cursor on the name of a member, or on the end of its object.
structure AtMember (c : TextCursor) : Prop where
  on : w.On c
  place : c.place.AtMember (inner ++ w.base)

-- A cursor on the first token of an item, or on the end of its array.
structure AtItem (c : TextCursor) : Prop where
  on : w.On c
  place : c.place.AtItem (inner ++ w.base)

-- In a container that is being skipped, where so many containers were open before the token.
structure Skipping (depth : Nat) (c : TextCursor) : Prop where
  on : w.On c
  inside : ∃ inside, c.stack = inside ++ (inner ++ w.base) ∧
    inside.length = Cursor.depthAfter depth c.kind ∧ (inside = [] → c.place.Ends (inner ++ w.base))

variable {w inner} {c : TextCursor} {P Q : TextCursor → Prop}

theorem advance_meets (on : ∀ {c}, P c → w.On c)
    (inside : ∀ {c}, P c → ∃ container inner, c.stack = container :: (inner ++ w.base))
    (moves : ∀ {c c'}, P c → w.On c' → c.place.Moves c'.place → Q c') :
    Cursor.advance.Meets P (fun _ => Q) fun e _ => w.Fails e := by
  intro c hc
  have ⟨container, inner, hs⟩ := inside hc
  have hs : c.stack = (container :: inner) ++ w.base := hs
  have sat := w.advance (on hc) hs (List.cons_ne_nil _ _)
  show (TextCursor.advance.run c).Satisfies _ _
  generalize TextCursor.advance.run c = o at sat
  cases sat
  case ok h    => exact .ok (moves hc h.1 h.2)
  case error h => exact .error h

-- The step of skipping.
theorem Skipping.step {depth before : Nat} (h : w.Skipping inner before c)
    (hd : Cursor.depthAfter before c.kind = depth + 1) :
    (∃ container inner, c.stack = container :: (inner ++ w.base)) ∧
      ∀ {c'}, w.On c' → c.place.Moves c'.place → w.Skipping inner (depth + 1) c' := by
  have ⟨inside, hs, hl, _⟩ := h.inside
  rw [hd] at hl
  have hi : inside ≠ [] := List.ne_nil_of_length_eq_add_one hl
  refine ⟨?_, fun hc' hm => ?_⟩
  · have ⟨container, inside', hi⟩ := List.exists_cons_of_ne_nil hi
    exact ⟨container, inside' ++ inner, by rw [hs, hi, List.cons_append, List.append_assoc]⟩
  · have ⟨inside', hs', hl', he⟩ := hm.skips hs hi
    exact ⟨hc', inside', hs', hl ▸ hl', he⟩

theorem skipValue_meets :
    Cursor.skipValue.Meets (w.Before inner) (fun _ => w.Behind inner) fun e _ => w.Fails e := by
  refine Meets.skipValue (J := w.Skipping inner) ?scalar ?start ?more ?stop
  case scalar => exact fun h hk => ⟨h.on, h.begins.ends hk⟩
  case start =>
    refine advance_meets (fun h => h.1.on) (fun {c} ⟨h, hk⟩ => ?_)
      fun {c c'} ⟨h, hk⟩ hc' hm => ?_
    · have ⟨container, (hs : c.stack = _)⟩ := h.begins.opens hk
      exact ⟨container, inner, hs⟩
    · have ⟨container, hs⟩ := h.begins.opens hk
      have hs : c.stack = [container] ++ (inner ++ w.base) := hs
      exact ⟨hc', hm.skips hs (List.cons_ne_nil _ _)⟩
  case more =>
    intro depth
    exact advance_meets (fun ⟨_, h, _⟩ => h.on) (fun ⟨_, h, hd⟩ => (h.step hd).1)
      fun ⟨_, h, hd⟩ => (h.step hd).2
  case stop =>
    intro depth c h hd
    have ⟨_, _, hl, he⟩ := h.inside
    exact ⟨h.on, he (List.length_eq_zero_iff.mp (hl.trans hd))⟩

-- From the name of a member to its value.
theorem advance_to_value :
    Cursor.advance.Meets (fun c => w.AtMember inner c ∧ c.kind = .fieldName)
      (fun _ => w.Before (.object :: inner)) fun e _ => w.Fails e := by
  refine advance_meets (fun h => h.1.on) (fun {c} ⟨h, hk⟩ => ?_) fun ⟨h, hk⟩ hc' hm => ⟨hc', ?_⟩
  · exact ⟨_, inner, congrArg Place.stack (h.place.of_name hk)⟩
  · have begins := hm.begins (by rw [h.place.of_name hk])
    rwa [h.place.of_name hk] at begins

-- From one member to the next.
theorem advance_to_member : Cursor.advance.Meets (w.Behind (.object :: inner))
    (fun _ => w.AtMember inner) fun e _ => w.Fails e := by
  refine advance_meets (fun h => h.on) (fun h => ⟨_, inner, h.ends.stack⟩)
    fun h hc' hm => ⟨hc', ?_⟩
  exact hm.atMember h.ends.stack (by rw [h.ends.expect]; nofun)

theorem advance_to_first_member :
    Cursor.advance.Meets (fun c => w.Before inner c ∧ c.kind = .objectStart)
      (fun _ => w.AtMember inner) fun e _ => w.Fails e := by
  refine advance_meets (fun h => h.1.on) (fun {c} ⟨h, hk⟩ => ?_) fun ⟨h, hk⟩ hc' hm => ⟨hc', ?_⟩
  · exact ⟨_, inner, congrArg Place.stack (h.begins.of_objectStart hk)⟩
  · refine hm.atMember ?_ ?_ <;> simp [h.begins.of_objectStart hk]

theorem advance_to_item : Cursor.advance.Meets (w.Behind (.array :: inner))
    (fun _ => w.AtItem inner) fun e _ => w.Fails e := by
  refine advance_meets (fun h => h.on) (fun h => ⟨_, inner, h.ends.stack⟩)
    fun h hc' hm => ⟨hc', ?_⟩
  exact hm.atItem h.ends.stack (by rw [h.ends.expect]; nofun)

theorem advance_to_first_item :
    Cursor.advance.Meets (fun c => w.Before inner c ∧ c.kind = .arrayStart)
      (fun _ => w.AtItem inner) fun e _ => w.Fails e := by
  refine advance_meets (fun h => h.1.on) (fun {c} ⟨h, hk⟩ => ?_) fun ⟨h, hk⟩ hc' hm => ⟨hc', ?_⟩
  · exact ⟨_, inner, congrArg Place.stack (h.begins.of_arrayStart hk)⟩
  · refine hm.atItem ?_ ?_ <;> simp [h.begins.of_arrayStart hk]

end Walk

namespace TextCursor

-- The cursor moves on while these containers are open.
def Inside (stack : List Container) (c c' : TextCursor) : Prop :=
  stack <:+ c.stack ∧ advance.run c = .ok () c'

-- The cursor moves on some number of times.
abbrev Trail (stack : List Container) : TextCursor → TextCursor → Prop :=
  Relation.ReflTransGen (Inside stack)

-- A cursor that was moved on over some bytes, and did nothing else.
def Reached (source : List UInt8) (c : TextCursor) : Prop :=
  Trail [] (initial source) c

variable {c c' : TextCursor} {container : Container} {base : List Container}

theorem not_cons_suffix : ¬container :: base <:+ base :=
  fun h => Nat.not_succ_le_self _ h.length_le

theorem moves_of_advance (hs : c.expect.Suits c.stack) (h : advance.run c = .ok () c') :
    c.place.Moves c'.place := by
  have goes := advance_goes (p := c.place) hs (s := c) rfl
  rw [h] at goes
  cases goes
  case ok moves => exact moves

theorem ofBytes_eq_ok_iff {source : List UInt8} :
    ofBytes source = .ok c ↔ advance.run (initial source) = .ok () c := by
  rw [ofBytes]
  cases advance.run (initial source) <;> simp

theorem begins_of_ofBytes {source : List UInt8} (h : ofBytes source = .ok c) :
    c.place.Begins [] := by
  have moves := moves_of_advance (c := initial source) trivial (ofBytes_eq_ok_iff.mp h)
  exact moves.begins rfl

theorem Reached.suits {source : List UInt8} (h : Reached source c) : c.expect.Suits c.stack := by
  induction h
  case refl          => trivial
  case tail step ih => exact (moves_of_advance ih step.2).within.suits

-- Inside of the container that was entered first, or at the end of it.
structure OnTrail (start : TextCursor) (container : Container) (base : List Container)
    (c : TextCursor) : Prop where
  suits : c.expect.Suits c.stack
  trail : Trail (container :: base) start c
  inside : container :: base <:+ c.stack ∨ c.stack = base ∧ c.kind = container.last

theorem OnTrail.first (begins : c.place.Begins base) (hk : c.kind = container.first) :
    OnTrail c container base c where
  suits := begins.within.suits
  trail := .refl
  inside := .inl ((begins.of_first hk : c.stack = _) ▸ List.suffix_rfl)

theorem OnTrail.advance {start : TextCursor} (h : OnTrail start container base c)
    (hs : c.stack ≠ base) (hr : advance.run c = .ok () c') :
    OnTrail start container base c' ∧ c.place.Moves c'.place := by
  have moves := moves_of_advance h.suits hr
  have inside : container :: base <:+ c.stack := h.inside.resolve_right fun he => hs he.1
  refine ⟨⟨moves.within.suits, h.trail.tail ⟨inside, hr⟩, ?_⟩, moves⟩
  rcases moves.keeps_or_closes with keeps | ⟨last, closes, kind⟩
  case inl => exact .inl (inside.trans keeps)
  case inr =>
    have closes : c.stack = last :: c'.stack := closes
    rw [closes] at inside
    rcases List.suffix_cons_iff.mp inside with he | inside
    case inr => exact .inl inside
    case inl =>
      have ⟨hl, hb⟩ := List.cons.inj he
      exact .inr ⟨hb.symm, hl ▸ kind⟩

-- The walk from the start of a container to its end.
def throughContainer (start : TextCursor) (container : Container) (base : List Container) :
    Walk where
  base := base
  On := OnTrail start container base
  Fails _ := True
  advance {c inner} h hs hi := by
    have ne : c.stack ≠ base := fun he => hi (List.append_left_eq_self.mp (hs.symm.trans he))
    cases hr : TextCursor.advance.run c
    case ok    => exact .ok (h.advance ne hr)
    case error => exact .error trivial

-- Leaving the containers that are open inside of a value goes along the trail. The induction is on
-- the trail from its first step on: what a step opens or closes is what is counted.
theorem run_leave {inner : List Container} (hs : c.expect.Suits c.stack)
    (trail : Trail (container :: base) c c') (hc : c.stack = inner ++ base)
    (hc' : c'.stack = base) : (Cursor.leave inner.length).run c = .ok () c' := by
  induction trail using Relation.ReflTransGen.head_induction_on generalizing inner
  case refl =>
    have empty : inner = [] := List.append_left_eq_self.mp (hc.symm.trans hc')
    subst empty
    rfl
  case head c d step _ ih =>
    have ⟨inside, (hr : Cursor.advance.run c = .ok () d)⟩ := step
    have moves := moves_of_advance hs hr
    have hi : inner ≠ [] := by
      rintro rfl
      exact not_cons_suffix ((show c.stack = base from hc) ▸ inside)
    have ⟨inner', hs', hl, _⟩ := moves.skips hc hi
    have rest := ih moves.within.suits hs'
    rw [hl] at rest
    obtain ⟨_, outer, rfl⟩ := List.exists_cons_of_ne_nil hi
    rw [List.length_cons, Cursor.leave_succ, run_bind_of_ok hr]
    exact rest

section Skipping

variable (begins : c.place.Begins base) (hk : c.kind = container.first)
include begins hk

-- Where skipping a container stops, this very container ends.
theorem ends_of_skipValue_ok (h : Cursor.skipValue.run c = .ok () c') :
    Trail (container :: base) c c' ∧ c'.stack = base ∧ c'.kind = container.last := by
  have start : OnTrail c container base c := .first begins hk
  have before : (throughContainer c container base).Before [] c := ⟨start, begins⟩
  have sat := Walk.skipValue_meets before
  rw [h] at sat
  cases sat
  case ok behind =>
    have stack : c'.stack = base := behind.ends.stack
    refine ⟨behind.on.trail, stack, ?_⟩
    rcases behind.on.inside with inside | ⟨_, kind⟩
    case inr => exact kind
    case inl => exact absurd (stack ▸ inside) not_cons_suffix

-- A container is skipped if it can be walked through.
theorem skipValue_of_trail (trail : Trail (container :: base) c c') (hc' : c'.stack = base) :
    Cursor.skipValue.run c = .ok () c' := by
  have hc : c.stack = [container] ++ base := begins.of_first hk
  have opens : Cursor.depthAfter 0 c.kind = 1 := by
    rw [hk]
    cases container <;> rfl
  rw [Cursor.skipValue_eq, ← run_leave begins.within.suits trail hc hc']
  exact congrArg (fun n => (Cursor.leave n).run c) opens

end Skipping
end TextCursor
end RecordDecoding
