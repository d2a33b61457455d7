import RecordDecoding.Proofs.Schema.WellFormed

namespace RecordDecoding

-- The scalars in a field, be it in lists.
def FieldKind.scalar? : FieldKind → Option ScalarKind
  | scalar k             => some k
  | nested _ | recursive => none
  | list inner           => inner.scalar?

-- A kind of field that refers to these schemas and has these scalars.
structure FieldKind.Among (set : SchemaSet) (schemas : Schema → Prop) (scalars : ScalarKind → Prop)
    (k : FieldKind) : Prop where
  target : ∀ id ∈ k.target?, ∃ target, set.get? id = some target ∧ schemas target
  scalar : ∀ s ∈ k.scalar?, scalars s

namespace SchemaSet

structure Scope (set : SchemaSet) where
  schemas : Schema → Prop
  scalars : ScalarKind → Prop
  wellFormed {s : Schema} : schemas s → s.WellFormed
  among {s : Schema} {f : Field} : schemas s → f ∈ s.fields → f.kind.Among set schemas scalars

variable {set : SchemaSet}

-- The kinds of fields that a scope has.
abbrev Scope.Has (scope : set.Scope) (k : FieldKind) : Prop :=
  k.Among set scope.schemas scope.scalars

namespace Scope

variable {scope : set.Scope}

theorem Has.inner {inner : FieldKind} (h : scope.Has (.list inner)) : scope.Has inner :=
  ⟨h.target, h.scalar⟩

theorem has_recursive : scope.Has .recursive where
  target := by simp [FieldKind.target?]
  scalar := by simp [FieldKind.scalar?]

theorem Has.get {id : SchemaId} (h : scope.Has (.nested id)) :
    ∃ target, set.get? id = some target ∧ scope.schemas target :=
  h.target id rfl

end Scope

-- All schemas of a set.
def WellFormed.all (wf : set.WellFormed) : set.Scope where
  schemas s := s ∈ set.schemas
  scalars _ := True
  wellFormed hs := wf.schemas _ hs
  among hs hf := {
    target := fun id hi => by
      have lt := wf.closed _ hs _ hf id hi
      exact ⟨_, List.getElem?_eq_getElem lt, List.getElem_mem lt⟩
    scalar := fun _ _ => trivial
  }

-- The schemas that are met on the way from one.
inductive Reaches (set : SchemaSet) (root : Schema) : Schema → Prop
  | root : Reaches set root root
  | target {s f id target} : Reaches set root s → f ∈ s.fields → f.kind.target? = some id →
    set.get? id = some target → Reaches set root target

theorem Reaches.mem {root s : Schema} (h : set.Reaches root s) (hr : root ∈ set.schemas) :
    s ∈ set.schemas := by
  cases h
  case root          => exact hr
  case target _ _ ht => exact List.mem_of_getElem? ht

-- The schemas that are met from one, where all scalars on the way are of some sort.
def WellFormed.reached (wf : set.WellFormed) {root : Schema} (hr : root ∈ set.schemas)
    {scalars : ScalarKind → Prop}
    (h : ∀ s, set.Reaches root s → ∀ f ∈ s.fields, ∀ k ∈ f.kind.scalar?, scalars k) :
    set.Scope where
  schemas := set.Reaches root
  scalars := scalars
  wellFormed hs := wf.schemas _ (hs.mem hr)
  among {s f} hs hf := {
    target := fun id hi => by
      have lt := wf.closed _ (hs.mem hr) _ hf id hi
      have ht := List.getElem?_eq_getElem lt
      exact ⟨_, ht, .target hs hf hi ht⟩
    scalar := h s hs f hf
  }

end SchemaSet
end RecordDecoding
