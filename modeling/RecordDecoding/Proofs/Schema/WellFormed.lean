import RecordDecoding.Proofs.Schema.Registry

namespace RecordDecoding

structure Schema.WellFormed (s : Schema) : Prop where
  names    : (s.fields.map (·.name)).Nodup
  ordinals : s.fields.map (·.ordinal) = List.range s.length

namespace SchemaSet

structure WellFormed (set : SchemaSet) : Prop where
  schemas : ∀ s ∈ set.schemas, s.WellFormed
  closed  : ∀ s ∈ set.schemas, ∀ f ∈ s.fields, ∀ id ∈ f.kind.target?, id.index < set.schemas.length

namespace WellFormed

variable {set : SchemaSet} {id : SchemaId} {s : Schema} (wf : set.WellFormed)
include wf

theorem get? (h : set.get? id = some s) : s.WellFormed :=
  wf.schemas s <| List.mem_of_getElem? h

end WellFormed
end SchemaSet

namespace Schema

variable {s : Schema} {f : Field} {name : String}

theorem mem_of_fieldNamed? (h : s.fieldNamed? name = some f) : f ∈ s.fields :=
  List.mem_of_find?_eq_some h

theorem name_of_fieldNamed? (h : s.fieldNamed? name = some f) : f.name = name := by
  simpa using List.find?_some h

theorem fieldNamed?_eq_none_iff : s.fieldNamed? name = none ↔ ∀ f ∈ s.fields, f.name ≠ name := by
  simp [fieldNamed?]

namespace WellFormed

theorem eq_of_name_eq {g : Field} (wf : s.WellFormed) (hf : f ∈ s.fields) (hg : g ∈ s.fields)
    (h : f.name = g.name) : f = g :=
  List.inj_on_of_nodup_map wf.names hf hg h

theorem fieldNamed?_name (wf : s.WellFormed) (h : f ∈ s.fields) :
    s.fieldNamed? f.name = some f := by
  cases hg : s.fieldNamed? f.name
  case none   => exact absurd rfl (fieldNamed?_eq_none_iff.mp hg f h)
  case some g =>
    exact congrArg _ <| wf.eq_of_name_eq (mem_of_fieldNamed? hg) h (name_of_fieldNamed? hg)

theorem ordinal_getElem (wf : s.WellFormed) {i : Nat} (h : i < s.fields.length) :
    s.fields[i].ordinal = i := by
  have := congrArg (·[i]?) wf.ordinals
  simpa [h, length] using this

theorem field?_ordinal (wf : s.WellFormed) (h : f ∈ s.fields) : s.field? f.ordinal = some f := by
  have ⟨i, hi, hf⟩ := List.getElem_of_mem h
  have ho := wf.ordinal_getElem hi
  rw [hf] at ho
  simp [field?, ho, hi, hf]

theorem ordinal_lt (wf : s.WellFormed) (h : f ∈ s.fields) : f.ordinal < s.length := by
  have ⟨hlt, _⟩ := List.getElem?_eq_some_iff.mp (wf.field?_ordinal h)
  exact hlt

theorem eq_of_ordinal_eq {g : Field} (wf : s.WellFormed) (hf : f ∈ s.fields) (hg : g ∈ s.fields)
    (h : f.ordinal = g.ordinal) : f = g :=
  Option.some.inj <| wf.field?_ordinal hf ▸ wf.field?_ordinal hg ▸ congrArg s.field? h

theorem ordinalOf?_eq_some_iff (wf : s.WellFormed) {name : String} {n : Nat} :
    s.ordinalOf? name = some n ↔ ∃ f ∈ s.fields, f.name = name ∧ f.ordinal = n := by
  rw [ordinalOf?, Option.map_eq_some_iff]
  constructor
  case mp =>
    rintro ⟨f, hf, rfl⟩
    exact ⟨f, mem_of_fieldNamed? hf, name_of_fieldNamed? hf, rfl⟩
  case mpr =>
    rintro ⟨f, hf, rfl, rfl⟩
    exact ⟨f, wf.fieldNamed?_name hf, rfl⟩

end WellFormed
end Schema

namespace TypeDecl

theorem build_wellFormed {t : TypeDecl} {types : List String} {id : SchemaId} {s : Schema}
    (h : t.build types id = .ok s) :
    s.WellFormed ∧ ∀ f ∈ s.fields, ∀ id ∈ f.kind.target?, id.index < types.length := by
  have ⟨ds, hd, h⟩ := ok_of_bind_ok h
  have ⟨fields, hr, h⟩ := ok_of_bind_ok h
  cases h
  have ⟨hn, _, _, ht⟩ := resolveFields_ok hr
  have hp := perm_of_resolveFields hd hr
  have perm := byOrdinal_perm hp
  have wf : Schema.WellFormed ⟨id, t.name, byOrdinal fields⟩ := {
    names := (perm.map _).nodup_iff.mpr hn
    ordinals := by rw [byOrdinal_ordinals hp, Schema.length, perm.length_eq]
  }
  exact ⟨wf, fun f hf => ht f (perm.mem_iff.mp hf)⟩

end TypeDecl

theorem SchemaSet.wellFormed_of_build {types : List TypeDecl} {set : SchemaSet}
    (h : SchemaSet.build types = .ok set) : set.WellFormed := by
  rw [SchemaSet.build_eq] at h
  split at h
  case h_1 => cases h
  case h_2 =>
    have ⟨schemas, hm, h⟩ := ok_of_bind_ok h
    cases h
    have hl : schemas.length = types.length := by simpa using length_of_mapM_ok hm
    have built : ∀ s ∈ schemas, s.WellFormed ∧
        ∀ f ∈ s.fields, ∀ id ∈ f.kind.target?, id.index < schemas.length := by
      intro s hs
      have ⟨_, _, hb⟩ := mem_of_mapM_ok hm hs
      simpa [hl] using TypeDecl.build_wellFormed hb
    exact { schemas := fun s hs => (built s hs).1, closed := fun s hs => (built s hs).2 }

end RecordDecoding
