import RecordDecoding.Proofs.Schema.Declaring

namespace RecordDecoding

-- What is stored in a registry is what there is in its set.
structure Registry.Agrees (r : Registry) : Prop where
  types  : ∀ name, r.idOf? name = r.set.idOf? name
  fields : ∀ s ∈ r.schemas, ∀ name, s.ordinalOf? name = s.schema.ordinalOf? name
  seeds  : ∀ s ∈ r.schemas, s.seed = s.schema.seed

theorem TypeDecl.stored_of_register {names : List String} {table : Table SchemaId} {id : SchemaId}
    (h : table.Places names) {t : TypeDecl}
    {s : StoredSchema} (registered : t.register table id = .ok s) :
    (∀ name, s.ordinalOf? name = s.schema.ordinalOf? name) ∧ s.seed = s.schema.seed := by
  have built : (t.register table id).map (·.schema) = t.build names id := map_schema_register h t
  rw [registered] at built
  have ⟨wf, _⟩ := build_wellFormed built.symm
  rw [register_eq h] at registered
  obtain ⟨ds, ordinals, registered⟩ := ok_of_bind_ok registered
  obtain ⟨fields, resolved, registered⟩ := ok_of_bind_ok registered
  cases registered
  have once : ((fields.map fun f => (f.name, f.ordinal)).reverse.map (·.1)).Nodup := by
    rw [List.map_reverse, List.map_map]
    exact List.nodup_reverse.mpr (resolveFields_ok resolved).1
  refine ⟨fun name => Option.ext fun n => ?_, rfl⟩
  rw [wf.ordinalOf?_eq_some_iff, StoredSchema.ordinalOf?, Table.lookup_eq_some_iff once]
  simp only [List.mem_reverse, List.mem_map, Prod.mk.injEq,
    (byOrdinal_perm (perm_of_resolveFields ordinals resolved)).mem_iff]

namespace Registry

variable {types : List TypeDecl} {r : Registry}

theorem ok_of_build (h : build types = .ok r) : SchemaSet.build types = .ok r.set := by
  rw [SchemaSet.build, h]
  rfl

theorem exists_of_build {set : SchemaSet} (h : SchemaSet.build types = .ok set) :
    ∃ r, build types = .ok r ∧ r.set = set := by
  rw [SchemaSet.build] at h
  cases hr : build types <;> rw [hr] at h <;> cases h
  exact ⟨_, rfl, rfl⟩

-- A table of names is filled with the places of the types, and the types are registered with it.
theorem parts_of_build (h : build types = .ok r) :
    r.byName.Places (types.map (·.name)) ∧
      ∀ s ∈ r.schemas, ∃ p ∈ types.zipIdx, p.1.register r.byName ⟨p.2⟩ = .ok s := by
  have once := (SchemaSet.yields_of_build (ok_of_build h)).1
  obtain ⟨byName, entered, h⟩ := ok_of_bind_ok h
  obtain ⟨schemas, registered, h⟩ := ok_of_bind_ok h
  cases h
  refine ⟨?_, fun s hs => mem_of_mapM_ok registered hs⟩
  rw [enterTypes_eq, TypeDecl.names_zipIdx, List.map_nil,
    firstRepeated?_eq_none_iff.mpr ⟨once, by simp⟩] at entered
  cases entered
  rw [List.append_nil]
  exact places_entries once

theorem agrees_of_build (h : build types = .ok r) : r.Agrees where
  types name := by
    have registers := SchemaSet.registers_of_build (ok_of_build h)
    have once := (SchemaSet.yields_of_build (ok_of_build h)).1
    refine Option.ext fun id => ?_
    rw [registers.named, idOf?, (parts_of_build h).1 name, Option.map_eq_some_iff]
    simp only [idxOf?_eq_some_iff once]
    rw [SchemaSet.names_eq registers.types]
    simp only [List.getElem?_map, Option.map_eq_some_iff]
    constructor
    case mp =>
      rintro ⟨_, ⟨s, hs, rfl⟩, rfl⟩
      exact ⟨s, hs, rfl⟩
    case mpr =>
      rintro ⟨s, hs, rfl⟩
      exact ⟨id.index, ⟨s, hs, rfl⟩, rfl⟩
  fields s hs :=
    have ⟨places, registered⟩ := parts_of_build h
    have ⟨_, _, hr⟩ := registered s hs
    (TypeDecl.stored_of_register places hr).1
  seeds s hs :=
    have ⟨places, registered⟩ := parts_of_build h
    have ⟨_, _, hr⟩ := registered s hs
    (TypeDecl.stored_of_register places hr).2

end Registry
end RecordDecoding
