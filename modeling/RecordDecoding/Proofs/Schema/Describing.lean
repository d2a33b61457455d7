import RecordDecoding.Proofs.Schema.Stored
import RecordDecoding.Proofs.Schema.TypeSpec
import RecordDecoding.Schema.Document

namespace RecordDecoding

variable {types : List String} {set : SchemaSet} {s : Schema}

theorem SchemaSet.describe_eq {t : FieldType} {k : FieldKind}
    (h : t.Resolves (set.schemas.map (·.typeName)) s.typeName k) : set.describe s k = t.spell := by
  induction h
  case scalar    => rfl
  case owner     => rfl
  case list ih   => rw [describe, ih, FieldType.spell]
  case other hi  =>
    rw [List.getElem?_map] at hi
    rw [describe, get?, hi, Option.getD_some, FieldType.spell]

-- The declaration of a field that pins its ordinal.
structure FieldDecl.Restates (types : List String) (owner : String) (d : FieldDecl)
    (f : Field) : Prop where
  yields : FieldDecl.Yields types owner (d, f.ordinal) f
  pinned : d.pinned = some f.ordinal

-- The declaration of a schema that has its fields in their order.
structure TypeDecl.Restates (types : List String) (t : TypeDecl) (s : Schema) : Prop where
  name   : t.name = s.typeName
  fields : List.Forall₂ (FieldDecl.Restates types s.typeName) t.fields s.fields

namespace TypeDecl.Restates

variable {t : TypeDecl} (h : t.Restates types s)
include h

theorem valid (wf : s.WellFormed) (hm : s.typeName ∈ types) : t.Valid types where
  names := by
    have names := map_eq_of_forall₂ <| h.fields.imp fun _ _ hr => hr.yields.name.symm
    exact names ▸ wf.names
  ordinals := by
    have pinned := map_eq_of_forall₂ <| h.fields.imp fun _ _ hr => hr.pinned
    have ordinals : s.fields.map (fun f => some f.ordinal) = (List.range s.length).map some := by
      rw [← wf.ordinals, List.map_map]
      rfl
    rw [ValidOrdinals, pinned, ordinals, h.fields.length_eq]
    exact .inr (.refl _)
  targets d hd := by
    obtain ⟨f, _, hr⟩ := exists_right_of_forall₂ h.fields hd
    exact hr.yields.kind.target_mem hm

theorem yields : t.Yields types s where
  typeName := h.name.symm
  fields := by
    refine ⟨s.fields, ?_, .refl _⟩
    rw [placed, List.forall₂_map_left_iff, h.name]
    have fields := h.fields
    rw [← List.zipIdx_map_fst 0 t.fields, List.forall₂_map_left_iff] at fields
    refine fields.imp fun p f hr => ?_
    simpa [hr.pinned] using hr.yields

end TypeDecl.Restates

-- A set can be spelled if each field has a type that can be.
def SchemaSet.Spellable (set : SchemaSet) : Prop :=
  ∀ s ∈ set.schemas, ∀ f ∈ s.fields, ∃ t : FieldType, t.Spellable ∧
    t.Resolves (set.schemas.map (·.typeName)) s.typeName f.kind

theorem FieldDoc.exists_declare {f : Field} (h : set.Spellable) (hs : s ∈ set.schemas)
    (hf : f ∈ s.fields) : ∃ d, (FieldDoc.ofField set s f).declare s.typeName = .ok d ∧
      d.Restates (set.schemas.map (·.typeName)) s.typeName f := by
  have ⟨t, ht, hk⟩ := h s hs f hf
  refine ⟨⟨f.name, t, f.nullable, f.triState, some f.ordinal⟩, ?_, ⟨rfl, rfl, hk, rfl, rfl⟩, rfl⟩
  rw [declare, ofField, SchemaSet.describe_eq hk, TypeSpec.parse?_spell ht]

theorem TypeDoc.exists_declare (h : set.Spellable) (hs : s ∈ set.schemas) :
    ∃ t, TypeDoc.declare ⟨s.typeName, s.fields.map (.ofField set s)⟩ = .ok t ∧
      t.Restates (set.schemas.map (·.typeName)) s := by
  have ⟨ds, hds⟩ := exists_forall₂ fun f hf => FieldDoc.exists_declare h hs hf
  have declared := mapM_ok_iff.mpr <|
    List.forall₂_map_left_iff.mpr <| hds.imp fun _ _ hd => hd.1
  refine ⟨⟨s.typeName, ds⟩, ?_, rfl, (hds.imp fun _ _ hd => hd.2).flip⟩
  rw [declare, declared]
  rfl

namespace SchemaSet

variable {decls restated : List TypeDecl}

theorem build_restated (built : SchemaSet.build decls = .ok set)
    (h : List.Forall₂ (TypeDecl.Restates (set.schemas.map (·.typeName))) restated set.schemas) :
    SchemaSet.build restated = .ok set := by
  have wf := wellFormed_of_build built
  have registers := registers_of_build built
  have names : restated.map (·.name) = set.schemas.map (·.typeName) :=
    map_eq_of_forall₂ (h.imp fun _ _ hr => hr.name)
  refine build_of_registers ⟨?names, ?types⟩ ?registers
  case names =>
    rw [names, ← names_eq registers.types]
    exact (valid_of_build built).names
  case types =>
    intro t ht
    have ⟨s, hs, hr⟩ := exists_right_of_forall₂ h ht
    exact names ▸ hr.valid (wf.schemas s hs) (List.mem_map_of_mem hs)
  case registers => exact { registers with types := h.imp fun _ _ hr => hr.yields }

theorem exists_resolves (built : SchemaSet.build decls = .ok set) (hs : s ∈ set.schemas)
    {f : Field} (hf : f ∈ s.fields) : ∃ t ∈ decls, ∃ d ∈ t.fields,
      d.type.Resolves (set.schemas.map (·.typeName)) s.typeName f.kind := by
  have ⟨t, ht, hy⟩ := exists_left_of_forall₂ (registers_of_build built).types hs
  have ⟨fields, hfs, perm⟩ := hy.fields
  have ⟨p, hp, hyf⟩ := exists_left_of_forall₂ hfs (perm.mem_iff.mp hf)
  have hd : p.1 ∈ t.fields := t.map_fst_placed ▸ List.mem_map_of_mem hp
  exact ⟨t, ht, p.1, hd, hy.typeName ▸ hyf.kind⟩

theorem spellable_of_build (built : SchemaSet.build decls = .ok set)
    (h : ∀ t ∈ decls, ∀ d ∈ t.fields, d.type.Spellable) : set.Spellable := by
  intro s hs f hf
  have ⟨t, ht, d, hd, resolves⟩ := exists_resolves built hs hf
  exact ⟨d.type, h t ht d hd, resolves⟩

end SchemaSet

namespace Document

variable {d : Document} {loaded : LoadedSchema}

theorem spellable_of_declare {docs : List TypeDoc} {decls : List TypeDecl}
    (h : docs.mapM (·.declare) = .ok decls) : ∀ t ∈ decls, ∀ d ∈ t.fields, d.type.Spellable := by
  intro t ht f hf
  have ⟨doc, _, h⟩ := mem_of_mapM_ok h ht
  have ⟨fields, hfs, h⟩ := ok_of_bind_ok h
  cases h
  have ⟨fdoc, _, h⟩ := mem_of_mapM_ok hfs hf
  simp only [FieldDoc.declare] at h
  split at h <;> cases h
  case h_1 hp => exact TypeSpec.spellable_of_parse? hp

-- The type of the name that is given, or else the first one.
def IsRoot (set : SchemaSet) (name : Option String) (root : Option SchemaId) : Prop :=
  (∃ n id, name = some n ∧ set.idOf? n = some id ∧ root = some id) ∨
    name = none ∧ root = set.schemas.head?.map (·.id)

theorem build_ok_iff : d.build = .ok loaded ↔
    ∃ decls, d.types.mapM (·.declare) = .ok decls ∧ SchemaSet.build decls = .ok loaded.set ∧
      IsRoot loaded.set d.root loaded.root := by
  constructor
  case mp =>
    intro h
    have ⟨decls, hd, h⟩ := ok_of_bind_ok h
    have ⟨r, hr, h⟩ := ok_of_bind_ok h
    have built := Registry.ok_of_build hr
    cases hn : d.root <;> rw [hn] at h
    case none =>
      cases h
      exact ⟨decls, hd, built, .inr ⟨rfl, rfl⟩⟩
    case some name =>
      have stored := (Registry.agrees_of_build hr).types name
      cases hi : r.idOf? name <;> simp only [hi] at h <;> cases h
      exact ⟨decls, hd, built, .inl ⟨name, _, rfl, stored.symm.trans hi, rfl⟩⟩
  case mpr =>
    obtain ⟨set, root⟩ := loaded
    rintro ⟨decls, hd, hs, hr⟩
    obtain ⟨r, hb, rfl⟩ := Registry.exists_of_build hs
    simp only [build, hd, hb, bind, Except.bind]
    obtain ⟨name, id, hn, hi, hr⟩ | ⟨hn, hr⟩ := hr
    case inl =>
      simp only [hn, (Registry.agrees_of_build hb).types name ▸ hi]
      rw [← hr]
      rfl
    case inr =>
      simp only [hn]
      rw [← hr]
      rfl

theorem isRoot_ofSet {decls : List TypeDecl} (built : SchemaSet.build decls = .ok loaded.set)
    (h : IsRoot loaded.set d.root loaded.root) :
    IsRoot loaded.set (ofSet loaded).root loaded.root := by
  have registers := SchemaSet.registers_of_build built
  have named : ∀ id s, loaded.set.get? id = some s → loaded.root = some id →
      IsRoot loaded.set (ofSet loaded).root loaded.root := by
    intro id s hs hr
    refine .inl ⟨s.typeName, id, ?_, (registers.named _ _).mpr ⟨s, hs, rfl⟩, hr⟩
    rw [ofSet, hr, Option.bind_some, hs, Option.map_some]
  obtain ⟨name, id, _, hi, hr⟩ | ⟨_, hr⟩ := h
  case inl =>
    have ⟨s, hs, _⟩ := (registers.named _ _).mp hi
    exact named id s hs hr
  case inr =>
    cases hh : loaded.set.schemas.head? <;> rw [hh] at hr
    case none   => exact .inr ⟨by rw [ofSet, hr]; rfl, by rw [hr, hh]⟩
    case some s =>
      have hs : loaded.set.get? ⟨0⟩ = some s := by rwa [SchemaSet.get?, ← List.head?_eq_getElem?]
      exact named ⟨0⟩ s hs (by rw [hr, Option.map_some, registers.id _ _ hs])

-- The document of what was built builds the same again, and so is described alike once more.
theorem build_ofSet (h : d.build = .ok loaded) :
    ∃ rebuilt, (ofSet loaded).build = .ok rebuilt ∧ rebuilt.root = loaded.root ∧
      rebuilt.set = loaded.set ∧ ofSet rebuilt = ofSet loaded := by
  have ⟨decls, hd, built, root⟩ := build_ok_iff.mp h
  have spellable := SchemaSet.spellable_of_build built (spellable_of_declare hd)
  have ⟨restated, hr⟩ := exists_forall₂ fun s hs => TypeDoc.exists_declare spellable hs
  have declared : (ofSet loaded).types.mapM (·.declare) = .ok restated :=
    mapM_ok_iff.mpr <| List.forall₂_map_left_iff.mpr <| hr.imp fun _ _ h => h.1
  have rebuilt := SchemaSet.build_restated built (hr.imp fun _ _ h => h.2).flip
  refine ⟨loaded, ?_, rfl, rfl, rfl⟩
  exact build_ok_iff.mpr ⟨restated, declared, rebuilt, isRoot_ofSet built root⟩

-- A type whose name is that of a scalar cannot be referred to. The other one refers to itself with
-- white space in the spec, and pins its ordinals.
theorem build_ofSet_blanks :
    let node : TypeDoc := ⟨"Node", [
      { name := "next", type := "Node []\t[]", optional := true, ordinal := some 1 },
      { name := "size", type := "i64", nullable := true, ordinal := some 0 }]⟩
    let d : Document := ⟨some "Node", [⟨"i64", []⟩, node]⟩
    let loaded : LoadedSchema := ⟨⟨[⟨⟨0⟩, "i64", []⟩, ⟨⟨1⟩, "Node", [
      ⟨"size", 0, .scalar (.int .w64), true, false⟩,
      ⟨"next", 1, .list (.list .recursive), false, true⟩]⟩]⟩, some ⟨1⟩⟩
    d.build = .ok loaded ∧ ∃ rebuilt, (ofSet loaded).build = .ok rebuilt ∧
      rebuilt.root = loaded.root ∧ rebuilt.set = loaded.set ∧ ofSet rebuilt = ofSet loaded := by
  intro node d loaded
  have lists : TypeSpec.parse? "Node []\t[]" = some (.list (.list (.named "Node"))) := by
    show TypeSpec.ofReversed? (']' :: '[' :: '\t' :: ']' :: '[' :: ' ' :: "Node".toList.reverse) = _
    rw [TypeSpec.ofReversed?_list, TypeSpec.ofReversed?_blank (by decide),
      TypeSpec.ofReversed?_list, TypeSpec.ofReversed?_blank (by decide),
      TypeSpec.ofReversed?_name (by decide +kernel)]
    rfl
  have scalar : TypeSpec.parse? "i64" = some (.scalar (.int .w64)) :=
    TypeSpec.parse?_spell (t := .scalar (.int .w64)) nofun
  have built : d.build = .ok loaded := by
    simp only [build, d, node, List.mapM_cons, TypeDoc.declare, FieldDoc.declare, lists, scalar]
    rfl
  exact ⟨built, build_ofSet built⟩

end Document
end RecordDecoding
