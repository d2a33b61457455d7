import RecordDecoding.Proofs.Presence
import RecordDecoding.Proofs.Schema.WellFormed

namespace RecordDecoding

-- The declared type that a type refers to.
def FieldType.target? : FieldType → Option String
  | scalar _   => none
  | named name => some name
  | list inner => inner.target?

-- The kind that a field of `owner` has by its type, where `types` are the names of all types.
inductive FieldType.Resolves (types : List String) (owner : String) : FieldType → FieldKind → Prop
  | scalar (k : ScalarKind) : Resolves types owner (.scalar k) (.scalar k)
  | owner : Resolves types owner (.named owner) .recursive
  | other {name : String} {index : Nat} : name ≠ owner → types[index]? = some name →
    Resolves types owner (.named name) (.nested ⟨index⟩)
  | list {inner : FieldType} {k : FieldKind} : Resolves types owner inner k →
    Resolves types owner (.list inner) (.list k)

-- The field that a declaration with its ordinal stands for.
structure FieldDecl.Yields (types : List String) (owner : String) (d : FieldDecl × Nat)
    (f : Field) : Prop where
  name     : f.name = d.1.name
  ordinal  : f.ordinal = d.2
  kind     : d.1.type.Resolves types owner f.kind
  nullable : f.nullable = d.1.nullable
  triState : f.triState = d.1.triState

namespace TypeDecl

-- No field pins its ordinal, or all fields do and pin each ordinal once.
def ValidOrdinals (t : TypeDecl) : Prop :=
  (∀ d ∈ t.fields, d.pinned = none) ∨
    (t.fields.map (·.pinned)).Perm ((List.range t.fields.length).map some)

structure Valid (types : List String) (t : TypeDecl) : Prop where
  names    : (t.fields.map (·.name)).Nodup
  ordinals : t.ValidOrdinals
  targets  : ∀ d ∈ t.fields, ∀ name ∈ d.type.target?, name ∈ types

-- The fields with the ordinals that they pin, or else those of their places.
def placed (t : TypeDecl) : List (FieldDecl × Nat) :=
  t.fields.zipIdx.map fun (d, place) => (d, d.pinned.getD place)

-- The schema of a declaration has the declared fields and no others.
structure Yields (types : List String) (t : TypeDecl) (s : Schema) : Prop where
  typeName : s.typeName = t.name
  fields   : ∃ fields, List.Forall₂ (FieldDecl.Yields types t.name) t.placed fields ∧
    s.fields.Perm fields

end TypeDecl

-- A schema whose fields are found by their ordinals and by their names, with the mask for them.
structure Schema.Indexed (s : Schema) : Prop where
  ordinal : ∀ i f, s.field? i = some f → f.ordinal = i
  named   : ∀ name i, s.ordinalOf? name = some i ↔ ∃ f, s.field? i = some f ∧ f.name = name
  seeded  : ∀ i, s.seed.isMarked i ↔ ∃ f ∈ s.fields, f.ordinal = i ∧ f.isRequired = false

namespace SchemaSet

structure Valid (types : List TypeDecl) : Prop where
  names : (types.map (·.name)).Nodup
  types : ∀ t ∈ types, t.Valid (types.map (·.name))

-- A set of the schemas of some declarations, found by their ids and by their names.
structure Registers (set : SchemaSet) (types : List TypeDecl) : Prop where
  types   : List.Forall₂ (TypeDecl.Yields (set.schemas.map (·.typeName))) types set.schemas
  indexed : ∀ s ∈ set.schemas, s.Indexed
  id      : ∀ id s, set.get? id = some s → s.id = id
  named   : ∀ name id, set.idOf? name = some id ↔ ∃ s, set.get? id = some s ∧ s.typeName = name

end SchemaSet

namespace FieldType

variable {types : List String} {owner : String} {t : FieldType} {k : FieldKind}

theorem Resolves.unique {k' : FieldKind} (hn : types.Nodup) (h : t.Resolves types owner k)
    (h' : t.Resolves types owner k') : k = k' := by
  induction h generalizing k'
  case scalar          => cases h'; rfl
  case list ih         => cases h' with | list h' => rw [ih h']
  case owner =>
    cases h'
    case owner      => rfl
    case other hne _ => exact absurd rfl hne
  case other hne hi =>
    cases h'
    case owner       => exact absurd rfl hne
    case other hi' =>
      have ⟨hlt, _⟩ := List.getElem?_eq_some_iff.mp hi
      rw [(List.getElem?_inj hlt hn).mp (hi.trans hi'.symm)]

theorem Resolves.target_mem (ho : owner ∈ types) (h : t.Resolves types owner k) :
    ∀ name ∈ t.target?, name ∈ types := by
  induction h
  case scalar     => simp [target?]
  case owner      => simpa [target?] using ho
  case other hi   => simpa [target?] using List.mem_of_getElem? hi
  case list ih    => exact ih

theorem resolves_of_resolve? (h : t.resolve? types owner = .ok k) : t.Resolves types owner k := by
  induction t generalizing k
  case scalar => cases h; exact .scalar _
  case named =>
    simp only [resolve?] at h
    split at h
    case isTrue ho => cases h; exact ho ▸ .owner
    case isFalse ho =>
      split at h <;> cases h
      case h_1 hi =>
        obtain ⟨hlt, hi, _⟩ := List.idxOf?_eq_some_iff.mp hi
        exact .other ho (List.getElem?_eq_some_iff.mpr ⟨hlt, hi⟩)
  case list inner ih =>
    simp only [resolve?] at h
    cases hi : inner.resolve? types owner <;> rw [hi] at h <;> cases h
    exact .list (ih hi)

theorem exists_resolve? (h : ∀ name ∈ t.target?, name ∈ types) :
    ∃ k, t.resolve? types owner = .ok k := by
  induction t
  case scalar k => exact ⟨_, rfl⟩
  case named name =>
    simp only [resolve?]
    split
    case isTrue => exact ⟨_, rfl⟩
    case isFalse =>
      split
      case h_1    => exact ⟨_, rfl⟩
      case h_2 hi => exact absurd (h name rfl) (List.idxOf?_eq_none_iff.mp hi)
  case list inner ih =>
    obtain ⟨k, hk⟩ := ih h
    exact ⟨.list k, by rw [resolve?, hk]; rfl⟩

end FieldType

namespace TypeDecl

variable {types seen : List String} {type : String} {t : TypeDecl} {fields : List Field}
variable {ds : List (FieldDecl × Nat)} {id : SchemaId} {s s' : Schema}

theorem checkPinned_ok_iff {count : Nat} {used : List Nat} :
    checkPinned type count used ds = .ok () ↔
      (ds.map (·.2)).Nodup ∧ ∀ n ∈ ds.map (·.2), n < count ∧ n ∉ used := by
  refine ⟨checkPinned_ok, ?_⟩
  induction ds generalizing used
  case nil => exact fun _ => rfl
  case cons d ds ih =>
    simp only [List.map_cons, List.nodup_cons, List.forall_mem_cons]
    rintro ⟨⟨hd, hn⟩, ⟨hlt, hu⟩, hb⟩
    rw [checkPinned, if_neg (Nat.not_le.mpr hlt), if_neg hu]
    refine ih ⟨hn, fun n hm => ⟨(hb n hm).1, ?_⟩⟩
    rw [List.mem_cons, not_or]
    exact ⟨fun he => hd (he ▸ hm), (hb n hm).2⟩

theorem map_fst_placed (t : TypeDecl) : t.placed.map (·.1) = t.fields := by
  simp [placed, Function.comp_def]

theorem placed_of_unpinned (h : ∀ d ∈ t.fields, d.pinned = none) : t.placed = t.fields.zipIdx := by
  rw [placed, ← List.map_id t.fields.zipIdx, List.map_map]
  refine List.map_congr_left fun p hp => ?_
  simp [h p.1 (List.fst_mem_of_mem_zipIdx hp)]

theorem placed_of_pinned (h : ∀ d ∈ t.fields, d.pinned.isSome) :
    t.placed = t.fields.filterMap fun d => d.pinned.map (d, ·) := by
  rw [placed, ← List.filterMap_eq_map]
  conv => rhs; rw [← List.zipIdx_map_fst 0 t.fields, List.filterMap_map]
  refine List.filterMap_congr fun p hp => ?_
  have ⟨n, hn⟩ := Option.isSome_iff_exists.mp <| h p.1 (List.fst_mem_of_mem_zipIdx hp)
  simp [hn]

theorem map_pinned (h : ∀ d ∈ t.fields, d.pinned.isSome) :
    t.fields.map (·.pinned) = (t.placed.map (·.2)).map some := by
  rw [placed_of_pinned h, List.map_map, List.map_filterMap, ← List.filterMap_eq_map]
  refine List.filterMap_congr fun d hd => ?_
  have ⟨n, hn⟩ := Option.isSome_iff_exists.mp (h d hd)
  simp [hn]

theorem withOrdinals_ok_iff : t.withOrdinals = .ok ds ↔ t.ValidOrdinals ∧ ds = t.placed := by
  simp only [withOrdinals]
  split
  case isTrue he =>
    have hu : ∀ d ∈ t.fields, d.pinned = none := by simpa using he
    simp only [placed_of_unpinned hu, ValidOrdinals, Except.ok.injEq]
    exact ⟨fun h => ⟨.inl hu, h.symm⟩, fun h => h.2.symm⟩
  case isFalse he =>
    have hu : ¬∀ d ∈ t.fields, d.pinned = none := by simpa using he
    split
    case isTrue hl =>
      refine iff_of_false (by simp) fun h => hl ?_
      refine List.filterMap_length_eq_length.mpr fun d hd => ?_
      have hm := (h.1.resolve_left hu).mem_iff.mp (List.mem_map_of_mem hd)
      obtain ⟨n, _, hn⟩ := List.mem_map.mp hm
      simp [← hn]
    case isFalse hl =>
      have hp : ∀ d ∈ t.fields, d.pinned.isSome := by
        simpa using List.filterMap_length_eq_length.mp (Decidable.not_not.mp hl)
      have hc : checkPinned t.name t.fields.length [] t.placed = .ok () ↔ t.ValidOrdinals := by
        have hlen : (t.placed.map (·.2)).length = t.fields.length := by simp [placed]
        simp only [checkPinned_ok_iff, ValidOrdinals, hu, false_or, map_pinned hp,
          List.map_perm_map_iff (Option.some_injective _), List.not_mem_nil, not_false_eq_true,
          and_true]
        constructor
        case mp  => exact fun h => hlen ▸ perm_range h.1 (hlen ▸ h.2)
        case mpr =>
          intro h
          exact ⟨h.nodup_iff.mpr List.nodup_range, fun n hm => List.mem_range.mp (h.mem_iff.mp hm)⟩
      rw [← placed_of_pinned hp, ← hc]
      cases checkPinned t.name t.fields.length [] t.placed <;> simp [Except.map, eq_comm]

theorem ValidOrdinals.perm (h : t.ValidOrdinals) :
    (t.placed.map (·.2)).Perm (List.range t.placed.length) :=
  withOrdinals_perm (withOrdinals_ok_iff.mpr ⟨h, rfl⟩)

theorem resolveFields_yields (h : resolveFields type types seen ds = .ok fields) :
    List.Forall₂ (FieldDecl.Yields types type) ds fields := by
  induction ds generalizing seen fields
  case nil => cases h; exact .nil
  case cons d ds ih =>
    simp only [resolveFields] at h
    split at h
    case isTrue => cases h
    case isFalse =>
      obtain ⟨k, hk, h⟩ := ok_of_bind_ok h
      obtain ⟨rest, hr, h⟩ := ok_of_bind_ok h
      cases h
      cases hf : d.1.type.resolve? types type <;> rw [hf] at hk <;> cases hk
      exact .cons ⟨rfl, rfl, FieldType.resolves_of_resolve? hf, rfl, rfl⟩ (ih hr)

theorem exists_resolveFields (hn : (ds.map (·.1.name)).Nodup)
    (hs : ∀ d ∈ ds, d.1.name ∉ seen)
    (ht : ∀ d ∈ ds, ∀ name ∈ d.1.type.target?, name ∈ types) :
    ∃ fields, resolveFields type types seen ds = .ok fields := by
  induction ds generalizing seen
  case nil => exact ⟨[], rfl⟩
  case cons d ds ih =>
    have ⟨hd, hs⟩ := List.forall_mem_cons.mp hs
    have ⟨htd, ht⟩ := List.forall_mem_cons.mp ht
    have ⟨hm, hn⟩ := List.nodup_cons.mp hn
    have hs : ∀ d' ∈ ds, d'.1.name ∉ d.1.name :: seen := by
      intro d' hd'
      rw [List.mem_cons, not_or]
      exact ⟨fun he => hm (List.mem_map.mpr ⟨d', hd', he⟩), hs d' hd'⟩
    have ⟨k, hk⟩ : ∃ k, d.1.type.resolve? types type = .ok k := FieldType.exists_resolve? htd
    have ⟨fields, hr⟩ := ih hn hs ht
    exact ⟨_, by simp only [resolveFields, if_neg hd, hk, hr]; rfl⟩

theorem map_name_of_yields (h : List.Forall₂ (FieldDecl.Yields types type) ds fields) :
    ds.map (·.1.name) = fields.map (·.name) :=
  map_eq_of_forall₂ (h.imp fun _ _ hy => hy.name.symm)

theorem map_ordinal_of_yields (h : List.Forall₂ (FieldDecl.Yields types type) ds fields) :
    ds.map (·.2) = fields.map (·.ordinal) :=
  map_eq_of_forall₂ (h.imp fun _ _ hy => hy.ordinal.symm)

theorem map_name_placed (t : TypeDecl) : t.placed.map (·.1.name) = t.fields.map (·.name) := by
  rw [← map_fst_placed, List.map_map]
  rfl

theorem exists_build (h : t.Valid types) : ∃ s, t.build types id = .ok s := by
  have ⟨fields, hr⟩ : ∃ fields, resolveFields t.name types [] t.placed = .ok fields := by
    refine exists_resolveFields (t.map_name_placed ▸ h.names) (by simp) fun d hd => ?_
    exact h.targets d.1 (t.map_fst_placed ▸ List.mem_map_of_mem hd)
  have ho := withOrdinals_ok_iff.mpr ⟨h.ordinals, rfl⟩
  refine ⟨⟨id, t.name, byOrdinal fields⟩, ?_⟩
  rw [build, ho]
  show resolveFields t.name types [] t.placed >>= _ = _
  rw [hr]
  rfl

-- What is known when a schema was built.
theorem yields_of_build (h : t.build types id = .ok s) :
    s.id = id ∧ t.ValidOrdinals ∧ (t.fields.map (·.name)).Nodup ∧ t.Yields types s := by
  have ⟨ds, hd, h⟩ := ok_of_bind_ok h
  have ⟨fields, hr, h⟩ := ok_of_bind_ok h
  cases h
  have ⟨ho, hp⟩ := withOrdinals_ok_iff.mp hd
  subst hp
  have hy := resolveFields_yields hr
  have hn := (map_name_of_yields hy).symm.trans t.map_name_placed ▸ (resolveFields_ok hr).1
  have perm : (fields.map (·.ordinal)).Perm (List.range fields.length) := by
    rw [← map_ordinal_of_yields hy, ← hy.length_eq]
    exact ho.perm
  exact ⟨rfl, ho, hn, rfl, fields, hy, byOrdinal_perm perm⟩

theorem valid_of_build (hm : t.name ∈ types) (h : t.build types id = .ok s) : t.Valid types := by
  have ⟨_, ho, hn, _, fields, hy, _⟩ := yields_of_build h
  refine ⟨hn, ho, fun d hd => ?_⟩
  have ⟨p, hp, he⟩ := List.mem_map.mp (t.map_fst_placed ▸ hd)
  have ⟨f, _, hf⟩ := exists_right_of_forall₂ hy hp
  exact he ▸ hf.kind.target_mem hm

end TypeDecl

namespace FieldDecl

theorem Yields.unique {types : List String} {owner : String} {d : FieldDecl × Nat} {f f' : Field}
    (hn : types.Nodup) (h : Yields types owner d f) (h' : Yields types owner d f') : f = f' := by
  cases f
  cases f'
  simp only [Field.mk.injEq]
  exact ⟨h.name.trans h'.name.symm, h.ordinal.trans h'.ordinal.symm, h.kind.unique hn h'.kind,
    h.nullable.trans h'.nullable.symm, h.triState.trans h'.triState.symm⟩

end FieldDecl

namespace Schema

variable {s s' : Schema}

theorem Indexed.field?_of_perm (hi : s.Indexed) (hi' : s'.Indexed) (h : s.fields.Perm s'.fields)
    {i : Nat} {f : Field} (hf : s.field? i = some f) : s'.field? i = some f := by
  have ⟨j, hlt, he⟩ := List.getElem_of_mem (h.mem_iff.mp (List.mem_of_getElem? hf))
  have hj : s'.field? j = some f := List.getElem?_eq_some_iff.mpr ⟨hlt, he⟩
  rwa [← hi.ordinal i f hf, hi'.ordinal j f hj]

theorem Indexed.fields_eq_of_perm (hi : s.Indexed) (hi' : s'.Indexed)
    (h : s.fields.Perm s'.fields) : s.fields = s'.fields :=
  List.ext_getElem? fun _ => Option.ext fun _ =>
    ⟨hi.field?_of_perm hi' h, hi'.field?_of_perm hi h.symm⟩

namespace WellFormed

theorem indexed (wf : s.WellFormed) : s.Indexed where
  ordinal i f hf := by
    obtain ⟨hlt, he⟩ := List.getElem?_eq_some_iff.mp hf
    exact he ▸ wf.ordinal_getElem hlt
  named name i := by
    rw [wf.ordinalOf?_eq_some_iff]
    constructor
    case mp =>
      rintro ⟨f, hf, hn, rfl⟩
      exact ⟨f, wf.field?_ordinal hf, hn⟩
    case mpr =>
      rintro ⟨f, hf, hn⟩
      obtain ⟨hlt, he⟩ := List.getElem?_eq_some_iff.mp hf
      exact ⟨f, List.mem_of_getElem? hf, hn, he ▸ wf.ordinal_getElem hlt⟩
  seeded i := by
    rw [seed, Presence.isMarked_seed, decide_eq_true_iff]
    constructor
    case mp =>
      rintro ⟨hm, _⟩
      obtain ⟨f, hf, ho⟩ := List.mem_map.mp hm
      obtain ⟨hf, hr⟩ := List.mem_filter.mp hf
      exact ⟨f, hf, ho, by simpa using hr⟩
    case mpr =>
      rintro ⟨f, hf, rfl, hr⟩
      exact ⟨List.mem_map_of_mem (List.mem_filter.mpr ⟨hf, by simpa using hr⟩), wf.ordinal_lt hf⟩

end WellFormed
end Schema

theorem TypeDecl.Yields.unique {types : List String} {t : TypeDecl} {s s' : Schema}
    (hn : types.Nodup) (h : t.Yields types s) (h' : t.Yields types s') (hi : s.Indexed)
    (hi' : s'.Indexed) (hid : s.id = s'.id) : s = s' := by
  have ⟨fields, hy, perm⟩ := h.fields
  have ⟨fields', hy', perm'⟩ := h'.fields
  have same : fields = fields' := by
    refine List.ext_getElem (hy.length_eq.symm.trans hy'.length_eq) fun i hlt hlt' => ?_
    have hd : i < t.placed.length := hy.length_eq ▸ hlt
    exact (hy.get hd hlt).unique hn (hy'.get hd hlt')
  have hf := hi.fields_eq_of_perm hi' (perm.trans (same ▸ perm'.symm))
  cases s
  cases s'
  simp only [Schema.mk.injEq]
  exact ⟨hid, h.typeName.trans h'.typeName.symm, hf⟩

namespace SchemaSet

variable {types : List TypeDecl} {set : SchemaSet}

theorem exists_build (h : Valid types) : ∃ set, SchemaSet.build types = .ok set := by
  have hn : firstRepeated? [] (types.map (·.name)) = none :=
    firstRepeated?_eq_none_iff.mpr ⟨h.names, by simp⟩
  have ⟨schemas, hb⟩ : ∃ schemas, types.zipIdx.mapM (fun p =>
      p.1.build (types.map (·.name)) ⟨p.2⟩) = .ok schemas :=
    exists_mapM_ok fun p hp => TypeDecl.exists_build (h.types p.1 (List.fst_mem_of_mem_zipIdx hp))
  refine ⟨⟨schemas⟩, ?_⟩
  rw [SchemaSet.build_eq, hn]
  show types.zipIdx.mapM (fun p => p.1.build (types.map (·.name)) ⟨p.2⟩) >>= _ = _
  rw [hb]
  rfl

-- What is known when a set was built.
theorem yields_of_build (h : SchemaSet.build types = .ok set) :
    (types.map (·.name)).Nodup ∧ List.Forall₂ (fun (p : TypeDecl × Nat) s =>
      p.1.build (types.map (·.name)) ⟨p.2⟩ = .ok s) types.zipIdx set.schemas := by
  rw [SchemaSet.build_eq] at h
  split at h
  case h_1 => cases h
  case h_2 hr =>
    obtain ⟨schemas, hm, h⟩ := ok_of_bind_ok h
    cases h
    exact ⟨(firstRepeated?_eq_none_iff.mp hr).1, mapM_ok_iff.mp hm⟩

theorem valid_of_build (h : SchemaSet.build types = .ok set) : Valid types := by
  have ⟨hn, hb⟩ := yields_of_build h
  refine ⟨hn, fun t ht => ?_⟩
  have ⟨i, hi, he⟩ := List.getElem_of_mem ht
  have hp : (t, i) ∈ types.zipIdx := by simp [List.mem_zipIdx_iff_getElem?, ← he]
  have ⟨s, _, hs⟩ := exists_right_of_forall₂ hb hp
  exact TypeDecl.valid_of_build (List.mem_map_of_mem ht) hs

theorem id_of_build (h : SchemaSet.build types = .ok set) {id : SchemaId} {s : Schema}
    (hs : set.get? id = some s) : s.id = id := by
  have ⟨_, hb⟩ := yields_of_build h
  have ⟨hlt, he⟩ := List.getElem?_eq_some_iff.mp hs
  have := hb.get (hb.length_eq ▸ hlt) hlt
  simp only [List.get_eq_getElem, List.getElem_zipIdx, he, Nat.zero_add] at this
  exact (TypeDecl.yields_of_build this).1

theorem idOf?_eq_some_iff (hn : (set.schemas.map (·.typeName)).Nodup)
    (hi : ∀ id s, set.get? id = some s → s.id = id) {name : String} {id : SchemaId} :
    set.idOf? name = some id ↔ ∃ s, set.get? id = some s ∧ s.typeName = name := by
  rw [idOf?, Option.map_eq_some_iff]
  constructor
  case mp =>
    rintro ⟨s, hs, rfl⟩
    have ⟨i, hlt, he⟩ := List.getElem_of_mem (List.mem_of_find?_eq_some hs)
    have hg : set.get? ⟨i⟩ = some s := List.getElem?_eq_some_iff.mpr ⟨hlt, he⟩
    exact ⟨s, hi _ _ hg ▸ hg, by simpa using List.find?_some hs⟩
  case mpr =>
    rintro ⟨s, hs, rfl⟩
    have hm := List.mem_of_getElem? hs
    cases hf : set.schemaNamed? s.typeName
    case none =>
      have := List.find?_eq_none.mp hf s hm
      simp at this
    case some t =>
      have ht : t.typeName = s.typeName := by simpa using List.find?_some hf
      cases List.inj_on_of_nodup_map hn (List.mem_of_find?_eq_some hf) hm ht
      exact ⟨s, rfl, hi _ _ hs⟩

theorem names_eq {names : List String}
    (h : List.Forall₂ (TypeDecl.Yields names) types set.schemas) :
    types.map (·.name) = set.schemas.map (·.typeName) :=
  map_eq_of_forall₂ (h.imp fun _ _ hy => hy.typeName.symm)

theorem registers_of_build (h : SchemaSet.build types = .ok set) : set.Registers types := by
  have ⟨hn, hb⟩ := yields_of_build h
  have hy : List.Forall₂ (TypeDecl.Yields (types.map (·.name))) types set.schemas := by
    have := hb.imp fun p s hs => (TypeDecl.yields_of_build hs).2.2.2
    rwa [← List.forall₂_map_left_iff, List.zipIdx_map_fst] at this
  rw [names_eq hy] at hy hn
  have hi : ∀ id s, set.get? id = some s → s.id = id := fun _ _ => id_of_build h
  exact {
    types   := hy
    indexed := fun s hs => ((wellFormed_of_build h).schemas s hs).indexed
    id      := hi
    named   := fun _ _ => idOf?_eq_some_iff hn hi
  }

-- Valid declarations stand for one set only, which is the one that is built.
theorem build_of_registers (hv : Valid types) (h : set.Registers types) :
    SchemaSet.build types = .ok set := by
  have ⟨set', hb⟩ := exists_build hv
  have h' := registers_of_build hb
  have hy := names_eq h.types ▸ h.types
  have hy' := names_eq h'.types ▸ h'.types
  suffices same : set.schemas = set'.schemas by
    rw [hb]
    exact congrArg (Except.ok ∘ SchemaSet.mk) same.symm
  refine List.ext_getElem (hy.length_eq.symm.trans hy'.length_eq) fun i hlt hlt' => ?_
  have ht : i < types.length := hy.length_eq ▸ hlt
  refine (hy.get ht hlt).unique hv.names (hy'.get ht hlt') ?_ ?_ ?_
  · exact h.indexed _ (List.getElem_mem hlt)
  · exact h'.indexed _ (List.getElem_mem hlt')
  · have hid := h.id ⟨i⟩ _ (List.getElem?_eq_getElem hlt)
    exact hid.trans (h'.id ⟨i⟩ _ (List.getElem?_eq_getElem hlt')).symm

end SchemaSet
end RecordDecoding
