import RecordDecoding.Proofs.Schema.Fields
import RecordDecoding.Schema.Registry

namespace RecordDecoding

namespace Table

variable {α : Type} {table : Table α} {name : String} {a : α}

theorem lookup_cons (entry : String × α) : List.lookup name (entry :: table) =
    if name = entry.1 then some entry.2 else table.lookup name := by
  rw [List.lookup_cons]
  by_cases h : name = entry.1
  case pos => rw [if_pos h, beq_iff_eq.mpr h]
  case neg => rw [if_neg h, beq_eq_false_iff_ne.mpr h]

theorem isSome_lookup : (table.lookup name).isSome ↔ name ∈ table.map (·.1) := by
  induction table
  case nil => simp
  case cons entry table ih =>
    rw [List.map_cons, List.mem_cons, lookup_cons, ← ih]
    by_cases h : name = entry.1 <;> simp [h]

-- What is found for a name is what was entered for it, if names were entered once.
theorem lookup_eq_some_iff (once : (table.map (·.1)).Nodup) :
    table.lookup name = some a ↔ (name, a) ∈ table := by
  induction table
  case nil => simp
  case cons entry table ih =>
    obtain ⟨new, once⟩ := List.nodup_cons.mp once
    rw [List.mem_cons, lookup_cons, ← ih once]
    by_cases h : name = entry.1
    case neg => simp [h, Prod.ext_iff]
    case pos =>
      subst h
      have none : table.lookup entry.1 = none :=
        Option.not_isSome_iff_eq_none.mp (mt isSome_lookup.mp new)
      simp [none, Prod.ext_iff, eq_comm]

-- Each name has the id of its place among all names, and no other name has one.
def Places (table : Table SchemaId) (names : List String) : Prop :=
  ∀ name, table.lookup name = (names.idxOf? name).map SchemaId.mk

end Table

theorem TypeDecl.names_zipIdx (types : List TypeDecl) :
    types.zipIdx.map (·.1.name) = types.map (·.name) := by
  conv => rhs; rw [← List.zipIdx_map_fst 0 types, List.map_map]
  rfl

-- The entries of types, each with the id of its place.
def Registry.entries (types : List (TypeDecl × Nat)) : Table SchemaId :=
  types.map fun (type, index) => (type.name, ⟨index⟩)

namespace Registry

variable {types : List TypeDecl}

theorem enterTypes_eq (byName : Table SchemaId) (types : List (TypeDecl × Nat)) :
    enterTypes byName types =
      match firstRepeated? (byName.map (·.1)) (types.map (·.1.name)) with
      | some name => .error (.duplicateType name)
      | none      => .ok ((entries types).reverse ++ byName) := by
  induction types generalizing byName
  case nil => rfl
  case cons p types ih =>
    rw [enterTypes, List.map_cons, firstRepeated?]
    by_cases h : p.1.name ∈ byName.map (·.1)
    case pos => rw [if_pos h, if_pos (Table.isSome_lookup.mpr h)]
    case neg =>
      rw [if_neg h, if_neg (mt Table.isSome_lookup.mp h), ih, List.map_cons]
      simp [entries]

-- A name that occurs once is found at its place.
theorem idxOf?_eq_some_iff {names : List String} (once : names.Nodup) {name : String} {i : Nat} :
    names.idxOf? name = some i ↔ names[i]? = some name := by
  constructor
  case mp =>
    intro h
    obtain ⟨lt, h, _⟩ := List.idxOf?_eq_some_iff.mp h
    exact List.getElem?_eq_some_iff.mpr ⟨lt, h⟩
  case mpr =>
    intro h
    cases found : names.idxOf? name
    case none => exact absurd (List.mem_of_getElem? h) (List.idxOf?_eq_none_iff.mp found)
    case some j =>
      obtain ⟨lt, hj, _⟩ := List.idxOf?_eq_some_iff.mp found
      have hj : names[j]? = some name := List.getElem?_eq_some_iff.mpr ⟨lt, hj⟩
      rw [(List.getElem?_inj lt once).mp (hj.trans h.symm)]

theorem places_entries (once : (types.map (·.name)).Nodup) :
    Table.Places (entries types.zipIdx).reverse (types.map (·.name)) := by
  intro name
  have keys : (entries types.zipIdx).map (·.1) = types.map (·.name) := by
    rw [entries, List.map_map]
    exact TypeDecl.names_zipIdx types
  have once' : ((entries types.zipIdx).reverse.map (·.1)).Nodup := by
    rw [List.map_reverse, keys]
    exact List.nodup_reverse.mpr once
  refine Option.ext fun id => ?_
  simp only [Table.lookup_eq_some_iff once', List.mem_reverse, Option.map_eq_some_iff,
    idxOf?_eq_some_iff once, List.getElem?_map]
  constructor
  case mp =>
    intro h
    obtain ⟨p, hp, h⟩ := List.mem_map.mp h
    cases h
    exact ⟨p.2, ⟨p.1, List.mem_zipIdx_iff_getElem?.mp hp, rfl⟩, rfl⟩
  case mpr =>
    rintro ⟨i, ⟨t, ht, rfl⟩, rfl⟩
    exact List.mem_map.mpr ⟨(t, i), List.mem_zipIdx_iff_getElem?.mpr ht, rfl⟩

end Registry

namespace FieldType

variable {names : List String} {table : Table SchemaId} {owner : String}

theorem resolve_eq (h : table.Places names)
    (t : FieldType) : t.resolve table owner = t.resolve? names owner := by
  induction t
  case scalar => rfl
  case named target =>
    rw [resolve, resolve?, h target]
    cases names.idxOf? target <;> rfl
  case list inner ih => rw [resolve, resolve?, ih]

end FieldType

namespace Slots

-- Slots with more fields in them.
def filled (slots : Slots) (fields : List Field) : Slots where
  fields := fields.foldl (fun slots field => slots.set field.ordinal (some field)) slots.fields
  byName := (fields.map fun field => (field.name, field.ordinal)).reverse ++ slots.byName

theorem filled_cons (slots : Slots) (field : Field) (fields : List Field) :
    slots.filled (field :: fields) = (slots.filled [field]).filled fields := by
  simp [filled]

variable {names : List String} {table : Table SchemaId} {type : String}

theorem foldlM_enter (h : table.Places names)
    (slots : Slots) (ds : List (FieldDecl × Nat)) :
    ds.foldlM (enter type table) slots =
      (TypeDecl.resolveFields type names (slots.byName.map (·.1)) ds).map slots.filled := by
  induction ds generalizing slots
  case nil => rfl
  case cons d ds ih =>
    obtain ⟨decl, ordinal⟩ := d
    rw [List.foldlM_cons, enter, TypeDecl.resolveFields, FieldType.resolve_eq h]
    by_cases seen : decl.name ∈ slots.byName.map (·.1)
    case pos =>
      rw [if_pos seen, if_pos (Table.isSome_lookup.mpr seen)]
      rfl
    case neg =>
      rw [if_neg seen, if_neg (mt Table.isSome_lookup.mp seen)]
      cases decl.type.resolve? names type
      case error => rfl
      case ok kind =>
        let field : Field := ⟨decl.name, ordinal, kind, decl.nullable, decl.triState⟩
        have names_filled : (slots.filled [field]).byName.map (·.1) =
          decl.name :: slots.byName.map (·.1) := rfl
        show ds.foldlM (enter type table) (slots.filled [field]) = Except.map slots.filled
          (TypeDecl.resolveFields type names _ ds >>= fun fields => .ok (field :: fields))
        rw [ih, names_filled]
        cases TypeDecl.resolveFields type names (decl.name :: slots.byName.map (·.1)) ds
        case error     => rfl
        case ok fields => exact congrArg Except.ok (slots.filled_cons field fields).symm

-- In a slot is the field of its ordinal.
theorem fields_filled {fields : List Field} (once : (fields.map (·.ordinal)).Nodup) (slots : Slots)
    (i : Nat) : (slots.filled fields).fields[i]? =
      if i < slots.fields.length then
        some ((fields.find? (·.ordinal = i)).or (slots.fields[i]?.getD none))
      else none := by
  induction fields generalizing slots
  case nil =>
    show slots.fields[i]? = _
    split
    case isTrue lt  => simp [lt]
    case isFalse le => exact List.getElem?_eq_none (Nat.le_of_not_lt le)
  case cons field fields ih =>
    have ⟨new, once⟩ := List.nodup_cons.mp once
    have length : (slots.filled [field]).fields.length = slots.fields.length := List.length_set
    have slot : (slots.filled [field]).fields[i]? = if field.ordinal = i then
        (if field.ordinal < slots.fields.length then some (some field) else none)
        else slots.fields[i]? := List.getElem?_set
    rw [filled_cons, ih once, length, slot, List.find?_cons]
    split
    case isFalse => rfl
    case isTrue lt =>
      by_cases here : field.ordinal = i
      case neg => simp [here]
      case pos =>
        have none : fields.find? (·.ordinal = i) = none := by
          refine List.find?_eq_none.mpr fun other mem => ?_
          simpa using fun same => new (List.mem_map.mpr ⟨other, mem, same.trans here.symm⟩)
        simp [here, lt, none]

-- As many fields as there are slots, each in its own, are all of them in order.
theorem filterMap_filled {fields : List Field}
    (perm : (fields.map (·.ordinal)).Perm (List.range fields.length)) :
    ((empty fields.length).filled fields).fields.filterMap (·) = TypeDecl.byOrdinal fields := by
  have once : (fields.map (·.ordinal)).Nodup := perm.nodup_iff.mpr List.nodup_range
  have slots : ((empty fields.length).filled fields).fields =
      (List.range fields.length).map fun i => fields.find? (·.ordinal = i) := by
    refine List.ext_getElem? fun i => ?_
    rw [fields_filled once, empty, List.length_replicate, List.getElem?_map,
      List.getElem?_replicate]
    split
    case isTrue lt => simp [lt]
    case isFalse le => simp [Nat.le_of_not_lt le]
  rw [slots, List.filterMap_map]
  rfl

end Slots

namespace TypeDecl

variable {names : List String} {table : Table SchemaId} {id : SchemaId}

theorem length_of_withOrdinals {t : TypeDecl} {ds : List (FieldDecl × Nat)}
    (h : t.withOrdinals = .ok ds) : ds.length = t.fields.length := by
  simp only [withOrdinals] at h
  split at h
  case isTrue =>
    cases h
    exact List.length_zipIdx
  case isFalse =>
    split at h
    case isTrue => cases h
    case isFalse all =>
      generalize checkPinned t.name t.fields.length [] _ = checked at h
      cases checked <;> cases h
      exact Decidable.not_not.mp all

-- What is stored for a type when it is registered: the schema and its tables are made of the same
-- fields.
theorem register_eq (h : table.Places names)
    (t : TypeDecl) : t.register table id = do
      let fields ← resolveFields t.name names [] (← t.withOrdinals)
      let schema : Schema := ⟨id, t.name, byOrdinal fields⟩
      return ⟨schema, (fields.map fun f => (f.name, f.ordinal)).reverse, schema.seed⟩ := by
  rw [register]
  cases ordinals : t.withOrdinals
  case error => rfl
  case ok ds =>
    show (ds.foldlM (Slots.enter t.name table) _ >>= _) = (resolveFields t.name names [] ds >>= _)
    rw [Slots.foldlM_enter h]
    show Except.map _ (resolveFields t.name names [] ds) >>= _ = _
    cases resolved : resolveFields t.name names [] ds
    case error => rfl
    case ok fields =>
      have perm := perm_of_resolveFields ordinals resolved
      have count : t.fields.length = fields.length := by
        have same := congrArg List.length (resolveFields_ok resolved).2.2.1
        rw [List.length_map, List.length_map, length_of_withOrdinals ordinals] at same
        exact same.symm
      have slots := Slots.filterMap_filled perm
      have seed : Presence.seed fields.length
          (((byOrdinal fields).filter (!·.isRequired)).map (·.ordinal)) =
            Schema.seed ⟨id, t.name, byOrdinal fields⟩ := by
        rw [Schema.seed, Schema.length, (byOrdinal_perm perm).length_eq]
      rw [count]
      refine congrArg Except.ok (StoredSchema.mk.injEq .. |>.mpr ⟨?_, ?_, ?_⟩)
      · exact congrArg (Schema.mk id t.name) slots
      · exact List.append_nil _
      · exact slots ▸ seed

-- Without what is stored, a schema is built as if names were looked up among the names.
theorem map_schema_register (h : table.Places names)
    (t : TypeDecl) : (t.register table id).map (·.schema) = t.build names id := by
  rw [register_eq h, build]
  cases t.withOrdinals
  case error => rfl
  case ok ds =>
    show Except.map _ (resolveFields t.name names [] ds >>= _) =
      (resolveFields t.name names [] ds >>= _)
    cases resolveFields t.name names [] ds <;> rfl

end TypeDecl

theorem mapM_map {ε α β γ : Type} {f : α → Except ε β} {g : α → Except ε γ} {h : β → γ}
    {as : List α} (same : ∀ a ∈ as, (f a).map h = g a) :
    (as.mapM f).map (List.map h) = as.mapM g := by
  induction as
  case nil => rfl
  case cons a as ih =>
    have ⟨first, same⟩ := List.forall_mem_cons.mp same
    rw [List.mapM_cons, List.mapM_cons, ← first, ← ih same]
    cases f a
    case error => rfl
    case ok b => cases as.mapM f <;> rfl

-- A set is built as if there were no tables.
theorem SchemaSet.build_eq (types : List TypeDecl) : SchemaSet.build types =
    match firstRepeated? [] (types.map (·.name)) with
    | some name => .error (.duplicateType name)
    | none      => do
      let names := types.map (·.name)
      return ⟨← types.zipIdx.mapM fun (type, index) => type.build names ⟨index⟩⟩ := by
  rw [SchemaSet.build, Registry.build, Registry.enterTypes_eq, TypeDecl.names_zipIdx]
  cases repeats : firstRepeated? [] (types.map (·.name))
  case some name => simp only [List.map_nil, repeats]; rfl
  case none =>
    have once : (types.map (·.name)).Nodup := (firstRepeated?_eq_none_iff.mp repeats).1
    have same : (types.zipIdx.mapM fun (p : TypeDecl × Nat) =>
        p.1.register (Registry.entries types.zipIdx).reverse ⟨p.2⟩).map (List.map (·.schema)) =
          types.zipIdx.mapM fun p => p.1.build (types.map (·.name)) ⟨p.2⟩ :=
      mapM_map fun p _ => p.1.map_schema_register (Registry.places_entries once)
    simp only [List.map_nil, repeats, List.append_nil, bind, Except.bind]
    rw [← same]
    generalize types.zipIdx.mapM (fun (p : TypeDecl × Nat) =>
      p.1.register (Registry.entries types.zipIdx).reverse ⟨p.2⟩) = registered
    cases registered <;> rfl

end RecordDecoding
