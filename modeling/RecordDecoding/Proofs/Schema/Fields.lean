import Mathlib.Data.List.Nodup
import Mathlib.Data.List.Perm.Subperm
import RecordDecoding.Proofs.Answers
import RecordDecoding.Schema.Declaration

namespace RecordDecoding

-- The schema that a kind refers to, other than that of the field.
def FieldKind.target? : FieldKind → Option SchemaId
  | scalar _ | recursive => none
  | nested id            => some id
  | list inner           => inner.target?

-- Building does the same without tables, if names are looked up among all names.

-- The first name that occurred before.
def firstRepeated? (seen : List String) : List String → Option String
  | [] => none
  | name :: names => if name ∈ seen then some name else firstRepeated? (name :: seen) names

theorem firstRepeated?_eq_none_iff {seen names : List String} :
    firstRepeated? seen names = none ↔ names.Nodup ∧ ∀ name ∈ names, name ∉ seen := by
  induction names generalizing seen
  case nil => simp [firstRepeated?]
  case cons name names ih =>
    by_cases h : name ∈ seen
    case pos => simp [firstRepeated?, h]
    case neg =>
      rw [firstRepeated?, if_neg h, ih, List.nodup_cons, List.forall_mem_cons]
      constructor
      case mp =>
        rintro ⟨hn, hs⟩
        refine ⟨⟨fun hm => hs _ hm (List.mem_cons_self ..), hn⟩, h, fun m hm hs' => ?_⟩
        exact hs m hm (List.mem_cons_of_mem _ hs')
      case mpr =>
        rintro ⟨⟨hm, hn⟩, _, hs⟩
        refine ⟨hn, fun m hm' => ?_⟩
        rw [List.mem_cons, not_or]
        exact ⟨fun he => hm (he ▸ hm'), hs m hm'⟩

namespace FieldType

-- The kind of a field of `owner`, where `types` are the names of all types.
def resolve? (types : List String) (owner : String) : FieldType → Except String FieldKind
  | scalar kind => .ok (.scalar kind)
  | named target =>
    if target = owner then .ok .recursive
    else match types.idxOf? target with
      | some index => .ok (.nested ⟨index⟩)
      | none => .error target
  | list inner => (inner.resolve? types owner).map .list

end FieldType

namespace TypeDecl

def resolveFields (type : String) (types seen : List String) :
    List (FieldDecl × Nat) → Except SchemaError (List Field)
  | [] => .ok []
  | (field, ordinal) :: rest => do
    if field.name ∈ seen then throw (.duplicateField type field.name)
    let kind ← (field.type.resolve? types type).mapError (.unknownType type field.name)
    let fields ← resolveFields type types (field.name :: seen) rest
    return ⟨field.name, ordinal, kind, field.nullable, field.triState⟩ :: fields

-- Fields in the order of their ordinals.
def byOrdinal (fields : List Field) : List Field :=
  (List.range fields.length).filterMap fun i => fields.find? (·.ordinal = i)

def build (type : TypeDecl) (types : List String) (id : SchemaId) : Except SchemaError Schema := do
  let fields ← resolveFields type.name types [] (← type.withOrdinals)
  return { id, typeName := type.name, fields := byOrdinal fields }

variable {type : String} {fields : List Field}

theorem checkPinned_ok {count : Nat} {used : List Nat} {ds : List (FieldDecl × Nat)}
    (h : checkPinned type count used ds = .ok ()) :
    (ds.map (·.2)).Nodup ∧ ∀ n ∈ ds.map (·.2), n < count ∧ n ∉ used := by
  induction ds generalizing used
  case nil => simp
  case cons d ds ih =>
    simp only [checkPinned] at h
    split at h <;> try contradiction
    split at h <;> try contradiction
    have ⟨hn, hb⟩ := ih h
    simp only [List.map_cons, List.nodup_cons, List.forall_mem_cons]
    refine ⟨⟨fun hm => ?_, hn⟩, ⟨by omega, ‹_›⟩, fun n hm => ⟨(hb n hm).1, ?_⟩⟩
    · exact (hb _ hm).2 (List.mem_cons_self ..)
    · exact fun hu => (hb n hm).2 (List.mem_cons_of_mem _ hu)

-- Numbers below a bound, each at most once and as many as there are, are all of them.
theorem perm_range {ns : List Nat} (hn : ns.Nodup) (hb : ∀ n ∈ ns, n < ns.length) :
    ns.Perm (List.range ns.length) := by
  refine (List.subperm_of_subset hn fun n hm => List.mem_range.mpr (hb n hm)).perm_of_length_le ?_
  simp

theorem withOrdinals_perm {t : TypeDecl} {ds : List (FieldDecl × Nat)}
    (h : t.withOrdinals = .ok ds) : (ds.map (·.2)).Perm (List.range ds.length) := by
  simp only [withOrdinals] at h
  split at h
  case isTrue =>
    cases h
    rw [List.zipIdx_map_snd, List.range_eq_range', List.length_zipIdx]
  case isFalse =>
    split at h <;> try contradiction
    have hl : _ = _ := Decidable.not_not.mp ‹_›
    generalize hc : checkPinned t.name t.fields.length [] _ = checked at h
    cases checked <;> cases h
    have ⟨hn, hb⟩ := checkPinned_ok hc
    rw [← List.length_map (·.2)]
    exact perm_range hn fun n hm => by simpa [hl] using (hb n hm).1

theorem target_lt_of_resolve?_ok {types : List String} {owner : String} {t : FieldType}
    {k : FieldKind} (h : t.resolve? types owner = .ok k) :
    ∀ id ∈ k.target?, id.index < types.length := by
  induction t generalizing k
  case scalar => cases h; simp [FieldKind.target?]
  case named =>
    simp only [FieldType.resolve?] at h
    split at h
    case isTrue => cases h; simp [FieldKind.target?]
    case isFalse =>
      split at h <;> cases h
      case h_1 hi =>
        have ⟨hlt, _⟩ := List.idxOf?_eq_some_iff.mp hi
        simpa [FieldKind.target?] using hlt
  case list inner ih =>
    simp only [FieldType.resolve?] at h
    cases hi : inner.resolve? types owner <;> rw [hi] at h <;> cases h
    exact fun id => ih hi id

theorem resolveFields_ok {types seen : List String} {ds : List (FieldDecl × Nat)}
    (h : resolveFields type types seen ds = .ok fields) :
    (fields.map (·.name)).Nodup ∧ (∀ n ∈ fields.map (·.name), n ∉ seen) ∧
      fields.map (·.ordinal) = ds.map (·.2) ∧
      ∀ f ∈ fields, ∀ id ∈ f.kind.target?, id.index < types.length := by
  induction ds generalizing seen fields
  case nil => cases h; simp
  case cons d ds ih =>
    simp only [resolveFields] at h
    split at h
    case isTrue => cases h
    case isFalse hd =>
      have ⟨kind, hk, h⟩ := ok_of_bind_ok h
      have ⟨rest, hr, h⟩ := ok_of_bind_ok h
      cases h
      have ⟨hn, hs, ho, ht⟩ := ih hr
      have hk : d.1.type.resolve? types type = .ok kind := by
        cases hf : d.1.type.resolve? types type <;> rw [hf] at hk <;> cases hk
        rfl
      simp only [List.map_cons, List.nodup_cons, List.forall_mem_cons, ho]
      refine ⟨⟨fun hm => ?_, hn⟩, ⟨hd, fun n hm hu => ?_⟩, trivial, target_lt_of_resolve?_ok hk, ht⟩
      · exact hs _ hm (List.mem_cons_self ..)
      · exact hs n hm (List.mem_cons_of_mem _ hu)

-- Fields are resolved with the ordinals of their declarations, which are those of their places in
-- some order.
theorem perm_of_resolveFields {t : TypeDecl} {types : List String} {ds : List (FieldDecl × Nat)}
    (ordinals : t.withOrdinals = .ok ds) (resolved : resolveFields type types [] ds = .ok fields) :
    (fields.map (·.ordinal)).Perm (List.range fields.length) := by
  have same : fields.map (·.ordinal) = ds.map (·.2) := (resolveFields_ok resolved).2.2.1
  have length : fields.length = ds.length := by simpa using congrArg List.length same
  exact same ▸ length ▸ withOrdinals_perm ordinals

section ByOrdinal

variable (h : (fields.map (·.ordinal)).Perm (List.range fields.length))
include h

theorem find?_ordinal {i : Nat} (hi : i < fields.length) :
    ∃ f ∈ fields, f.ordinal = i ∧ fields.find? (·.ordinal = i) = some f := by
  have ⟨g, hg, ho⟩ := List.mem_map.mp <| h.mem_iff.mpr (List.mem_range.mpr hi)
  cases hf : fields.find? (·.ordinal = i)
  case none   => exact absurd ho (by simpa using List.find?_eq_none.mp hf g hg)
  case some f => exact ⟨f, List.mem_of_find?_eq_some hf, by simpa using List.find?_some hf, rfl⟩

theorem byOrdinal_ordinals : (byOrdinal fields).map (·.ordinal) = List.range fields.length := by
  rw [byOrdinal, List.map_filterMap]
  have found : ∀ i ∈ List.range fields.length,
      (fields.find? (·.ordinal = i)).map (·.ordinal) = some i := by
    intro i hi
    have ⟨f, _, ho, hf⟩ := find?_ordinal h (List.mem_range.mp hi)
    simp [hf, ho]
  rw [List.filterMap_congr found, List.filterMap_some]

theorem byOrdinal_perm : (byOrdinal fields).Perm fields := by
  have hn : (byOrdinal fields).Nodup :=
    .of_map (·.ordinal) (byOrdinal_ordinals h ▸ List.nodup_range)
  have hl : (byOrdinal fields).length = fields.length := by
    simpa using congrArg List.length (byOrdinal_ordinals h)
  refine (List.subperm_of_subset hn fun f hf => ?_).perm_of_length_le (Nat.le_of_eq hl.symm)
  have ⟨_, _, hf⟩ := List.mem_filterMap.mp hf
  exact List.mem_of_find?_eq_some hf

end ByOrdinal

end TypeDecl

end RecordDecoding
