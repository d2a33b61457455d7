import RecordDecoding.External.Uuid
import RecordDecoding.Proofs.Base64
import RecordDecoding.Proofs.Decode.Balance
import RecordDecoding.Proofs.Decode.Conforms
import RecordDecoding.Proofs.Decode.Reordering
import RecordDecoding.Proofs.Json.Writer
import RecordDecoding.Proofs.Uuid
import RecordDecoding.Record.Json

namespace RecordDecoding

open TokenTree

namespace Json

theorem memberTrees_eq_map (members : List (String × Json)) :
    memberTrees members = members.map fun m => (.fresh m.1, m.2.tree) := by
  induction members
  case nil     => rfl
  case cons ih => rw [memberTrees, ih, List.map_cons]

end Json

namespace Value

variable [UuidFormat]

theorem listToJson_eq_map (items : List Value) : listToJson items = items.map toJson := by
  induction items
  case nil     => rfl
  case cons ih => rw [listToJson, ih, List.map_cons]

theorem membersOf_eq_flatMap (fields : List (FieldValue Value)) :
    membersOf fields = fields.flatMap fun f => memberOf f.name f.slot := by
  induction fields
  case nil     => rfl
  case cons ih => rw [membersOf, ih, List.flatMap_cons]

end Value

-- What the member for a slot says of its field, if there is one.
def Slot.said? : Slot Value → Option (TriState Value)
  | value .null         => some .null
  | value v             => some (.value v)
  | optional .undefined => none
  | optional state      => some state

namespace TokenTree.States

-- What the members for some slots say of their fields.
def ofSlots : List Field → List (FieldValue Value) → States
  | field :: fields, f :: fs => f.slot.said?.toList.map (field, ·) ++ ofSlots fields fs
  | _, _                     => []

theorem fields_ofSlots : ∀ (fields : List Field) (fs : List (FieldValue Value)),
    ((ofSlots fields fs).map (·.1)).Sublist fields
  | [], _                    => .slnil
  | _ :: _, []               => List.nil_sublist _
  | field :: fields, f :: fs => by
    rw [ofSlots, List.map_append]
    cases f.slot.said?
    case none => exact (fields_ofSlots fields fs).cons field
    case some => exact (fields_ofSlots fields fs).cons_cons field

-- What is said first counts where nothing is said later.
theorem last?_behind (field other : Field) (state : Option (TriState Value)) (states : States) :
    States.last? (state.toList.map (field, ·) ++ states) other =
      (states.last? other).or (if field = other then state else none) := by
  rw [States.last?, List.reverse_append, List.find?_append, Option.map_or]
  cases state
  case none   => simp [States.last?]
  case some s => by_cases h : field = other <;> simp [States.last?, h]

theorem last?_of_not_mem {states : States} {field : Field} (h : field ∉ states.map (·.1)) :
    states.last? field = none := by
  rw [last?_eq_none_iff, List.any_eq_false]
  intro p hp he
  exact h (of_decide_eq_true he ▸ List.mem_map_of_mem hp)

-- With each field there once, the slots are all that is said of the fields.
theorem last?_ofSlots {fields : List Field} (once : fields.Nodup) {fs : List (FieldValue Value)}
    (same : fields.length = fs.length) :
    List.Forall₂ (fun field f => (ofSlots fields fs).last? field = f.slot.said?) fields fs := by
  induction fields generalizing fs
  case nil =>
    cases List.length_eq_zero_iff.mp same.symm
    exact .nil
  case cons field fields ih =>
    cases fs
    case nil => cases same
    case cons f fs =>
      have ⟨fresh, once⟩ := List.nodup_cons.mp once
      have unsaid := last?_of_not_mem fun h => fresh ((fields_ofSlots fields fs).mem h)
      have other : ∀ other ∈ fields, field ≠ other := fun _ ho h => fresh (h ▸ ho)
      have said := ih once (Nat.succ.inj same)
      refine .cons ?_ (((List.forall₂_and_left _ _).mpr ⟨other, said⟩).imp ?_)
      · rw [ofSlots, last?_behind, unsaid, if_pos rfl, Option.none_or]
      · intro other f ⟨ne, said⟩
        rw [ofSlots, last?_behind, if_neg ne, Option.or_none, said]

end TokenTree.States

namespace Slot.Suits

variable {Fits Fits' : Value → Prop} {field : Field} {slot : Slot Value} {states : States}

theorem imp (h : slot.Suits Fits field) (hi : ∀ {v}, Fits v → Fits' v) :
    slot.Suits Fits' field := by
  cases h
  case undefined h     => exact .undefined h
  case null h          => exact .null h
  case state h ne fits => exact .state h ne (hi fits)
  case absent h h'     => exact .absent h h'
  case value h ne fits => exact .value h ne (hi fits)

-- A field without a member need not be there.
theorem isRequired_of_said?_eq_none (h : slot.Suits Fits field) (hn : slot.said? = none) :
    field.isRequired = false := by
  cases h
  case undefined tri => simp [Field.isRequired, tri]
  case null tri      => simp [Field.isRequired, tri]
  case state         => cases hn
  case absent h      => exact h
  case value         => exact absurd hn (by simp [said?])

-- What is said of a field makes the slot that said it.
theorem slot_eq (h : slot.Suits Fits field) (hs : states.last? field = slot.said?) :
    states.slot field = slot := by
  unfold States.slot
  cases h
  case undefined tri => simp [tri, hs, said?]
  case null tri      => simp [tri, hs, said?]
  case state tri _ _ => simp [tri, hs, said?]
  case absent tri _  => simp [tri, hs, said?]
  case value tri _ _ => simp [tri, hs, said?]

end Slot.Suits

namespace RecordOf.Suits

variable {Fits Fits' : FieldKind → Value → Prop} {schema : Schema} {r : Record}

theorem imp (h : r.Suits Fits schema)
    (hi : ∀ field ∈ schema.fields, ∀ v, Fits field.kind v → Fits' field.kind v) :
    r.Suits Fits' schema where
  typeName := h.typeName
  ordinals := h.ordinals
  fields   :=
    ((List.forall₂_and_left _ _).mpr ⟨hi, h.fields⟩).imp fun _ _ ⟨hi, hn, suits⟩ =>
      ⟨hn, suits.imp (hi _)⟩

-- What is said last of each field is what its slot says.
theorem said (h : r.Suits Fits schema) (wf : schema.WellFormed) :
    List.Forall₂ (fun field f => (f.name = field.name ∧ f.slot.Suits (Fits field.kind) field) ∧
      (States.ofSlots schema.fields r.fields).last? field = f.slot.said?) schema.fields r.fields :=
  h.fields.mp (fun _ _ => And.intro) (States.last?_ofSlots (.of_map _ wf.names) h.fields.length_eq)

-- What is said of the fields makes the record that said it.
theorem record_ofSlots (h : r.Suits Fits schema) (wf : schema.WellFormed) :
    (States.ofSlots schema.fields r.fields).record schema = r := by
  have fields : schema.fields.map (fun field =>
      ⟨field.name, (States.ofSlots schema.fields r.fields).slot field⟩) = r.fields := by
    rw [← List.forall₂_eq_eq_eq, List.forall₂_map_left_iff]
    refine (h.said wf).imp fun field f ⟨⟨hn, suits⟩, said⟩ => ?_
    rw [← hn, suits.slot_eq said]
  rw [States.record, fields, ← h.typeName]

-- Nothing is missing that has to be there.
theorem missing_eq_nil (h : r.Suits Fits schema) (wf : schema.WellFormed)
    {members : List (MemberName × TokenTree)} (names : ∀ field ∈ schema.fields,
      (States.ofSlots schema.fields r.fields).any (·.1 = field) =
        members.any (·.1.text = field.name)) :
    missing schema members = [] := by
  refine List.filter_eq_nil_iff.mpr fun field hf hm => ?_
  have ⟨required, absent⟩ := Bool.and_eq_true_iff.mp hm
  have ⟨f, _, ⟨_, suits⟩, said⟩ := exists_right_of_forall₂ (h.said wf) hf
  have unsaid : (States.ofSlots schema.fields r.fields).last? field = none := by
    rw [States.last?_eq_none_iff, names field hf, ← Bool.not_eq_true', List.not_any_eq_all_not]
    simpa using absent
  exact absurd required (by simp [suits.isRequired_of_said?_eq_none (said ▸ unsaid)])

end RecordOf.Suits

-- How a leaf is read is the inverse of how scalars of some sort are written.
def ScalarReading.Inverts [UuidFormat] (read : ScalarReading) (scalars : ScalarKind → Prop) :
    Prop :=
  ∀ {k v}, scalars k → k.Admits v → ∃ l : Leaf, v.toJson.tree = .leaf l ∧ l ≠ .null ∧
    v.toJson.Proper ∧ read k l = .ok v

section

variable (set : SchemaSet) (rules : DecodeRules) (read : ScalarReading)

-- The JSON of a value is proper, and for a field of `owner` as some kind it is that value again.
structure Value.Returns [UuidFormat] (owner : Schema) (depth : Nat) (k : FieldKind) (v : Value) :
    Prop where
  proper  : v.toJson.Proper
  kind_ne : v.toJson.tree.kind ≠ .null
  verdict (field index) :
    v.toJson.tree.verdict set rules (fun _ => read) owner field k depth index = .ok v

end

namespace Value.Returns

variable {set : SchemaSet} {rules : DecodeRules} {read : ScalarReading} {schema : Schema}
variable {depth : Nat} {k : FieldKind}

theorem scalar [UuidFormat] {scalars : ScalarKind → Prop} {k : ScalarKind} {v : Value}
    (inverts : read.Inverts scalars) (hk : scalars k) (admits : k.Admits v) :
    v.Returns set rules read schema depth (.scalar k) := by
  have ⟨l, tree, ne_null, proper, hr⟩ := inverts hk admits
  refine ⟨proper, tree ▸ mt Leaf.eq_null_of_kind ne_null, fun field index => ?_⟩
  rw [tree, TokenTree.verdict, hr]
  rfl

section Items

variable [UuidFormat]
variable {items : List Value}

theorem itemVerdicts {field : Field}
    (h : ∀ v ∈ items, v.Returns set rules read schema depth k) {index count : Nat}
    (few : count + items.length ≤ rules.maxListLength) :
    TokenTree.itemVerdicts set rules (fun _ => read) schema field k depth index count
      (Json.itemTrees (listToJson items)) = .ok items := by
  induction items generalizing index count
  case nil => rfl
  case cons v items ih =>
    have ⟨hv, h⟩ := List.forall_mem_cons.mp h
    rw [List.length_cons] at few
    rw [listToJson, Json.itemTrees, TokenTree.itemVerdicts, if_neg hv.kind_ne, if_neg (by omega),
      hv.verdict, ih h (by omega)]
    rfl

theorem list (h : ∀ v ∈ items, v.Returns set rules read schema (depth + 1) k)
    (few : items.length ≤ rules.maxListLength) (room : depth < rules.maxDepth) :
    (Value.list items).Returns set rules read schema depth (.list k) where
  proper  := by
    rw [toJson, listToJson_eq_map]
    exact Json.proper_array_iff.mpr (List.forall_mem_map.mpr fun v hv => (h v hv).proper)
  kind_ne := nofun
  verdict field index := by
    rw [toJson, Json.tree, TokenTree.verdict, inside, if_neg (Nat.not_le_of_lt room),
      itemVerdicts h ((Nat.zero_add _).symm ▸ few)]
    rfl

end Items

section Members

variable (wf : schema.WellFormed) {field : Field} (known : field ∈ schema.fields)
variable {members : List (String × Json)} {states : States}
variable (rest : ∀ index, memberVerdicts set rules (fun _ => read) schema depth index
  (Json.memberTrees members) = .ok states)
include wf known rest

-- A member with the name of a field speaks of it in front of others.
theorem memberVerdicts_named {j : Json} {state : TriState Value}
    (said : ∀ index, stateOf schema field j.tree.kind
      (j.tree.verdict set rules (fun _ => read) schema field field.kind depth index) = .ok state)
    (index : Nat) :
    memberVerdicts set rules (fun _ => read) schema depth index
      (Json.memberTrees ((field.name, j) :: members)) = .ok ((field, state) :: states) := by
  have found : schema.fieldNamed? (MemberName.fresh field.name).text = some field :=
    wf.fieldNamed?_name known
  rw [Json.memberTrees, memberVerdicts, found]
  dsimp only
  rw [said, rest]
  rfl

theorem null_member (optional : field.isRequired = false) (index : Nat) :
    memberVerdicts set rules (fun _ => read) schema depth index
      (Json.memberTrees ((field.name, .null) :: members)) = .ok ((field, .null) :: states) := by
  refine memberVerdicts_named wf known rest (fun _ => ?_) index
  exact (if_pos rfl).trans (if_neg (by simp [optional]))

theorem value_member [UuidFormat] {v : Value} (h : v.Returns set rules read schema depth field.kind)
    (index : Nat) :
    memberVerdicts set rules (fun _ => read) schema depth index
      (Json.memberTrees ((field.name, v.toJson) :: members)) =
        .ok ((field, .value v) :: states) := by
  refine memberVerdicts_named wf known rest (fun index => ?_) index
  rw [stateOf, if_neg h.kind_ne, h.verdict]
  rfl

end Members

end Value.Returns

section Records

variable [UuidFormat]
variable {set : SchemaSet} {rules : DecodeRules} {read : ScalarReading} {schema : Schema}
variable {depth : Nat}

section Slots

variable {field : Field} {slot : Slot Value}
variable (suits : slot.Suits (Value.Returns set rules read schema depth field.kind) field)
include suits

theorem Slot.Suits.proper : ∀ m ∈ Value.memberOf field.name slot, m.2.Proper := by
  cases suits
  case undefined  => exact List.forall_mem_nil _
  case null       => exact List.forall_mem_singleton.mpr Json.proper_null
  case state back => exact List.forall_mem_singleton.mpr back.proper
  case absent     => exact List.forall_mem_singleton.mpr Json.proper_null
  case value back => exact List.forall_mem_singleton.mpr back.proper

-- The member for a slot says what it should, in front of others.
theorem Slot.Suits.memberVerdicts (wf : schema.WellFormed) (known : field ∈ schema.fields)
    {members : List (String × Json)} {states : States}
    (rest : ∀ index, memberVerdicts set rules (fun _ => read) schema depth index
      (Json.memberTrees members) = .ok states) (index : Nat) :
    memberVerdicts set rules (fun _ => read) schema depth index
      (Json.memberTrees (Value.memberOf field.name slot ++ members)) =
        .ok (slot.said?.toList.map (field, ·) ++ states) := by
  cases suits
  case undefined       => exact rest index
  case null tri        =>
    exact Value.Returns.null_member wf known rest (by simp [Field.isRequired, tri]) index
  case state back      => exact back.value_member wf known rest index
  case absent optional => exact Value.Returns.null_member wf known rest optional index
  case value v _ _ back =>
    have said : (Slot.value v).said? = some (.value v) := by simp [Slot.said?]
    rw [said]
    exact back.value_member wf known rest index

end Slots

-- The members for the slots say what these say of their fields.
theorem TokenTree.memberVerdicts_membersOf (wf : schema.WellFormed) {fields : List Field}
    (known : fields ⊆ schema.fields) {fs : List (FieldValue Value)}
    (suits : List.Forall₂ (fun field f => f.name = field.name ∧
      f.slot.Suits (Value.Returns set rules read schema depth field.kind) field) fields fs)
    (index : Nat) :
    memberVerdicts set rules (fun _ => read) schema depth index
      (Json.memberTrees (Value.membersOf fs)) = .ok (.ofSlots fields fs) := by
  induction suits generalizing index
  case nil => rfl
  case cons field f fields fs hf _ ih =>
    have ⟨hn, suits⟩ := hf
    have ⟨known, sub⟩ := List.cons_subset.mp known
    rw [Value.membersOf_eq_flatMap, List.flatMap_cons, ← Value.membersOf_eq_flatMap, hn]
    exact suits.memberVerdicts wf known (ih sub) index

namespace RecordOf.Suits

variable {r : Record} (suits : r.Suits (Value.Returns set rules read schema (depth + 1)) schema)
variable (wf : schema.WellFormed) (room : depth < rules.maxDepth)
include suits wf room

-- Members in the order of the fields make the record.
theorem objectVerdict_inOrder (index : Nat) :
    TokenTree.NamedOnce schema (Json.memberTrees (Value.membersOf r.fields)) ∧
      objectVerdict set rules (fun _ => read) schema depth index
        (Json.memberTrees (Value.membersOf r.fields)) = .ok r := by
  have verdicts := memberVerdicts_membersOf wf (List.Subset.refl _) suits.fields
  have ⟨_, names⟩ := memberVerdicts_ok wf (verdicts (index + 1))
  constructor
  case left =>
    rw [NamedOnce, ← fields_of_memberVerdicts (verdicts 0)]
    exact (States.fields_ofSlots ..).nodup (.of_map _ wf.names)
  case right =>
    rw [objectVerdict, inside, if_neg (Nat.not_le_of_lt room), verdicts]
    show close _ _ _ = _
    rw [close, suits.missing_eq_nil wf names, suits.record_ofSlots wf]

-- The order of the members does not matter, since each field is named once.
theorem objectVerdict_sorted (index : Nat) :
    objectVerdict set rules (fun _ => read) schema depth index
      (Json.memberTrees (sortByName (Value.membersOf r.fields))) = .ok r := by
  have ⟨once, inOrder⟩ := suits.objectVerdict_inOrder wf room index
  have perm : (Json.memberTrees (Value.membersOf r.fields)).Perm
      (Json.memberTrees (sortByName (Value.membersOf r.fields))) := by
    simp only [Json.memberTrees_eq_map]
    exact (List.mergeSort_perm ..).symm.map _
  refine ((objectVerdict_agree once (perm.map _) ?_).ok_iff r).mp inOrder
  exact memberVerdicts_perm perm

theorem returns {owner : Schema} {k : FieldKind} (found : k.schema? set owner = some schema) :
    (Value.record r).Returns set rules read owner depth k where
  proper  := by
    rw [Value.toJson]
    refine Json.proper_object_iff.mpr fun m hm => ?_
    have hm := (List.mergeSort_perm ..).mem_iff.mp hm
    rw [Value.membersOf_eq_flatMap] at hm
    have ⟨f, hf, hm⟩ := List.mem_flatMap.mp hm
    have ⟨field, _, hn, slot⟩ := exists_left_of_forall₂ suits.fields hf
    exact slot.proper m (hn ▸ hm)
  kind_ne := nofun
  verdict field index := by
    rw [Value.toJson, Json.tree, verdict_object _ _ found, suits.objectVerdict_sorted wf room]
    rfl

end RecordOf.Suits

end Records

section Values

variable {set : SchemaSet} {opt : DecodeOptions} {read : ScalarReading} {scope : set.Scope}

theorem Value.fits_scalar_iff {room : Nat} {owner : Schema} {k : ScalarKind} {v : Value} :
    v.Fits set opt room owner (.scalar k) ↔ k.Admits v := by
  cases room <;> rw [Value.Fits]

-- What fits comes back, wherever there is room for it. The induction is on the room, since less of
-- it is left inside of each record and list.
theorem Value.Fits.returns [UuidFormat] (inverts : read.Inverts scope.scalars) {room depth : Nat}
    (levels : room + depth = opt.maxDepth) {owner : Schema} (known : scope.schemas owner)
    {k : FieldKind} (has : scope.Has k) {v : Value} (fits : v.Fits set opt room owner k) :
    v.Returns set opt.rules read owner depth k := by
  induction room generalizing depth owner k v
  case zero =>
    cases k
    case scalar k => exact .scalar inverts (has.scalar k rfl) (Value.fits_scalar_iff.mp fits)
    all_goals cases v <;> cases fits
  case succ room ih =>
    have inner : room + (depth + 1) = opt.maxDepth := by omega
    have open_ : depth < opt.rules.maxDepth := by
      rw [DecodeOptions.rules_maxDepth]
      omega
    have record {target : Schema} (known : scope.schemas target) {r : Record}
        (suits : r.Suits (Value.Fits set opt room target) target) :
        r.Suits (Value.Returns set opt.rules read target (depth + 1)) target :=
      suits.imp fun field hf v fits => ih inner known (scope.among known hf) fits
    cases k
    case scalar k => exact .scalar inverts (has.scalar k rfl) (Value.fits_scalar_iff.mp fits)
    case nested id =>
      cases v
      case record r =>
        have ⟨target, found, suits⟩ := fits
        have ⟨target', found', known⟩ := has.get
        cases found.symm.trans found'
        exact (record known suits).returns (scope.wellFormed known) open_ found
      all_goals cases fits
    case recursive =>
      cases v
      case record r => exact (record known fits).returns (scope.wellFormed known) open_ rfl
      all_goals cases fits
    case list k =>
      cases v
      case list items =>
        have ⟨few, each⟩ := fits
        exact .list (fun v hv => ih inner known has.inner (each v hv).2) few open_
      all_goals cases fits

end Values

section Scalars

theorem IntWidth.Holds.exists_int64 {width : IntWidth} {n : Int} (h : width.Holds n) :
    ∃ m : Int64, m.toInt = n := by
  have half : width.half ≤ 2 ^ 63 := by cases width <;> decide
  have ⟨lower, upper⟩ := h
  have least : Int64.minValue.toInt = -2 ^ 63 := rfl
  refine ⟨.ofInt n, Int64.toInt_ofInt_of_le ?_ ?_⟩ <;> omega

-- A number is written as the numeral that stands for it.
theorem Leaf.readText_ofLiteral [UuidFormat] {width : IntWidth} {n : Int} (h : width.Holds n) :
    (ofLiteral (toString n)).readText (.int width) = .ok (.int width n) := by
  have ⟨m, hm⟩ := h.exists_int64
  have read : readInt64? (toString n) = some m :=
    readInt64?_eq_some_iff.mpr (hm.symm ▸ Numeral.toInt?_toString n)
  rw [ofLiteral_integer (Numeral.isInteger_toString n)]
  simp only [readText, Leaf.read, read, hm, ScalarKind.narrow, if_pos h]

theorem Json.proper_ofInt (n : Int) : (ofInt n).Proper :=
  proper_number_iff.mpr (Numeral.isInteger_toString n).isNumber

-- What is written for a scalar is what a cursor over a text reads. Floats and integers of any size
-- are not among these.
theorem Leaf.readText_inverts [UuidFormat]
    (inverts : ∀ uuid : Uuid, UuidFormat.parse (UuidFormat.text uuid) = .ok uuid) :
    ScalarReading.Inverts (fun k l => l.readText k) fun k => k ≠ .bigInt ∧ k ≠ .f32 ∧ k ≠ .f64 := by
  intro k v exact admits
  cases admits
  case string s     => exact ⟨.string s, rfl, by simp, Json.proper_string s, rfl⟩
  case bool b       => exact ⟨.bool b, rfl, by simp, Json.proper_bool b, rfl⟩
  case int width n holds =>
    refine ⟨.ofLiteral (toString n), rfl, ?_, Json.proper_ofInt n, readText_ofLiteral holds⟩
    exact ofLiteral_integer (Numeral.isInteger_toString n) ▸ by simp
  case binary bytes =>
    refine ⟨.string (Base64.encode bytes), rfl, by simp, Json.proper_string _, ?_⟩
    simp only [readText, Leaf.read, Base64.decode?_encode]
  case uuid id      =>
    refine ⟨.string (UuidFormat.text id), rfl, by simp, Json.proper_string _, ?_⟩
    simp only [readText, Leaf.read, ScalarKind.readUuid, inverts]
  case bigInt => exact absurd rfl exact.1
  case f32    => exact absurd rfl exact.2.1
  case f64    => exact absurd rfl exact.2.2

end Scalars

section

variable {set : SchemaSet} {id : SchemaId} {schema : Schema}

-- All scalars that are met from a schema on are read as they are written.
def SchemaSet.Exact (set : SchemaSet) (schema : Schema) : Prop :=
  ∀ s, set.Reaches schema s → ∀ f ∈ s.fields, ∀ k ∈ f.kind.scalar?,
    k ≠ .bigInt ∧ k ≠ .f32 ∧ k ≠ .f64

namespace SchemaSet.WellFormed

variable [UuidFormat]
variable (wf : set.WellFormed) (found : set.get? id = some schema)
include wf found

theorem returns_of_conforms
    (inverts : ∀ uuid : Uuid, UuidFormat.parse (UuidFormat.text uuid) = .ok uuid)
    (exact : set.Exact schema) {opt : DecodeOptions} {r : Record}
    (h : r.Conforms set opt schema) :
    (Value.record r).Returns set opt.rules (fun k l => l.readText k) schema 0 .recursive :=
  let scope := wf.reached (List.mem_of_getElem? found) exact
  Value.Fits.returns (Leaf.readText_inverts inverts) rfl (show scope.schemas schema from .root)
    scope.has_recursive h

-- Nothing is left in a text that a record was decoded from.
theorem finish_of_decodeRecord {opt : DecodeOptions} {j : Json} {bytes : List UInt8}
    (text : Json.IsText j bytes) {c : TextCursor} (hc : TextCursor.ofBytes bytes = .ok c)
    {r : Option Record} {s : Session TextCursor}
    (h : (decodeRecord set id opt).run { cursor := c } = .ok r s) :
    ∃ c', TextCursor.finish.run s.cursor = .ok () c' := by
  have ⟨c₀, hc₀, before⟩ := TextCursor.exists_before text
  cases hc.symm.trans hc₀
  have takes := TextCursor.balancing.decodeRecord_takes wf found opt []
    (s := { cursor := c }) before
  rw [h] at takes
  cases takes
  case ok behind => exact (TextCursor.finish_behind behind).2.2

end SchemaSet.WellFormed

-- Whatever a record was decoded from, it is decoded again from any text of its JSON, and nothing is
-- left of the text then. What is written for it, compact or pretty, is such a text. All this is so
-- if identifiers are read back from what is written for them.
theorem decodeRecord_toJson [UuidFormat]
    (inverts : ∀ uuid : Uuid, UuidFormat.parse (UuidFormat.text uuid) = .ok uuid)
    {types : List TypeDecl} (built : SchemaSet.build types = .ok set)
    (found : set.get? id = some schema) (exact : set.Exact schema) (opt : DecodeOptions)
    {σ : Type} [Cursor σ] {s s' : Session σ} {r : Record}
    (h : (decodeRecord set id opt).run s = .ok (some r) s') :
    (∀ bytes, Json.IsText r.toJson bytes → ∃ c, TextCursor.ofBytes bytes = .ok c ∧
      ∃ s₁, (decodeRecord set id opt).run { cursor := c } = .ok (some r) s₁ ∧
        ∃ c', TextCursor.finish.run s₁.cursor = .ok () c') ∧
    Json.IsText r.toJson (Utf8.encode r.toJson.compact) ∧
    Json.IsText r.toJson (Utf8.encode r.toJson.pretty) := by
  have wf := SchemaSet.wellFormed_of_build built
  simp only [decodeRecord, found] at h
  have conforms := wf.decodeRecordOf_conforms opt (wf.get? found) h r rfl
  have returns := wf.returns_of_conforms found inverts exact conforms
  refine ⟨fun bytes text => ?_, returns.proper.isText_compact, returns.proper.isText_pretty⟩
  have tree : r.toJson.tree =
      .object (Json.memberTrees (sortByName (Value.membersOf r.fields))) := by
    rw [RecordOf.toJson, Value.toJson, Json.tree]
  have verdict := returns.verdict ⟨"", 0, .recursive, false, false⟩ 0
  rw [show (Value.record r).toJson.tree = _ from tree, verdict_root] at verdict
  obtain ⟨c, hc, heeds⟩ := heeds_of_text wf found tree text
  have result := (heeds opt).result_eq (eq_of_map_eq (fun _ _ => Value.record.inj) verdict)
  obtain ⟨s₁, ho⟩ := Outcome.exists_of_result result
  exact ⟨c, hc, s₁, ho, wf.finish_of_decodeRecord found text hc ho⟩

-- A node with an identifier, a key and two numbers, and another one in it that has no node in turn.
theorem decodeRecord_toJson_node :
    let _ : UuidFormat := .hyphenated
    let types : List TypeDecl := [⟨"Node", [
      { name := "key", type := .scalar .binary },
      { name := "ids", type := .list (.scalar (.int .w8)), nullable := true },
      { name := "mark", type := .scalar .uuid, nullable := true },
      { name := "next", type := .named "Node", triState := true }]⟩]
    let schema : Schema := ⟨⟨0⟩, "Node", [
      ⟨"key", 0, .scalar .binary, false, false⟩,
      ⟨"ids", 1, .list (.scalar (.int .w8)), true, false⟩,
      ⟨"mark", 2, .scalar .uuid, true, false⟩, ⟨"next", 3, .recursive, false, true⟩]⟩
    let members : List (MemberName × TokenTree) := [
      (.fresh "next", .object [(.fresh "next", .leaf .null), (.fresh "key", .leaf (.string ""))]),
      (.fresh "mark", .leaf (.string "00000000-0000-0000-0000-0000000000ff")),
      (.fresh "key", .leaf (.string "AQI")),
      (.fresh "ids", .array [.leaf (.int 1), .leaf (.int 2)])]
    let inner : Record := ⟨"Node", [
      ⟨"key", .value (.binary [])⟩, ⟨"ids", .value .null⟩, ⟨"mark", .value .null⟩,
      ⟨"next", .optional .null⟩]⟩
    let outer : Record := ⟨"Node", [
      ⟨"key", .value (.binary [1, 2])⟩, ⟨"ids", .value (.list [.int .w8 1, .int .w8 2])⟩,
      ⟨"mark", .value (.uuid ⟨255⟩)⟩, ⟨"next", .optional (.value (.record inner))⟩]⟩
    (∀ uuid : Uuid, UuidFormat.parse (UuidFormat.text uuid) = .ok uuid) ∧
    SchemaSet.build types = .ok ⟨[schema]⟩ ∧ SchemaSet.Exact ⟨[schema]⟩ schema ∧
      ∃ r s, Replay.ofTokens (object members).tokens none = .ok r ∧
        (decodeRecord ⟨[schema]⟩ ⟨0⟩ .default).run { cursor := r } = .ok (some outer) s ∧
        ∃ c, TextCursor.ofBytes (Utf8.encode outer.toJson.compact) = .ok c ∧
          ∃ s₁, (decodeRecord ⟨[schema]⟩ ⟨0⟩ .default).run { cursor := c } = .ok (some outer) s₁ ∧
            ∃ c', TextCursor.finish.run s₁.cursor = .ok () c' := by
  intro _ types schema members inner outer
  have inverts := UuidFormat.hyphenated_inverts
  have built : SchemaSet.build types = .ok ⟨[schema]⟩ := by rfl
  have found : SchemaSet.get? ⟨[schema]⟩ ⟨0⟩ = some schema := rfl
  have exact : SchemaSet.Exact ⟨[schema]⟩ schema := by
    intro s reached
    have only : s = schema := List.mem_singleton.mp (reached.mem (List.mem_singleton_self _))
    subst only
    simp [schema, FieldKind.scalar?]
  obtain ⟨r, hr, heeds⟩ := heeds_of_tokens (SchemaSet.wellFormed_of_build built) found members
  have result := (heeds .default).result_eq (r := outer) (by with_unfolding_all rfl)
  obtain ⟨s, ho⟩ := Outcome.exists_of_result result
  obtain ⟨back, text, _⟩ := decodeRecord_toJson inverts built found exact .default ho
  exact ⟨inverts, built, exact, r, s, hr, ho, back _ text⟩

end

end RecordDecoding
