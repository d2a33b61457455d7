import Mathlib.Data.List.Forall2
import RecordDecoding.External.Uuid
import RecordDecoding.Proofs.Answers
import RecordDecoding.Proofs.Decode.Conforms
import RecordDecoding.Proofs.Decode.Integers
import RecordDecoding.Proofs.Number.Rounding
import RecordDecoding.Record.Reading

namespace RecordDecoding

open Forward

namespace ReadType

-- The types that hold all values of a scalar type.
inductive Holds : ScalarKind → ReadType → Prop
  | string : Holds .string .string
  | bool : Holds .bool .bool
  | int {width wanted : IntWidth} : width.bits ≤ wanted.bits → Holds (.int width) (.int wanted)
  | wideInt {width} : Holds (.int width) .wideInt
  | numeral : Holds .bigInt .string
  | f32 : Holds .f32 .f32
  | widened : Holds .f32 .f64
  | f64 : Holds .f64 .f64
  | binary : Holds .binary .binary
  | uuid : Holds .uuid .uuid

inductive TakesNull : ReadType → Prop
  | any : TakesNull .any
  | option {t} : TakesNull (.option t)

end ReadType

-- A field is read so that null and absence are told apart, or can be told, or do not occur.
def Field.IsCovered (field : Field) (read : ReadMode × ReadType) : Prop :=
  field.isRequired ∨ read.1 = .triState ∨ read.2.TakesNull

-- The types that match a kind in a field of `owner`, for values that have at most `room` records
-- and lists inside each other. A type of records that refers to itself is given by unfolding it
-- that often; whatever stands further inside is not read.
inductive ReadType.Takes (set : SchemaSet) :
    (room : Nat) → (owner : Schema) → FieldKind → ReadType → Prop
  | any {room owner kind} : Takes set room owner kind .any
  | option {room owner kind t} : Takes set room owner kind t → Takes set room owner kind (.option t)
  | scalar {room owner k t} : Holds k t → Takes set room owner (.scalar k) t
  | list {room owner inner t} : Takes set room owner inner t →
    Takes set (room + 1) owner (.list inner) (.list t)
  | nested {room owner id target t} : set.get? id = some target →
    Takes set room target .recursive t → Takes set room owner (.nested id) t
  | record {room owner} : Takes set room owner .recursive .record
  | fields {room owner reads} : List.Forall₂ Field.IsCovered owner.fields reads →
    (∀ p ∈ owner.fields.zip reads, Takes set room owner p.1.kind p.2.2) →
    Takes set (room + 1) owner .recursive (.fields reads)
  | inside {owner kind t} : (∀ k, kind ≠ .scalar k) → Takes set 0 owner kind t

namespace ReadValue

mutual

-- What is read is the value.
inductive Shows : ReadValue → Value → Prop
  | bool {b} : Shows (.bool b) (.bool b)
  | int {width wanted n} : Shows (.int wanted n) (.int width n)
  | wideInt {width n} : Shows (.wideInt n) (.int width n)
  | f32 {x} : Shows (.f32 x) (.f32 x)
  | f64 {x} : Shows (.f64 x) (.f64 x)
  | widened {x : Single} {y : Double} : y.Same x → Shows (.f64 y) (.f32 x)
  | string {s} : Shows (.string s) (.string s)
  | numeral {s} : Shows (.string s) (.bigInt s)
  | binary {bytes} : Shows (.binary bytes) (.binary bytes)
  | uuid {id} : Shows (.uuid id) (.uuid id)
  | any {v} : Shows (.any v) v
  | record {r} : Shows (.record r) (.record r)
  | fields {slots r} : List.Forall₂ SlotShows slots (r.fields.map (·.slot)) →
    Shows (.fields slots) (.record r)
  | none : Shows .none .null
  | some {x v} : v ≠ .null → Shows x v → Shows (.some x) v
  | list {xs vs} : List.Forall₂ Shows xs vs → Shows (.list xs) (.list vs)

-- Absence counts as null, unless the two are told apart.
inductive SlotShows : Slot ReadValue → Slot Value → Prop
  | collapsed {x slot} : Shows x slot.collapsed → SlotShows (.value x) slot
  | undefined {slot} : slot.triState = .undefined → SlotShows (.optional .undefined) slot
  | null {slot} : slot.triState = .null → SlotShows (.optional .null) slot
  | value {x v slot} : slot.triState = .value v → Shows x v → SlotShows (.optional (.value x)) slot

end

end ReadValue

open ReadValue (SlotShows)

theorem Conversion.option_eq {α : Type} (convert : Conversion α) (type field : String) {v : Value}
    (h : v ≠ .null) : convert.option type field v = (convert type field v).map some := by
  cases v
  case null => exact absurd rfl h
  all_goals rfl

namespace ReadType

variable {type field : String} {t : ReadType} {v : Value}

theorem ofValue_option (h : v ≠ .null) :
    (option t).ofValue type field v = (t.ofValue type field v).map .some := by
  rw [ofValue, Conversion.map, Conversion.option_eq _ _ _ h]
  cases t.ofValue type field v <;> rfl

theorem ofValue_list (items : List Value) :
    (list t).ofValue type field (.list items) = (items.mapM (t.ofValue type field)).map .list := by
  rw [ofValue, Conversion.map, Conversion.list]

theorem ofValue_any : any.ofValue type field v = .ok (.any v) := by
  cases v <;> rfl

theorem TakesNull.exists_ofValue (h : t.TakesNull) (type field : String) :
    ∃ x, t.ofValue type field .null = .ok x ∧ x.Shows .null := by
  cases h
  case any    => exact ⟨_, ofValue_any, .any⟩
  case option => exact ⟨.none, by rw [ofValue]; rfl, .none⟩

theorem Holds.exists_ofValue {k : ScalarKind} (h : Holds k t) (admits : k.Admits v)
    (type field : String) : ∃ x, t.ofValue type field v = .ok x ∧ x.Shows v := by
  cases h <;> cases admits
  case int.int fits _ _ => exact ⟨_, by simp [ofValue, plain, simple?, fits]; rfl, .int⟩
  case widened.f32 => exact ⟨_, rfl, .widened (.widened _)⟩
  all_goals exact ⟨_, rfl, by constructor⟩

end ReadType

-- What is read of a slot, given how its value is read.
def ReadMode.through {α : Type} (mode : ReadMode) (f : Value → Except DecodeError α)
    (slot : Slot Value) : Except DecodeError (Slot α) :=
  match mode with
  | collapsed => (f slot.collapsed).map .value
  | triState  => (slot.triState.mapM f).map .optional

namespace RecordReader

variable {α : Type} {type : String} {f : FieldValue Value} {fields : List (FieldValue Value)}
variable {count : Nat}

theorem run_nextAs (mode : ReadMode) (convert : Conversion α) :
    (nextAs mode convert).run ⟨type, f :: fields, count⟩ =
      match mode.through (convert type f.name) f.slot with
      | .ok slot => .ok slot ⟨type, fields, count + 1⟩
      | .error e => .error e ⟨type, fields, count + 1⟩ := by
  cases mode <;>
    simp only [nextAs, map_eq_pure_bind, next, nextTriState, run_bind, run_view, take, check,
      ReadMode.through]
  case collapsed => cases convert type f.name f.slot.collapsed <;> rfl
  case triState  => cases f.slot.triState.mapM (convert type f.name) <;> rfl

end RecordReader

-- Fields that are read in turn are read as by the reader's own steps.
theorem ReadType.ofFields_eq_mapM (reads : List (ReadMode × ReadType)) :
    ofFields reads = reads.mapM fun read => RecordReader.nextAs read.1 read.2.ofValue := by
  induction reads
  case nil           => rw [ofFields, List.mapM_nil]
  case cons reads ih => rw [ofFields, List.mapM_cons, ih]

namespace RecordReader

-- Once each field is read as what it shows, nothing remains.
theorem exists_run_ofFields {type : String} {reads : List (ReadMode × ReadType)}
    {fields : List (FieldValue Value)}
    (h : List.Forall₂ (fun read f => ∃ slot : Slot ReadValue,
      read.1.through (read.2.ofValue type f.name) f.slot = .ok slot ∧ SlotShows slot f.slot)
      reads fields) (count : Nat) :
    ∃ slots, (ReadType.ofFields reads).run ⟨type, fields, count⟩ =
        .ok slots ⟨type, [], count + fields.length⟩ ∧
      List.Forall₂ SlotShows slots (fields.map (·.slot)) := by
  induction h generalizing count
  case nil => exact ⟨[], rfl, .nil⟩
  case cons read f reads fields head _ ih =>
    have ⟨slot, ok, shows⟩ := head
    have ⟨slots, run, all⟩ := ih (count + 1)
    refine ⟨slot :: slots, ?_, .cons shows all⟩
    simp only [ReadType.ofFields, run_bind, run_nextAs, ok, run, run_pure, List.length_cons]
    rw [Nat.add_assoc, Nat.add_comm 1]

end RecordReader

theorem Slot.collapsed_eq (slot : Slot Value) :
    slot.collapsed = slot.triState.toOption.getD .null := by
  cases slot
  case value v  => cases v <;> rfl
  case optional => rfl

namespace Slot.Suits

variable {Fits : Value → Prop} {field : Field} {slot : Slot Value} (suits : slot.Suits Fits field)
include suits

theorem collapsed :
    (slot.collapsed = .null ∧ field.isRequired = false) ∨ Fits slot.collapsed := by
  cases suits
  case undefined tri    => exact .inl ⟨rfl, by simp [Field.isRequired, tri]⟩
  case null tri         => exact .inl ⟨rfl, by simp [Field.isRequired, tri]⟩
  case state fits       => exact .inr fits
  case absent optional  => exact .inl ⟨rfl, optional⟩
  case value fits       => exact .inr fits

theorem triState :
    slot.triState = .undefined ∨ slot.triState = .null ∨
      ∃ v, slot.triState = .value v ∧ v ≠ .null ∧ Fits v := by
  cases suits
  case undefined      => exact .inl rfl
  case null           => exact .inr (.inl rfl)
  case state ne fits  => exact .inr (.inr ⟨_, rfl, ne, fits⟩)
  case absent         => exact .inr (.inl rfl)
  case value v _ ne fits =>
    refine .inr (.inr ⟨v, ?_, ne, fits⟩)
    cases v
    case null => exact absurd rfl ne
    all_goals rfl

-- A slot is read as a type for the values of its field.
theorem exists_through {read : ReadMode × ReadType} (covered : field.IsCovered read)
    (type name : String)
    (reads : ∀ v, Fits v → ∃ x, read.2.ofValue type name v = .ok x ∧ x.Shows v) :
    ∃ slot', read.1.through (read.2.ofValue type name) slot = .ok slot' ∧ SlotShows slot' slot := by
  have ⟨mode, t⟩ := read
  cases mode
  case collapsed =>
    have ⟨x, ok, shows⟩ : ∃ x, t.ofValue type name slot.collapsed = .ok x ∧
        x.Shows slot.collapsed := by
      obtain ⟨null, optional⟩ | fits := suits.collapsed
      · obtain required | ⟨⟨⟩⟩ | takes := covered
        · cases optional.symm.trans required
        · exact null ▸ takes.exists_ofValue type name
      · exact reads _ fits
    exact ⟨.value x, by rw [ReadMode.through, ok]; rfl, .collapsed shows⟩
  case triState =>
    simp only [ReadMode.through]
    obtain undefined | null | ⟨v, value, _, fits⟩ := suits.triState
    · exact ⟨.optional .undefined, by rw [undefined]; rfl, .undefined undefined⟩
    · exact ⟨.optional .null, by rw [null]; rfl, .null null⟩
    · have ⟨x, ok, shows⟩ := reads v fits
      exact ⟨.optional (.value x), by rw [value, TriState.mapM, ok]; rfl, .value value shows⟩

-- Where absence counts as null, an option is what the state of the slot leaves of it, whatever the
-- value converts into.
theorem option_collapsed {α : Type} (convert : Conversion α) (type name : String) :
    convert.option type name slot.collapsed =
      (slot.triState.mapM (convert type name)).map (·.toOption) := by
  rw [Slot.collapsed_eq]
  obtain undefined | null | ⟨v, value, ne, _⟩ := suits.triState
  · rw [undefined]
    rfl
  · rw [null]
    rfl
  · rw [value, TriState.toOption, Option.getD_some, convert.option_eq _ _ ne, TriState.mapM]
    cases convert type name v <;> rfl

end Slot.Suits

variable {set : SchemaSet} {opt : DecodeOptions} {room : Nat} {schema : Schema} {kind : FieldKind}
variable {t : ReadType}

namespace Value.Fits

variable {v : Value}

theorem exists_target {id : SchemaId} (h : v.Fits set opt room schema (.nested id)) :
    ∃ target, set.get? id = some target ∧ v.Fits set opt room target .recursive := by
  cases room
  case zero => cases v <;> cases h
  case succ =>
    cases v
    case record => exact h
    all_goals cases h

theorem exists_record (h : v.Fits set opt room schema .recursive) :
    ∃ less r, room = less + 1 ∧ v = .record r ∧ r.Suits (Fits set opt less schema) schema := by
  cases room
  case zero => cases v <;> cases h
  case succ less =>
    cases v
    case record r => exact ⟨less, r, rfl, rfl, h⟩
    all_goals cases h

theorem exists_list {inner : FieldKind} (h : v.Fits set opt room schema (.list inner)) :
    ∃ less items, room = less + 1 ∧ v = .list items ∧
      ∀ item ∈ items, item.Fits set opt less schema inner := by
  cases room
  case zero => cases v <;> cases h
  case succ less =>
    cases v
    case list items => exact ⟨less, items, rfl, rfl, fun item mem => (h.2 item mem).2⟩
    all_goals cases h

theorem exists_scalar (h : v.Fits set opt 0 schema kind) : ∃ k, kind = .scalar k := by
  cases kind
  case scalar k => exact ⟨k, rfl⟩
  all_goals cases v <;> cases h

end Value.Fits

theorem RecordOf.Suits.exists_field {r : Record} {Fits : FieldKind → Value → Prop}
    (suits : r.Suits Fits schema) {f : FieldValue Value} (mem : f ∈ r.fields) :
    ∃ field ∈ schema.fields, f.name = field.name ∧ f.slot.Suits (Fits field.kind) field :=
  exists_left_of_forall₂ suits.fields mem

-- The fields of a record are read as types that take them.
theorem RecordOf.Suits.exists_slots {r : Record} {Fits : FieldKind → Value → Prop}
    (suits : r.Suits Fits schema) {reads : List (ReadMode × ReadType)}
    (covered : List.Forall₂ Field.IsCovered schema.fields reads)
    (read : ∀ p ∈ schema.fields.zip reads, ∀ v, Fits p.1.kind v →
      ∀ type field, ∃ x, p.2.2.ofValue type field v = .ok x ∧ x.Shows v) :
    ∃ slots, (ReadType.ofFields reads).run (.ofRecord r) =
        .ok slots ⟨r.typeName, [], r.fields.length⟩ ∧
      List.Forall₂ SlotShows slots (r.fields.map (·.slot)) := by
  have fields := suits.fields
  generalize schema.fields = declared at covered read fields
  have each : List.Forall₂ (fun read f => ∃ slot : Slot ReadValue,
      read.1.through (read.2.ofValue r.typeName f.name) f.slot = .ok slot ∧ SlotShows slot f.slot)
      reads r.fields := by
    clear suits
    generalize r.fields = fs at fields
    induction covered generalizing fs
    case nil =>
      cases fields
      exact .nil
    case cons head _ ih =>
      cases fields
      case cons f fs suits rest =>
      rw [List.zip_cons_cons, List.forall_mem_cons] at read
      exact .cons (suits.2.exists_through head _ _ fun v fits => read.1 v fits _ _)
        (ih read.2 _ rest)
  have ⟨slots, run, shows⟩ := RecordReader.exists_run_ofFields each 0
  exact ⟨slots, by rw [RecordReader.ofRecord, run, Nat.zero_add], shows⟩

theorem ReadType.Takes.of_fields {reads : List (ReadMode × ReadType)}
    (takes : (ReadType.fields reads).Takes set (room + 1) schema .recursive) :
    List.Forall₂ Field.IsCovered schema.fields reads ∧
      ∀ p ∈ schema.fields.zip reads, p.2.2.Takes set room schema p.1.kind := by
  cases takes
  case fields covered each => exact ⟨covered, each⟩

-- A value of a kind is read as each type that takes the kind.
theorem ReadType.Takes.exists_ofValue (takes : t.Takes set room schema kind) {v : Value}
    (fits : v.Fits set opt room schema kind) (type field : String) :
    ∃ x, t.ofValue type field v = .ok x ∧ x.Shows v := by
  induction takes generalizing v type field
  case any => exact ⟨_, ofValue_any, .any⟩
  case option ih =>
    obtain ⟨x, ok, shows⟩ := ih fits type field
    exact ⟨.some x, by rw [ofValue_option fits.ne_null, ok]; rfl, .some fits.ne_null shows⟩
  case scalar holds =>
    rw [Value.Fits] at fits
    exact holds.exists_ofValue fits type field
  case list t _ ih =>
    obtain ⟨_, items, ⟨⟩, rfl, all⟩ := fits.exists_list
    obtain ⟨xs, h⟩ := exists_forall₂ fun item mem => ih (all item mem) type field
    refine ⟨.list xs, ?_, .list (h.imp fun _ _ h => h.2).flip⟩
    rw [ofValue_list, mapM_ok_iff.mpr (h.imp fun _ _ h => h.1)]
    rfl
  case nested found _ ih =>
    obtain ⟨target, found', fits⟩ := fits.exists_target
    cases found.symm.trans found'
    exact ih fits type field
  case record =>
    obtain ⟨_, r, _, rfl, _⟩ := fits.exists_record
    exact ⟨.record r, rfl, .record⟩
  case fields reads covered _ ih =>
    obtain ⟨_, r, ⟨⟩, rfl, suits⟩ := fits.exists_record
    obtain ⟨slots, run, shows⟩ := suits.exists_slots covered fun p mem v fits => ih p mem fits
    refine ⟨.fields slots, ?_, .fields shows⟩
    rw [ofValue, Conversion.map, Conversion.record, run]
    rfl
  case inside scalar =>
    obtain ⟨k, hk⟩ := fits.exists_scalar
    exact absurd hk (scalar k)

namespace Value

-- A value is inside another one if it is the other one, or is inside an item or a field of it.
inductive Inside (v : Value) : Value → Prop
  | refl : Inside v v
  | item {item items} : item ∈ items → Inside v item → Inside v (.list items)
  | field {f r} : f ∈ r.fields → Inside v f.slot.collapsed → Inside v (.record r)

theorem not_inside_null {r : Record} : ¬Inside (.record r) .null :=
  nofun

namespace Fits

theorem exists_suits {r : Record} (fits : Fits set opt room schema kind (.record r)) :
    ∃ less target, r.Suits (Fits set opt less target) target := by
  cases kind
  case scalar =>
    rw [Fits] at fits
    cases fits
  case nested =>
    obtain ⟨target, _, fits⟩ := fits.exists_target
    obtain ⟨less, _, _, ⟨⟩, suits⟩ := fits.exists_record
    exact ⟨less, target, suits⟩
  case recursive =>
    obtain ⟨less, _, _, ⟨⟩, suits⟩ := fits.exists_record
    exact ⟨less, schema, suits⟩
  case list =>
    obtain ⟨_, _, _, ⟨⟩, _⟩ := fits.exists_list

theorem exists_items {items : List Value} (fits : Fits set opt room schema kind (.list items)) :
    ∃ less inner, ∀ item ∈ items, item.Fits set opt less schema inner := by
  cases kind
  case scalar =>
    rw [Fits] at fits
    cases fits
  case nested =>
    obtain ⟨_, _, fits⟩ := fits.exists_target
    obtain ⟨_, _, _, ⟨⟩, _⟩ := fits.exists_record
  case recursive =>
    obtain ⟨_, _, _, ⟨⟩, _⟩ := fits.exists_record
  case list inner =>
    obtain ⟨less, _, _, ⟨⟩, all⟩ := fits.exists_list
    exact ⟨less, inner, all⟩

theorem of_inside {v : Value} {r : Record} (inside : Inside (.record r) v)
    (fits : v.Fits set opt room schema kind) :
    ∃ less target, r.Suits (Fits set opt less target) target := by
  induction inside generalizing room schema kind
  case refl => exact fits.exists_suits
  case item mem _ ih =>
    have ⟨_, _, all⟩ := fits.exists_items
    exact ih (all _ mem)
  case field f r mem inside ih =>
    have ⟨_, target, suits⟩ := fits.exists_suits
    have ⟨field, _, _, slot⟩ := suits.exists_field mem
    obtain ⟨null, _⟩ | fits := slot.collapsed
    · exact absurd (null ▸ inside) not_inside_null
    · exact ih fits

end Fits
end Value

namespace RecordReader

theorem run_next_option {r : Record} {Fits : FieldKind → Value → Prop} (suits : r.Suits Fits schema)
    {α : Type} (convert : Conversion α) (count : Nat) :
    (next convert.option).run (.past r count) =
      (TriState.toOption <$> nextTriState convert).run (.past r count) := by
  cases h : r.fields[count]?
  case none =>
    have : r.fields.drop count = [] := by simpa using h
    simp [next, nextTriState, past, take, this]
  case some f =>
    obtain ⟨field, _, _, slot⟩ := suits.exists_field (List.mem_of_getElem? h)
    simp only [next, nextTriState, map_eq_pure_bind, run_bind, run_view, run_take_past h, check,
      slot.option_collapsed]
    cases f.slot.triState.mapM (convert (past r count).typeName f.name) <;> rfl

end RecordReader

variable {σ : Type} [Cursor σ]

-- Whatever a record was decoded from, reads that match the fields of its schema, one for each,
-- give what was decoded and leave nothing. In it and in any record inside of it, a field that is
-- read as an option is none just if its state, told apart, holds no value. That is so whatever its
-- value converts into.
theorem decodeRecord_reads [UuidFormat] {types : List TypeDecl}
    (built : SchemaSet.build types = .ok set) {id : SchemaId} {s s' : Session σ} {r : Record}
    (decoded : (decodeRecord set id opt).run s = .ok (some r) s') :
    ∃ schema, set.get? id = some schema ∧
      (∀ reads : List (ReadMode × ReadType),
        (ReadType.fields reads).Takes set opt.maxDepth schema .recursive →
        ∃ slots reader,
          (reads.mapM fun read => RecordReader.nextAs read.1 read.2.ofValue).run (.ofRecord r) =
            .ok slots reader ∧
          reader.remaining = 0 ∧ List.Forall₂ SlotShows slots (r.fields.map (·.slot))) ∧
      ∀ inner : Record, Value.Inside (.record inner) (.record r) →
        ∀ (α : Type) (convert : Conversion α) count,
          (RecordReader.next convert.option).run (.past inner count) =
            (TriState.toOption <$> RecordReader.nextTriState convert).run (.past inner count) := by
  have set_wf := SchemaSet.wellFormed_of_build built
  unfold decodeRecord at decoded
  split at decoded
  case h_2 => cases decoded
  case h_1 schema found =>
    have conforms := set_wf.decodeRecordOf_conforms opt (set_wf.get? found) decoded r rfl
    refine ⟨schema, found, fun reads takes => ?_, fun inner inside α convert count => ?_⟩
    · obtain ⟨less, _, room, ⟨⟩, suits⟩ := conforms.exists_record
      rw [room] at takes
      obtain ⟨covered, each⟩ := takes.of_fields
      obtain ⟨slots, run, shows⟩ := suits.exists_slots covered fun p mem v fits type field =>
        (each p mem).exists_ofValue fits type field
      exact ⟨slots, _, ReadType.ofFields_eq_mapM reads ▸ run, rfl, shows⟩
    · obtain ⟨_, _, suits⟩ := Value.Fits.of_inside inside conforms
      exact RecordReader.run_next_option suits convert count

-- A node with a node in it, read by a type that refers to itself once. The field for the next
-- node is also read by a conversion that gives the number of its fields.
theorem decodeRecord_reads_node :
    let _ : UuidFormat := .hyphenated
    let types : List TypeDecl := [⟨"Node", [
      { name := "ids", type := .list (.scalar (.int .w8)) },
      { name := "next", type := .named "Node", triState := true }]⟩]
    let schema : Schema := ⟨⟨0⟩, "Node", [
      ⟨"ids", 0, .list (.scalar (.int .w8)), false, false⟩, ⟨"next", 1, .recursive, false, true⟩]⟩
    let opt := { DecodeOptions.default with maxDepth := 3, fastPath := false }
    let replay : Replay := ⟨.objectStart, [
      .fieldName (.fresh "next"), .objectStart,
        .fieldName (.fresh "ids"), .arrayStart, .int 1, .int 2, .arrayEnd, .objectEnd,
      .fieldName (.fresh "ids"), .arrayStart, .arrayEnd, .objectEnd], 0, 0, none⟩
    let inner : Record := ⟨"Node", [
      ⟨"ids", .value (.list [.int .w8 1, .int .w8 2])⟩, ⟨"next", .optional .undefined⟩]⟩
    let outer : Record := ⟨"Node", [
      ⟨"ids", .value (.list [])⟩, ⟨"next", .optional (.value (.record inner))⟩]⟩
    let readsInner : List (ReadMode × ReadType) := [
      (.collapsed, .list .wideInt), (.collapsed, .option .record)]
    let reads : List (ReadMode × ReadType) := [
      (.collapsed, .list (.int .w16)), (.triState, .fields readsInner)]
    let size : Conversion Nat := .record fun r => .ok r.length
    SchemaSet.build types = .ok ⟨[schema]⟩ ∧
      (ReadType.fields reads).Takes ⟨[schema]⟩ opt.maxDepth schema .recursive ∧
      ∃ s', (decodeRecord ⟨[schema]⟩ ⟨0⟩ opt).run { cursor := replay } = .ok (some outer) s' ∧
        (∃ slots reader,
          (reads.mapM fun read => RecordReader.nextAs read.1 read.2.ofValue).run (.ofRecord outer) =
            .ok slots reader ∧
          reader.remaining = 0 ∧ List.Forall₂ SlotShows slots (outer.fields.map (·.slot))) ∧
        (RecordReader.next size.option).run (.past inner 1) =
          (TriState.toOption <$> RecordReader.nextTriState size).run (.past inner 1) ∧
        ((RecordReader.next size.option).run (.past inner 1)).result = .ok none ∧
        ((RecordReader.next size.option).run (.past outer 1)).result = .ok (some 2) := by
  intro _ types schema opt replay inner outer readsInner reads size
  have built : SchemaSet.build types = .ok ⟨[schema]⟩ := by rfl
  have found : SchemaSet.get? ⟨[schema]⟩ ⟨0⟩ = some schema := rfl
  let members : List (MemberName × TokenTree) := [
    (.fresh "next", .object [(.fresh "ids", .array [.leaf (.int 1), .leaf (.int 2)])]),
    (.fresh "ids", .array [])]
  have on : replay.On 0 ((TokenTree.object members).tokens ++ []) := ⟨rfl, rfl, rfl⟩
  have slow : opt.fastPath = false := rfl
  have gives := TokenTree.record_gives (s := { cursor := replay })
    (SchemaSet.wellFormed_of_build built) slow found on
  have ⟨s', decoded, _⟩ := Outcome.Gives.exists_ok (a := some outer) gives
  have takes : (ReadType.fields reads).Takes ⟨[schema]⟩ opt.maxDepth schema .recursive := by
    refine .fields (.cons (.inl rfl) (.cons (.inr (.inl rfl)) .nil)) <|
      List.forall_mem_cons.mpr ⟨.list (.scalar (.int (by decide))),
        List.forall_mem_singleton.mpr ?_⟩
    refine .fields (.cons (.inl rfl) (.cons (.inr (.inr .option)) .nil)) <|
      List.forall_mem_cons.mpr ⟨.list (.scalar .wideInt), List.forall_mem_singleton.mpr ?_⟩
    exact .option .record
  have inside : Value.Inside (.record inner) (.record outer) :=
    .field (f := ⟨"next", .optional (.value (.record inner))⟩) (by simp [outer]) .refl
  have ⟨schema', found', read, option⟩ := decodeRecord_reads built decoded
  cases found.symm.trans found'
  exact ⟨built, takes, s', decoded, read reads takes, option inner inside Nat size 1, rfl, rfl⟩

end RecordDecoding
