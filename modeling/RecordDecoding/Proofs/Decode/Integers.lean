import RecordDecoding.External.Uuid
import RecordDecoding.Proofs.Decode.Limits
import RecordDecoding.Proofs.Decode.RoundTrip
import RecordDecoding.Proofs.Number.Integers
import RecordDecoding.Record.Reading

namespace RecordDecoding

open Decoding Forward TokenTree ScalarKind

theorem ScalarKind.Exact.of_alike {k : ScalarKind} {n : Int} {x y : Except ScalarFault Value}
    (alike : Alike x y) (h : Exact k n y) : Exact k n x := by
  cases alike
  case same    => exact h
  case invalid =>
    cases h
    case beyond h => exact .beyond h

section Leaf

variable [UuidFormat]
variable {k : ScalarKind} {literal : String} {n : Int}
variable (integral : k.accepts = .onlyInteger) (denotes : Numeral.Denotes literal.toList n)
include integral denotes

theorem Leaf.readText_exact : Exact k n ((Leaf.ofLiteral literal).readText k) := by
  rw [ofLiteral_integer denotes.isInteger]
  cases k <;> try cases integral
  case bigInt    => exact readBigInt_exact denotes
  case int width =>
    simp only [readText, Leaf.read]
    cases hr : readInt64? literal
    case none   => exact .beyond (ofInt?_of_readInt64?_none denotes hr)
    case some m =>
      have same := (readInt64?_eq_some_iff.mp hr).symm.trans (Numeral.toInt?_of_denotes denotes)
      cases same
      exact narrow_exact width _

theorem TextCursor.Shows.read_exact {c : TextCursor} (hs : c.Shows (.number literal)) :
    Exact k n (k.read c) := by
  have leaf : c.ShowsLeaf (.ofLiteral literal) := hs.leaf denotes.isInteger.isNumber rfl
  exact .of_alike (leaf.read_alike k) (Leaf.readText_exact integral denotes)

end Leaf

namespace TokenTree

section Member

theorem inside_of_ok {α β : Type} {rules : DecodeRules} {depth : Nat}
    {x : Except DecodeError α} {a : α} (h : inside rules depth x = .ok a)
    (y : Except DecodeError β) : inside rules depth y = y := by
  unfold inside at h ⊢
  split at h
  case isTrue        => cases h
  case isFalse inner => exact if_neg inner

theorem close_of_ok {schema : Schema} {members : List (MemberName × TokenTree)}
    {states : States} {r : Record} (h : close schema members states = .ok r) (states' : States) :
    close schema members states' = .ok (states'.record schema) := by
  unfold close at h ⊢
  split at h
  case h_1 => rfl
  case h_2 => cases h

variable {set : SchemaSet} {rules : DecodeRules} {read : ScalarReading} {schema : Schema}
variable {depth index : Nat} {field : Field} {k : ScalarKind} {name : MemberName}
variable {before after : List (MemberName × TokenTree)} {l : Leaf}

theorem States.last?_append (states more : States) (field : Field) :
    States.last? (states ++ more) field = (more.last? field).or (states.last? field) := by
  rw [States.last?, List.reverse_append, List.find?_append, Option.map_or]
  rfl

theorem memberVerdicts_append (before after : List (MemberName × TokenTree)) :
    memberVerdicts set rules (fun _ => read) schema depth index (before ++ after) = (do
      let states ← memberVerdicts set rules (fun _ => read) schema depth index before
      let more ← memberVerdicts set rules (fun _ => read) schema depth index after
      return states ++ more) := by
  induction before generalizing index
  case nil =>
    rw [memberVerdicts]
    exact (bind_pure _).symm
  case cons m before ih =>
    rw [List.cons_append, memberVerdicts_cons, memberVerdicts_cons, ih,
      memberVerdicts_free _ _ _ _ _ (index + 1 + m.2.size) index after]
    simp only [bind_assoc, pure_bind, List.append_assoc]

-- What a leaf says of the field that it is given for by name.
theorem memberVerdict_leaf (named : schema.fieldNamed? name.text = some field)
    (kind : field.kind = .scalar k) (value : l.token.kind ≠ .null) :
    memberVerdict set rules (fun _ => read) schema depth index (name, .leaf l) =
      (fun v => some (field, .value v)) <$> (read k l).mapError (.scalarAt schema field k) := by
  rw [memberVerdict, named]
  show (do
    let state ← stateOf schema field l.token.kind _
    return some (field, state)) = _
  rw [stateOf, if_neg value, kind, map_eq_pure_bind, map_eq_pure_bind, bind_assoc]
  simp only [verdict, pure_bind]

-- An object with a leaf among its members, in their order.
theorem objectVerdict_leaf (named : schema.fieldNamed? name.text = some field)
    (kind : field.kind = .scalar k) (value : l.token.kind ≠ .null) :
    objectVerdict set rules (fun _ => read) schema depth index
        (before ++ (name, .leaf l) :: after) = inside rules depth (do
      let states ← memberVerdicts set rules (fun _ => read) schema (depth + 1) 0 before
      let v ← (read k l).mapError (.scalarAt schema field k)
      let more ← memberVerdicts set rules (fun _ => read) schema (depth + 1) 0 after
      close schema (before ++ (name, .leaf l) :: after) (states ++ (field, .value v) :: more)) := by
  rw [objectVerdict, memberVerdicts_append, memberVerdicts_cons,
    memberVerdict_leaf named kind value, memberVerdicts_free _ _ _ _ _ (index + 1) 0 before,
    memberVerdicts_free _ _ _ _ _ _ 0 after]
  simp only [map_eq_pure_bind, bind_assoc, pure_bind, Option.toList_some, List.singleton_append]

-- Where the members make a record with one leaf, only what is read of the leaf is the matter.
theorem exists_states_of_leaf {r : Record} (named : schema.fieldNamed? name.text = some field)
    (kind : field.kind = .scalar k) (value : l.token.kind ≠ .null)
    (ok : objectVerdict set rules (fun _ => read) schema depth index
      (before ++ (name, .leaf l) :: after) = .ok r) :
    ∃ states more,
      more.map (·.1) = after.filterMap (fun m => schema.fieldNamed? m.1.text) ∧
      ∀ l' : Leaf, l'.token.kind ≠ .null →
        objectVerdict set rules (fun _ => read) schema depth index
            (before ++ (name, .leaf l') :: after) =
          (fun v => States.record (states ++ (field, .value v) :: more) schema) <$>
            (read k l').mapError (.scalarAt schema field k) := by
  rw [objectVerdict_leaf named kind value] at ok
  obtain ⟨states, hs, h⟩ := ok_of_bind_ok (ok_of_inside_ok ok)
  obtain ⟨v, hv, h⟩ := ok_of_bind_ok h
  obtain ⟨more, hm, h⟩ := ok_of_bind_ok h
  refine ⟨states, more, fields_of_memberVerdicts hm, fun l' value' => ?_⟩
  have names : missing schema (before ++ (name, .leaf l') :: after) =
      missing schema (before ++ (name, .leaf l) :: after) :=
    missing_congr fun _ _ => by simp only [List.all_append, List.all_cons]
  rw [objectVerdict_leaf named kind value', inside_of_ok ok, hs, hm, map_eq_pure_bind]
  show ((read k l').mapError (.scalarAt schema field k) >>= fun v' =>
    close schema _ (states ++ (field, .value v') :: more)) = _
  refine bind_congr fun v' => ?_
  rw [close_congr names]
  exact close_of_ok h _

end Member

namespace States

variable {states more : States} {field : Field} {v : Value} {schema : Schema}

-- What is said of a field last is what its slot holds.
theorem slot_of_last (last : field ∉ more.map (·.1)) :
    slot (states ++ (field, .value v) :: more) field =
      if field.triState then .optional (.value v) else .value v := by
  have said : States.last? (states ++ (field, .value v) :: more) field = some (.value v) := by
    rw [← List.singleton_append, last?_append, last?_append, last?_of_not_mem last]
    simp [last?]
  simp only [slot, said, Option.getD_some]

theorem getElem?_record (wf : schema.WellFormed) (declared : field ∈ schema.fields) :
    (states.record schema).fields[field.ordinal]? = some ⟨field.name, states.slot field⟩ := by
  have := wf.field?_ordinal declared
  rw [Schema.field?] at this
  rw [record, List.getElem?_map, this]
  rfl

theorem slot?_record (wf : schema.WellFormed) (declared : field ∈ schema.fields) :
    (states.record schema).slot? field.name = some (states.slot field) := by
  have := wf.fieldNamed?_name declared
  rw [Schema.fieldNamed?] at this
  simp only [RecordOf.slot?, record, List.find?_map, Function.comp_def, this]
  rfl

end States
end TokenTree

-- A reader of a record of which this many fields were read.
def RecordReader.past (r : Record) (count : Nat) : RecordReader :=
  ⟨r.typeName, r.fields.drop count, count⟩

namespace RecordReader

variable {r : Record} {count : Nat} {f : FieldValue Value}

theorem run_take_past (h : r.fields[count]? = some f) :
    take.run (past r count) = .ok f (past r (count + 1)) := by
  have ⟨lt, hf⟩ := List.getElem?_eq_some_iff.mp h
  simp [take, past, List.drop_eq_getElem_cons lt, hf]

theorem run_next_past {α : Type} (h : r.fields[count]? = some f) (convert : Conversion α) :
    ((next convert).run (past r count)).result = convert r.typeName f.name f.slot.collapsed := by
  simp only [next, run_bind, run_view, run_take_past h, check]
  rw [show (past r count).typeName = r.typeName from rfl]
  cases convert r.typeName f.name f.slot.collapsed <;> rfl

end RecordReader

-- The record has this integer in the field, and it is read from there by every type that is wide
-- enough for the kind of the field. An integer of any size is read as far as it fits 128 bits.
structure RecordOf.HasInteger (r : Record) (schema : Schema) (field : Field) (k : ScalarKind)
    (n : Int) : Prop where
  value : ∃ v, k.ofInt? n = some v ∧ r.value? field.name = some v
  narrow {width : IntWidth} (_ : k = .int width) (wanted : IntWidth)
    (_ : width.bits ≤ wanted.bits) :
    ((RecordReader.next (ReadType.int wanted).ofValue).run (.past r field.ordinal)).result =
      .ok (.int wanted n)
  wide {width : IntWidth} (_ : k = .int width) :
    ((RecordReader.next ReadType.wideInt.ofValue).run (.past r field.ordinal)).result =
      .ok (.wideInt n)
  unbounded (_ : k = .bigInt) :
    ((RecordReader.next ReadType.wideInt.ofValue).run (.past r field.ordinal)).result =
      if -(2 ^ 127) ≤ n ∧ n < 2 ^ 127 then .ok (.wideInt n)
      else .error (.conversion schema.typeName field.name "i128" "bigint")

namespace TokenTree.States

variable {states more : States} {schema : Schema} {field : Field} {k : ScalarKind} {n : Int}
variable {v : Value}

-- What is not null is found in the record.
theorem value?_of_last (wf : schema.WellFormed) (declared : field ∈ schema.fields)
    (last : field ∉ more.map (·.1)) (value : v.isNull = false) :
    (States.record (states ++ (field, .value v) :: more) schema).value? field.name = some v := by
  rw [RecordOf.value?, slot?_record wf declared, slot_of_last last]
  split
  · rfl
  · cases v <;> first | rfl | cases value

theorem ofValue_bigInt (type field : String) (n : Int) :
    ReadType.wideInt.ofValue type field (.bigInt (toString n)) =
      if -(2 ^ 127) ≤ n ∧ n < 2 ^ 127 then .ok (.wideInt n)
      else .error (.conversion type field "i128" "bigint") := by
  have half : ((Nat.pow 2 127 : Nat) : Int) = 2 ^ 127 := rfl
  simp only [ReadType.ofValue, ReadType.plain, ReadType.simple?, Numeral.toInt?_toString,
    Option.bind_some, ReadType.wide?, half]
  split <;> rfl

theorem hasInteger (wf : schema.WellFormed) (declared : field ∈ schema.fields)
    (last : field ∉ more.map (·.1)) (held : k.ofInt? n = some v) :
    RecordOf.HasInteger (States.record (states ++ (field, .value v) :: more) schema) schema field
      k n := by
  generalize hs : states ++ (field, .value v) :: more = said
  have collapsed : (said.slot field).collapsed = v := by
    rw [← hs, slot_of_last last]
    split <;> rfl
  have stored : (said.record schema).fields[field.ordinal]? = some ⟨field.name, said.slot field⟩ :=
    getElem?_record wf declared
  have read (t : ReadType) := RecordReader.run_next_past stored t.ofValue
  simp only [collapsed] at read
  have found (value : v.isNull = false) : (said.record schema).value? field.name = some v :=
    hs ▸ value?_of_last wf declared last value
  cases k <;> simp only [ofInt?, reduceCtorEq, Option.ite_none_right_eq_some] at held
  case int width =>
    obtain ⟨holds, ⟨⟩⟩ := held
    refine ⟨⟨_, if_pos holds, found rfl⟩, ?_, ?_, nofun⟩
    · intro _ same wanted fits
      cases same
      rw [read]
      simp only [ReadType.ofValue, ReadType.plain, ReadType.simple?, if_pos fits, Option.elim_some]
    · intro _ _
      rw [read]
      rfl
  case bigInt =>
    cases held
    refine ⟨⟨_, rfl, found rfl⟩, nofun, nofun, fun _ => ?_⟩
    rw [read, ofValue_bigInt]
    rfl

end TokenTree.States

-- The literal comes through as the integer, where the field may hold it.
structure SchemaSet.KeepsInteger [UuidFormat] (set : SchemaSet) (id : SchemaId) (schema : Schema)
    (field : Field) (k : ScalarKind) (literal : String) (n : Int) : Prop where
  -- As a value of the field, or of an item of it, anywhere in a text.
  value (opt : DecodeOptions) (level : Option (Level TextCursor)) (s : Session TextCursor)
    (_ : s.cursor.Shows (.number literal)) :
    match k.ofInt? n with
    | some v => (Level.decodeValue set opt level schema field (.scalar k)).run s = .ok v s
    | none   => ∃ reason, (Level.decodeValue set opt level schema field (.scalar k)).run s =
        .error (.invalidScalar schema.typeName field.name k reason (some s.cursor.position)) s
  -- As the last member for the field in a text of an object. Whether the rest of the object is
  -- decoded is told by a text which has a zero in the place of the literal.
  member {before after : List (String × Json)} (_ : ∀ m ∈ after, m.1 ≠ field.name)
    {bytes : List UInt8}
    (_ : Json.IsText (.object (before ++ (field.name, .number literal) :: after)) bytes) :
    ∃ c, TextCursor.ofBytes bytes = .ok c ∧ ∀ opt : DecodeOptions,
      (∀ r, ((decodeRecord set id opt).run { cursor := c }).result = .ok r →
        ∃ r', r = some r' ∧ r'.HasInteger schema field k n) ∧
      ∀ zero c₀ r₀, Json.IsText (.object (before ++ (field.name, .number "0") :: after)) zero →
        TextCursor.ofBytes zero = .ok c₀ →
        ((decodeRecord set id opt).run { cursor := c₀ }).result = .ok r₀ →
        match k.ofInt? n with
        | some _ => ∃ r, ((decodeRecord set id opt).run { cursor := c }).result = .ok (some r)
        | none   => ∃ reason p, ((decodeRecord set id opt).run { cursor := c }).result =
            .error (.invalidScalar schema.typeName field.name k reason p)
  -- Other literals have the same numeral just if they stand for the same integer.
  numeral (other : String) (m : Int) (_ : Numeral.Denotes other.toList m) :
    canonicalNumeral? literal = canonicalNumeral? other ↔ n = m

section

variable {set : SchemaSet} {id : SchemaId} {schema : Schema} {field : Field} {k : ScalarKind}
variable {literal : String} {n : Int}
variable (integral : k.accepts = .onlyInteger) (denotes : Numeral.Denotes literal.toList n)
include integral denotes

theorem Level.decodeValue_integer [UuidFormat] (opt : DecodeOptions)
    (level : Option (Level TextCursor)) (s : Session TextCursor)
    (shows : s.cursor.Shows (.number literal)) :
    match k.ofInt? n with
    | some v => (decodeValue set opt level schema field (.scalar k)).run s = .ok v s
    | none   => ∃ reason, (decodeValue set opt level schema field (.scalar k)).run s =
        .error (.invalidScalar schema.typeName field.name k reason (some s.cursor.position)) s := by
  have exact := shows.read_exact integral denotes
  simp only [decodeValue, scalar, run_bind, run_look]
  generalize k.read s.cursor = x at exact
  cases exact
  case held held =>
    rw [held]
    rfl
  case beyond reason beyond =>
    rw [beyond]
    exact ⟨reason, rfl⟩

end

namespace Json

theorem memberTrees_append (before after : List (String × Json)) :
    memberTrees (before ++ after) = memberTrees before ++ memberTrees after := by
  simp only [memberTrees_eq_map, List.map_append]

-- The members of an object with a number among them.
abbrev treesAround (before after : List (String × Json)) (name literal : String) :
    List (MemberName × TokenTree) :=
  memberTrees before ++ (.fresh name, .leaf (.ofLiteral literal)) :: memberTrees after

end Json

theorem DecodeError.of_gist_invalidScalar {e : DecodeError} {type field reason : String}
    {k : ScalarKind} (h : e.gist = (invalidScalar type field k reason none).gist) :
    ∃ reason p, e = .invalidScalar type field k reason p := by
  cases e <;> cases h
  exact ⟨_, _, rfl⟩

section Text

variable {set : SchemaSet} {id : SchemaId} {schema : Schema} {field : Field} {k : ScalarKind}
variable {literal : String} {n : Int} {before after : List (String × Json)} {bytes : List UInt8}
variable {states more : States}

-- The verdict on a text of an object with a number among its members.
theorem heeds_of_number [UuidFormat] (wf : set.WellFormed) (found : set.get? id = some schema)
    (text : Json.IsText (.object (before ++ (field.name, .number literal) :: after)) bytes) :
    ∃ c, TextCursor.ofBytes bytes = .ok c ∧ ∀ opt,
      ((decodeRecord set id opt).run { cursor := c }).Heeds set opt (fun k l => l.readText k) schema
        (Json.treesAround before after field.name literal) :=
  heeds_of_text wf found (by rw [Json.tree, Json.memberTrees_append]; rfl) text

-- Members of other names do not speak of the field.
theorem not_mem_of_last (last : ∀ m ∈ after, m.1 ≠ field.name)
    (said : more.map (·.1) =
      (Json.memberTrees after).filterMap fun m => schema.fieldNamed? m.1.text) :
    field ∉ more.map (·.1) := by
  rw [said, Json.memberTrees_eq_map, List.filterMap_map]
  intro mem
  have ⟨m, hm, named⟩ := List.mem_filterMap.mp mem
  exact last m hm (Schema.name_of_fieldNamed? named).symm

theorem Leaf.kind_ne_null (h : Numeral.IsInteger literal.toList) :
    (Leaf.ofLiteral literal).token.kind ≠ .null := by
  rw [ofLiteral_integer h]
  exact nofun

-- Once the object is decoded with some integer in the place, what is decoded with another one is
-- decided by that alone.
theorem Outcome.Heeds.integer [UuidFormat] (wf : schema.WellFormed)
    (declared : field ∈ schema.fields) (kind : field.kind = .scalar k)
    (integral : k.accepts = .onlyInteger) (denotes : Numeral.Denotes literal.toList n)
    (last : ∀ m ∈ after, m.1 ≠ field.name)
    {o o' : Outcome DecodeError (Session TextCursor) (Option Record)} {opt : DecodeOptions}
    {literal' : String} {r : Option Record} (integer : Numeral.IsInteger literal'.toList)
    (heeds' : o'.Heeds set opt (fun k l => l.readText k) schema
      (Json.treesAround before after field.name literal')) (ok : o'.result = .ok r)
    (heeds : o.Heeds set opt (fun k l => l.readText k) schema
      (Json.treesAround before after field.name literal)) :
    match k.ofInt? n with
    | some _ => ∃ r, o.result = .ok (some r) ∧ r.HasInteger schema field k n
    | none   => ∃ reason p, o.result =
        .error (.invalidScalar schema.typeName field.name k reason p) := by
  have named : schema.fieldNamed? (MemberName.fresh field.name).text = some field :=
    wf.fieldNamed?_name declared
  have ⟨_, verdict', _⟩ :=
    ok_of_bind_ok ((map_eq_pure_bind some _).symm.trans (heeds'.of_result ok).1)
  have ⟨states, more, said, verdict⟩ :=
    exists_states_of_leaf named kind (Leaf.kind_ne_null integer) verdict'
  have verdict := verdict _ (Leaf.kind_ne_null denotes.isInteger)
  have exact := Leaf.readText_exact integral denotes
  generalize (Leaf.ofLiteral literal).readText k = x at verdict exact
  cases exact
  case held v held =>
    rw [held]
    exact ⟨_, heeds.result_eq verdict,
      States.hasInteger wf declared (not_mem_of_last last said) held⟩
  case beyond beyond =>
    rw [beyond]
    rw [Outcome.Heeds, verdict] at heeds
    obtain ⟨e, _, rfl, gist⟩ := heeds.exists_error
    obtain ⟨reason, p, rfl⟩ := DecodeError.of_gist_invalidScalar gist
    exact ⟨reason, p, rfl⟩

end Text

theorem decodeRecord_integer [UuidFormat] {types : List TypeDecl} {set : SchemaSet}
    (built : SchemaSet.build types = .ok set) {id : SchemaId} {schema : Schema}
    (found : set.get? id = some schema) {field : Field} (declared : field ∈ schema.fields)
    {k : ScalarKind} (kind : field.kind = .scalar k) (integral : k.accepts = .onlyInteger)
    {literal : String} {n : Int} (denotes : Numeral.Denotes literal.toList n) :
    set.KeepsInteger id schema field k literal n where
  value := Level.decodeValue_integer integral denotes
  numeral _ _ h := canonicalNumeral?_eq_iff denotes h
  member {before after} last bytes text := by
    have wf := SchemaSet.wellFormed_of_build built
    have ⟨c, hc, heeds⟩ := heeds_of_number wf found text
    refine ⟨c, hc, fun opt => ⟨fun r ok => ?_, fun zero c₀ r₀ text₀ hc₀ ok => ?_⟩⟩
    · have gives := Outcome.Heeds.integer (wf.get? found) declared kind integral denotes last
        denotes.isInteger (heeds opt) ok (heeds opt)
      split at gives
      case h_1 =>
        have ⟨r', ok', has⟩ := gives
        exact ⟨r', Except.ok.inj (ok.symm.trans ok'), has⟩
      case h_2 =>
        have ⟨_, _, error⟩ := gives
        cases ok.symm.trans error
    · have ⟨c, hc, heeds₀⟩ := heeds_of_number wf found text₀
      cases hc₀.symm.trans hc
      have gives := Outcome.Heeds.integer (wf.get? found) declared kind integral denotes last
        (by decide) (heeds₀ opt) ok (heeds opt)
      split at gives
      case h_1 =>
        have ⟨r', ok', _⟩ := gives
        exact ⟨r', ok'⟩
      case h_2 => exact gives

-- A zero with a sign is a zero.
theorem decodeRecord_integer_zero :
    let _ : UuidFormat := .hyphenated
    let types : List TypeDecl := [⟨"Offset", [{ name := "by", type := .scalar (.int .w8) }]⟩]
    let field : Field := ⟨"by", 0, .scalar (.int .w8), false, false⟩
    let schema : Schema := ⟨⟨0⟩, "Offset", [field]⟩
    SchemaSet.build types = .ok ⟨[schema]⟩ ∧ field ∈ schema.fields ∧
      (int .w8).accepts = .onlyInteger ∧ Numeral.Denotes "-0".toList 0 ∧
      SchemaSet.KeepsInteger ⟨[schema]⟩ ⟨0⟩ schema field (int .w8) "-0" 0 := by
  intro _ types field schema
  have built : SchemaSet.build types = .ok ⟨[schema]⟩ := by rfl
  have found : SchemaSet.get? ⟨[schema]⟩ ⟨0⟩ = some schema := rfl
  have declared : field ∈ schema.fields := List.mem_singleton.mpr rfl
  have denotes : Numeral.Denotes "-0".toList 0 := .negative .zero
  exact ⟨built, declared, rfl, denotes,
    decodeRecord_integer built found declared rfl rfl denotes⟩

end RecordDecoding
