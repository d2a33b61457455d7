import RecordDecoding.Decode.Record
import RecordDecoding.External.Uuid
import RecordDecoding.Proofs.Decode.Trees
import RecordDecoding.Proofs.Number.Canonical
import RecordDecoding.Proofs.Promises

namespace RecordDecoding

open Decoding Forward

-- The values of a scalar type. An integer is in the range of its width, and the numeral of one of
-- any size has neither superfluous zeros nor a superfluous sign.
inductive ScalarKind.Admits : ScalarKind → Value → Prop
  | string {s} : Admits .string (.string s)
  | bool {b} : Admits .bool (.bool b)
  | int {width n} : width.Holds n → Admits (.int width) (.int width n)
  | bigInt {numeral : String} : Numeral.IsInteger numeral.toList → numeral ≠ "-0" →
    Admits .bigInt (.bigInt numeral)
  | f32 {x} : Admits .f32 (.f32 x)
  | f64 {x} : Admits .f64 (.f64 x)
  | binary {bytes} : Admits .binary (.binary bytes)
  | uuid {id} : Admits .uuid (.uuid id)

-- What the slot of a field shows, where the field may have the values that fit.
inductive Slot.Suits (Fits : Value → Prop) (field : Field) : Slot Value → Prop
  | undefined : field.triState → Suits Fits field (.optional .undefined)
  | null : field.triState → Suits Fits field (.optional .null)
  | state {v} : field.triState → v ≠ .null → Fits v → Suits Fits field (.optional (.value v))
  | absent : field.triState = false → field.isRequired = false → Suits Fits field (.value .null)
  | value {v} : field.triState = false → v ≠ .null → Fits v → Suits Fits field (.value v)

-- A record with the fields of a schema, in the order of their ordinals.
structure RecordOf.Suits (Fits : FieldKind → Value → Prop) (schema : Schema) (r : Record) :
    Prop where
  typeName : r.typeName = schema.typeName
  ordinals : schema.fields.map (·.ordinal) = List.range schema.length
  fields   : List.Forall₂
    (fun field f => f.name = field.name ∧ f.slot.Suits (Fits field.kind) field)
    schema.fields r.fields

section

variable (set : SchemaSet) (opt : DecodeOptions)

-- The values that a field of `owner` may have as some kind. At most `room` records and lists are
-- inside each other.
def Value.Fits : (room : Nat) → (owner : Schema) → FieldKind → Value → Prop
  | _, _, .scalar k, v => k.Admits v
  | room + 1, _, .nested id, .record r =>
    ∃ target, set.get? id = some target ∧ r.Suits (Fits room target) target
  | room + 1, owner, .recursive, .record r => r.Suits (Fits room owner) owner
  | room + 1, owner, .list inner, .list items =>
    items.length ≤ opt.maxListLength ∧ ∀ v ∈ items, v ≠ .null ∧ Fits room owner inner v
  | _, _, _, _ => False

-- A record that is inside no other. It counts as one of those that are inside each other.
def RecordOf.Conforms (schema : Schema) (r : Record) : Prop :=
  Value.Fits set opt opt.maxDepth schema .recursive (.record r)

end

variable {set : SchemaSet} {opt : DecodeOptions} {schema : Schema} {room : Nat}

theorem Value.Fits.ne_null {k : FieldKind} {v : Value} (h : v.Fits set opt room schema k) :
    v ≠ .null := by
  rintro rfl
  cases k
  case scalar =>
    simp only [Fits] at h
    cases h
  all_goals cases room <;> cases h

-- A record of the type of a schema, in a field that refers to that schema.
theorem Value.Fits.nested {id : SchemaId} {target : Schema} {v : Value}
    (ht : set.get? id = some target) (h : v.Fits set opt room target .recursive) :
    v.Fits set opt room schema (.nested id) := by
  cases room
  case zero => cases v <;> cases h
  case succ =>
    cases v
    case record => exact ⟨target, ht, h⟩
    all_goals cases h

variable {σ : Type} [Cursor σ]

namespace ScalarKind

variable [UuidFormat]

theorem admits_of_readAccepted_ok {k : ScalarKind} {c : σ} {v : Value}
    (h : k.readAccepted c = .ok v) : k.Admits v := by
  cases k
  case bool =>
    cases h
    exact .bool
  case int width =>
    obtain ⟨n, _, h⟩ := ok_of_bind_ok h
    unfold narrow at h
    split at h <;> cases h
    exact .int ‹_›
  case bigInt =>
    obtain ⟨text, _, h⟩ := ok_of_bind_ok h
    unfold readBigInt at h
    split at h <;> cases h
    case h_1 hc =>
      obtain ⟨_, _, _, hs, hd, hn⟩ := canonicalNumeral?_eq_some_iff.mp hc
      obtain ⟨integer, ne⟩ := Numeral.isInteger_shortened hs hd
      exact .bigInt (hn ▸ integer) (hn ▸ ne)
  case f32 =>
    obtain ⟨x, _, h⟩ := ok_of_bind_ok h
    simp only [narrowFloat] at h
    split at h <;> cases h
    exact .f32
  case uuid =>
    obtain ⟨text, _, h⟩ := ok_of_bind_ok h
    unfold readUuid at h
    split at h <;> cases h
    exact .uuid
  all_goals
    obtain ⟨_, _, h⟩ := ok_of_bind_ok h
    cases h
    constructor

theorem admits_of_read_ok {k : ScalarKind} {c : σ} {v : Value} (h : k.read c = .ok v) :
    k.Admits v := by
  unfold read at h
  split at h
  case isTrue  => exact admits_of_readAccepted_ok h
  case isFalse => cases h

end ScalarKind

-- What a member may say of a field.
inductive TriState.Suits (Fits : Value → Prop) (field : Field) : TriState Value → Prop
  | null : field.isRequired = false → Suits Fits field .null
  | value {v} : v ≠ .null → Fits v → Suits Fits field (.value v)

-- What the members of an object said so far suits the fields.
structure Filling.Suits (Fits : FieldKind → Value → Prop) (schema : Schema) (f : Filling) :
    Prop where
  states : ∃ states, f.Holds schema states ∧
    ∀ p ∈ states, p.1 ∈ schema.fields ∧ p.2.Suits (Fits p.1.kind) p.1

namespace TokenTree.States

variable {Fits : Value → Prop} {states : States} {field : Field}

theorem mem_of_last? {state : TriState Value} (h : states.last? field = some state) :
    (field, state) ∈ states := by
  have ⟨p, hp, hs⟩ := Option.map_eq_some_iff.mp h
  have mem := List.mem_reverse.mp (List.mem_of_find?_eq_some hp)
  have hf : p.1 = field := by simpa using List.find?_some hp
  exact hf ▸ hs ▸ mem

theorem last?_eq_none_iff : states.last? field = none ↔ states.any (·.1 = field) = false := by
  simp [last?]

-- The slot of a field of which something was said, or nothing has to be.
theorem slot_suits (suits : ∀ state, (field, state) ∈ states → state.Suits Fits field)
    (said : states.last? field = none → field.isRequired = false) :
    (states.slot field).Suits Fits field := by
  unfold slot
  split
  case isTrue tri =>
    cases h : states.last? field
    case none => exact .undefined tri
    case some state =>
      cases suits state (mem_of_last? h)
      case null          => exact .null tri
      case value ne fits => exact .state tri ne fits
  case isFalse tri =>
    have tri : field.triState = false := by simpa using tri
    cases h : states.last? field
    case none => exact .absent tri (said h)
    case some state =>
      cases suits state (mem_of_last? h)
      case null optional => exact .absent tri optional
      case value ne fits => exact .value tri ne fits

end TokenTree.States

namespace Filling.Suits

variable {Fits : FieldKind → Value → Prop} {f : Filling} (wf : schema.WellFormed)
include wf

theorem blank : (blank schema).Suits Fits schema where
  states := ⟨[], holds_blank wf, nofun⟩

theorem put (h : f.Suits Fits schema) {field : Field} (hf : field ∈ schema.fields)
    {state : TriState Value} (hs : state.Suits (Fits field.kind) field) :
    (f.put field state).Suits Fits schema := by
  have ⟨states, holds, suits⟩ := h.states
  refine ⟨states ++ [(field, state)], holds.put wf hf state, ?_⟩
  exact List.forall_mem_append.mpr ⟨suits, List.forall_mem_singleton.mpr ⟨hf, hs⟩⟩

-- A complete filling has something to say of each field that is required.
theorem record (h : f.Suits Fits schema) (complete : f.seen.isComplete) :
    (f.record schema).Suits Fits schema := by
  have ⟨states, holds, suits⟩ := h.states
  rw [holds.record_eq]
  refine ⟨rfl, wf.ordinals, ?_⟩
  refine List.forall₂_map_right_iff.mpr (List.forall₂_same.mpr fun field hf => ⟨rfl, ?_⟩)
  refine TokenTree.States.slot_suits (fun state hm => (suits _ hm).2) fun unsaid => ?_
  have marked := holds.tracks.isComplete_iff.mp complete _ (wf.ordinal_lt hf)
  simpa [holds.seen field hf, TokenTree.States.last?_eq_none_iff.mp unsaid] using marked

end Filling.Suits

-- Each value that is decoded for a field of a schema, as some kind, is one that fits.
structure ValueDecoding.Fitting (v : ValueDecoding σ) (schema : Schema)
    (Fits : FieldKind → Value → Prop) : Prop where
  answers (field k) : (v schema field k).Answers (Fits k)
  ne_null {k x} : Fits k x → x ≠ .null

namespace ValueDecoding.Fitting

variable {v : ValueDecoding σ} {Fits : FieldKind → Value → Prop} {field : Field} {f : Filling}
variable (fitting : v.Fitting schema Fits) (wf : schema.WellFormed)
include fitting

theorem state (field : Field) :
    (v.state schema field).Answers (TriState.Suits (Fits field.kind) field) := by
  refine .after fun k => ?_
  cases k
  case null =>
    dsimp only
    split
    case isTrue    => exact .after fun _ => .fail _
    case isFalse h => exact .pure (.null (by simpa using h))
  all_goals
    refine (fitting.answers field field.kind).bind fun fits => .pure ?_
    exact .value (fitting.ne_null fits) fits

include wf

theorem store (hf : field ∈ schema.fields) (h : f.Suits Fits schema) :
    (v.store schema field f).Answers (Filling.Suits Fits schema) :=
  (fitting.state field).bind fun hs => .pure (h.put wf hf hs)

theorem inOrder {fields : List Field} (sub : fields ⊆ schema.fields) (h : f.Suits Fits schema) :
    (v.inOrder schema fields f).Answers (Filling.Suits Fits schema) := by
  induction fields generalizing f
  case nil => exact .pure h
  case cons field fields ih =>
    have ⟨hf, sub⟩ := List.cons_subset.mp sub
    refine .after fun k => ?_
    cases k
    case fieldName =>
      refine .after fun name => .after fun found => ?_
      split
      case isTrue =>
        refine .after fun _ => (fitting.store wf hf h).bind fun h => ?_
        exact .after fun _ => .after fun _ => ih sub h
      case isFalse => exact .pure h
    all_goals exact .pure h

theorem lookedUp (opt : DecodeOptions) (h : f.Suits Fits schema) :
    (v.lookedUp opt schema f).Answers
      (Sum.elim (Filling.Suits Fits schema) (Filling.Suits Fits schema)) := by
  refine .after fun k => ?_
  cases k
  case objectEnd => exact .pure h
  case fieldName =>
    refine .after fun name => ?_
    split
    case h_1 hf =>
      refine .after fun _ => (fitting.store wf (Schema.mem_of_fieldNamed? hf) h).bind fun h => ?_
      exact .after fun _ => .pure h
    case h_2 => exact .after fun _ => .pure h
  all_goals exact .after fun _ => .fail _

omit fitting in
theorem complete (h : f.Suits Fits schema) :
    (f.complete (σ := σ) schema).Answers (RecordOf.Suits Fits schema) := by
  unfold Filling.complete
  split
  case isTrue hc => exact .pure (h.record wf hc)
  case isFalse   => exact .after fun _ => .after fun _ => .fail _

theorem members (opt : DecodeOptions) :
    (v.members opt schema).Answers (RecordOf.Suits Fits schema) := by
  have blank : (Filling.blank schema).Suits Fits schema := .blank wf
  have dispatch {f} (h : Filling.Suits Fits schema f) :
      (v.dispatch opt schema f).Answers (Filling.Suits Fits schema) :=
    .loop (fitting.lookedUp wf opt) h
  unfold ValueDecoding.members
  split
  case isTrue =>
    refine (fitting.inOrder wf (List.Subset.refl _) blank).bind fun h => ?_
    exact (dispatch h).bind (complete wf)
  case isFalse => exact (dispatch blank).bind (complete wf)

end ValueDecoding.Fitting

-- What is decoded conforms to the schemas, where `room` levels may be opened.
def ValueDecoding.Conforms (set : SchemaSet) (opt : DecodeOptions) (room : Nat)
    (v : ValueDecoding σ) : Prop :=
  ∀ schema : Schema, schema.WellFormed → v.Fitting schema (Value.Fits set opt room schema)

namespace Level

-- The next level is there if `room` is left for it, and then less room is left inside.
inductive Conforms (set : SchemaSet) (opt : DecodeOptions) : Nat → Option (Level σ) → Prop
  | last : Conforms set opt 0 none
  | more {room l} : l.value.Conforms set opt room → Conforms set opt (room + 1) (some l)

namespace Conforms

variable {level : Option (Level σ)} (conforms : Conforms set opt room level)
include conforms

theorem enter : (Level.enter opt level).Answers fun l => Conforms set opt room (some l) := by
  cases conforms
  case last   => exact .fail _
  case more h => exact .after fun _ => .pure (.more h)

theorem object (wf : schema.WellFormed) :
    (Level.object opt level schema).Answers fun r =>
      Value.Fits set opt room schema .recursive (.record r) := by
  refine conforms.enter.bind fun h => ?_
  cases h
  case more h => exact .after fun _ => .after fun _ => (h schema wf).members wf opt

omit conforms in
-- The items up to here are not too many, and each of them fits.
theorem item {l : Level σ} {Fits : FieldKind → Value → Prop} (fitting : l.value.Fitting schema Fits)
    (field : Field) (inner : FieldKind) {items : List Value}
    (h : items.length ≤ opt.maxListLength ∧ ∀ v ∈ items, v ≠ .null ∧ Fits inner v) :
    (l.item opt schema field inner items).Answers (Sum.elim
      (fun items => items.length ≤ opt.maxListLength ∧ ∀ v ∈ items, v ≠ .null ∧ Fits inner v)
      fun items => items.length ≤ opt.maxListLength ∧ ∀ v ∈ items, v ≠ .null ∧ Fits inner v) := by
  refine .after fun k => ?_
  cases k
  case arrayEnd => exact .pure (by simpa using h)
  case null     => exact .after fun _ => .fail _
  all_goals
    dsimp only
    split
    case isTrue     => exact .fail _
    case isFalse lt =>
      refine .after fun _ => (fitting.answers field inner).bind fun {v} fits => ?_
      refine .pure ⟨Nat.lt_of_not_le lt, ?_⟩
      exact List.forall_mem_cons.mpr ⟨⟨fitting.ne_null fits, fits⟩, h.2⟩

theorem list (wf : schema.WellFormed) (field : Field) (inner : FieldKind) :
    (Level.list opt level schema field inner).Answers fun items =>
      Value.Fits set opt room schema (.list inner) (.list items) := by
  refine conforms.enter.bind fun h => ?_
  cases h
  case more h => exact .after fun _ => .loop (item (h schema wf) field inner) ⟨Nat.zero_le _, nofun⟩

theorem nested {target : Schema} (wf : target.WellFormed) (field : Field) :
    (Level.nested opt level schema field target).Answers
      (Value.Fits set opt room target .recursive) := by
  refine .after fun k => ?_
  cases k
  case objectStart => exact .after fun _ => (conforms.object wf).bind .pure
  all_goals exact .after fun _ => .fail _

variable [UuidFormat]
omit conforms in
theorem scalar (field : Field) (k : ScalarKind) :
    (Level.scalar (σ := σ) schema field k).Answers k.Admits := by
  refine .after fun s => ?_
  split
  case h_1 h => exact .pure (ScalarKind.admits_of_read_ok h)
  case h_4   => exact .fail _
  all_goals exact .after fun _ => .fail _

theorem decodeValue (set_wf : set.WellFormed) :
    (Level.decodeValue set opt level).Conforms set opt room := by
  refine fun schema wf => ⟨fun field k => ?_, Value.Fits.ne_null⟩
  cases k
  case scalar k => exact (scalar field k).imp fun h => by simpa [Value.Fits] using h
  case nested id =>
    simp only [Level.decodeValue]
    split
    case h_2 => exact .fail _
    case h_1 target h =>
      exact (conforms.nested (set_wf.get? h) field).imp fun fits => .nested h fits
  case recursive => exact conforms.nested wf field
  case list inner =>
    refine .after fun k => ?_
    cases k
    case arrayStart => exact (conforms.list wf field inner).bind .pure
    all_goals exact .after fun _ => .fail _

omit conforms in
theorem next (set_wf : set.WellFormed) (room : Nat) :
    Conforms (σ := σ) set opt room (Level.next set opt room) := by
  induction room
  case zero         => exact .last
  case succ room ih => exact .more (ih.decodeValue set_wf)

end Conforms
end Level

theorem SchemaSet.WellFormed.decodeRecordOf_conforms [UuidFormat] (set_wf : set.WellFormed)
    (opt : DecodeOptions) (wf : schema.WellFormed) :
    (decodeRecordOf (σ := σ) set opt schema).Answers
      fun r => ∀ r' ∈ r, RecordOf.Conforms set opt schema r' := by
  refine .after fun k => ?_
  cases k
  case null        => exact .pure nofun
  case objectStart =>
    refine ((Level.Conforms.next set_wf opt.maxDepth).object wf).bind fun h => ?_
    exact .pure fun _ hr => Option.some.inj hr ▸ h
  all_goals exact .after fun _ => .fail _

-- Whatever a cursor reads from and wherever it sits, a record that is decoded over it conforms to
-- the schema that was asked for.
theorem decodeRecord_conforms [UuidFormat] {types : List TypeDecl}
    (built : SchemaSet.build types = .ok set) (id : SchemaId) (opt : DecodeOptions)
    {s s' : Session σ} {r : Record} (h : (decodeRecord set id opt).run s = .ok (some r) s') :
    ∃ schema, set.get? id = some schema ∧ r.Conforms set opt schema := by
  have set_wf := SchemaSet.wellFormed_of_build built
  unfold decodeRecord at h
  split at h
  case h_2 => cases h
  case h_1 schema hs =>
    exact ⟨schema, hs, set_wf.decodeRecordOf_conforms opt (set_wf.get? hs) h r rfl⟩

-- A node with two numbers, inside another one that has none.
theorem decodeRecord_conforms_node :
    let _ : UuidFormat := .hyphenated
    let types : List TypeDecl := [⟨"Node", [
      { name := "ids", type := .list (.scalar (.int .w8)) },
      { name := "next", type := .named "Node", triState := true }]⟩]
    let schema : Schema := ⟨⟨0⟩, "Node", [
      ⟨"ids", 0, .list (.scalar (.int .w8)), false, false⟩, ⟨"next", 1, .recursive, false, true⟩]⟩
    let opt := { DecodeOptions.default with fastPath := false }
    let replay : Replay := ⟨.objectStart, [
      .fieldName (.fresh "next"), .objectStart,
        .fieldName (.fresh "ids"), .arrayStart, .int 1, .int 2, .arrayEnd, .objectEnd,
      .fieldName (.fresh "ids"), .arrayStart, .arrayEnd, .objectEnd], 0, 0, none⟩
    let inner : Record := ⟨"Node", [
      ⟨"ids", .value (.list [.int .w8 1, .int .w8 2])⟩, ⟨"next", .optional .undefined⟩]⟩
    let outer : Record := ⟨"Node", [
      ⟨"ids", .value (.list [])⟩, ⟨"next", .optional (.value (.record inner))⟩]⟩
    SchemaSet.build types = .ok ⟨[schema]⟩ ∧
      ∃ s', (decodeRecord ⟨[schema]⟩ ⟨0⟩ opt).run { cursor := replay } = .ok (some outer) s' ∧
        ∃ schema', SchemaSet.get? ⟨[schema]⟩ ⟨0⟩ = some schema' ∧
          outer.Conforms ⟨[schema]⟩ opt schema' := by
  intro _ types schema opt replay inner outer
  have built : SchemaSet.build types = .ok ⟨[schema]⟩ := by rfl
  have found : SchemaSet.get? ⟨[schema]⟩ ⟨0⟩ = some schema := rfl
  let members : List (MemberName × TokenTree) := [
    (.fresh "next", .object [(.fresh "ids", .array [.leaf (.int 1), .leaf (.int 2)])]),
    (.fresh "ids", .array [])]
  have on : replay.On 0 ((TokenTree.object members).tokens ++ []) := ⟨rfl, rfl, rfl⟩
  have slow : opt.fastPath = false := rfl
  have gives := TokenTree.record_gives (s := { cursor := replay })
    (SchemaSet.wellFormed_of_build built) slow found on
  have ⟨s', h, _⟩ := Outcome.Gives.exists_ok (a := some outer) gives
  exact ⟨built, s', h, decodeRecord_conforms built ⟨0⟩ opt h⟩

end RecordDecoding
