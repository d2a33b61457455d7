import RecordDecoding.Decode.Record
import RecordDecoding.Proofs.Decode.TokenTree

namespace RecordDecoding

-- What the options say about the values that are decoded, and not about how that is done.
structure DecodeRules where
  maxDepth : Nat
  maxListLength : Nat
  denyUnknownFields : Bool
  deriving DecidableEq, Repr

namespace DecodeOptions

def rules (opt : DecodeOptions) : DecodeRules where
  maxDepth := opt.maxDepth
  maxListLength := opt.maxListLength
  denyUnknownFields := opt.denyUnknownFields

variable (opt : DecodeOptions)

theorem rules_maxDepth : opt.rules.maxDepth = opt.maxDepth := rfl

theorem rules_maxListLength : opt.rules.maxListLength = opt.maxListLength := rfl

theorem rules_denyUnknownFields : opt.rules.denyUnknownFields = opt.denyUnknownFields := rfl

end DecodeOptions

-- What a field may start with.
def FieldKind.accepts : FieldKind → KindSet
  | scalar k             => k.accepts
  | nested _ | recursive => .onlyObject
  | list _               => .onlyArray

-- The schema of an object in a field of `owner`.
def FieldKind.schema? (set : SchemaSet) (owner : Schema) : FieldKind → Option Schema
  | nested id => set.get? id
  | recursive => some owner
  | _         => none

namespace Leaf

open ScalarKind

-- The number in any form, as a float.
def number? : Leaf → Option Double
  | int n    => some (.ofInt n.toInt)
  | bigInt n => some n.double
  | float x  => some x
  | _        => none

-- Reads the leaf as a scalar, which is of no use to some: of a wide integer that is cut short, and
-- of a text that is not base64, the index of the token is told.
def read [UuidFormat] (index : Nat) (k : ScalarKind) (l : Leaf) : Except ScalarFault Value :=
  match k, l with
  | .string, string s    => .ok (.string s)
  | .binary, string s    => match Base64.decode? s with
    | some bytes => .ok (.binary bytes)
    | none       => .error (.invalid (CursorError.invalidBase64 index).message)
  | .uuid, string s      => readUuid s
  | .bool, bool b        => .ok (.bool b)
  | .int width, int n    => narrow width n.toInt
  | .int width, bigInt n => match readInt64? n.text with
    | some n => narrow width n.toInt
    | none   => .error (.invalid (CursorError.numberOutOfRange index).message)
  | .bigInt, int n       => readBigInt (toString n.toInt)
  | .bigInt, bigInt n    => readBigInt n.text
  | .f32, l              => match l.number? with
    | some x => narrowFloat x
    | none   => .error (.mismatch .anyNumber l.token.kind)
  | .f64, l              => match l.number? with
    | some x => .ok (.f64 x)
    | none   => .error (.mismatch .anyNumber l.token.kind)
  | k, l                 => .error (.mismatch k.accepts l.token.kind)

end Leaf

namespace DecodeError

def mismatchAt (schema : Schema) (field : Field) (expected : KindSet) (actual : TokenKind) :
    DecodeError :=
  .tokenMismatch schema.typeName (some field.name) expected actual none

def nullAt (schema : Schema) (field : Field) : DecodeError :=
  .nullViolation schema.typeName field.name none

def scalarAt (schema : Schema) (field : Field) (k : ScalarKind) : ScalarFault → DecodeError
  | .mismatch expected actual => mismatchAt schema field expected actual
  | .invalid reason           => .invalidScalar schema.typeName field.name k reason none
  | .source e                 => .cursor e

end DecodeError

namespace TokenTree

-- What the members of an object say of the fields, in their order.
abbrev States := List (Field × TriState Value)

namespace States

-- The last that is said of a field.
def last? (states : States) (field : Field) : Option (TriState Value) :=
  (states.reverse.find? (·.1 = field)).map (·.2)

-- Absence shows in tri-state fields only.
def slot (states : States) (field : Field) : Slot Value :=
  if field.triState then .optional ((states.last? field).getD .undefined)
  else match states.last? field with
    | some (.value v) => .value v
    | _               => .value .null

def record (states : States) (schema : Schema) : Record where
  typeName := schema.typeName
  fields := schema.fields.map fun field => ⟨field.name, states.slot field⟩

end States

-- The required fields that no member has the name of.
def missing (schema : Schema) (members : List (MemberName × TokenTree)) : List Field :=
  schema.fields.filter fun field => field.isRequired && members.all (·.1.text ≠ field.name)

-- The record of an object whose members are in order.
def close (schema : Schema) (members : List (MemberName × TokenTree)) (states : States) :
    Except DecodeError Record :=
  match missing schema members with
  | []     => .ok (states.record schema)
  | fields => .error (.missingFields schema.typeName (fields.map (·.name)) none)

section

variable {schema : Schema} {members members' : List (MemberName × TokenTree)}

theorem missing_congr (h : ∀ field ∈ schema.fields,
    members.all (·.1.text ≠ field.name) = members'.all (·.1.text ≠ field.name)) :
    missing schema members = missing schema members' :=
  List.filter_congr fun field hf => congrArg _ (h field hf)

theorem close_congr (h : missing schema members = missing schema members') :
    close schema members = close schema members' := by
  funext
  rw [close, close, h]

end

variable (set : SchemaSet) (rules : DecodeRules)

-- What is in an object or a list with `depth` others around it, unless that is too deep.
def inside {α : Type} (depth : Nat) (content : Except DecodeError α) : Except DecodeError α :=
  if rules.maxDepth ≤ depth then .error (.depthExceeded rules.maxDepth) else content

-- What a member says of its field. Null is not decoded.
def stateOf (schema : Schema) (field : Field) (k : TokenKind) (v : Except DecodeError Value) :
    Except DecodeError (TriState Value) :=
  if k = .null then if field.isRequired then .error (.nullAt schema field) else .ok .null
  else .value <$> v

variable [UuidFormat]

mutual

-- What a value is for a field as some kind. It has `depth` objects and lists around it, and `index`
-- tokens before it.
def value (schema : Schema) (field : Field) (k : FieldKind) (depth index : Nat) :
    TokenTree → Except DecodeError Value
  | leaf l =>
    match k with
    | .scalar k => (l.read index k).mapError (.scalarAt schema field k)
    | k         => .error (.mismatchAt schema field k.accepts l.token.kind)
  | array items =>
    match k with
    | .list inner => do
      let items ← inside rules depth (itemValues schema field inner (depth + 1) (index + 1) 0 items)
      return .list items
    | k           => .error (.mismatchAt schema field k.accepts .arrayStart)
  | object members =>
    match k.schema? set schema with
    | some target => do
      let states := memberStates target (depth + 1) (index + 1) members
      let r ← inside rules depth (states >>= close target members)
      return .record r
    | none        => .error (.mismatchAt schema field k.accepts .objectStart)

-- The items of a list, after `count` others.
def itemValues (schema : Schema) (field : Field) (inner : FieldKind) (depth index count : Nat) :
    List TokenTree → Except DecodeError (List Value)
  | []            => .ok []
  | item :: items =>
    if item.kind = .null then .error (.nullAt schema field)
    else if rules.maxListLength ≤ count then
      .error (.listTooLong schema.typeName field.name rules.maxListLength)
    else do
      let v ← value schema field inner depth index item
      let vs ← itemValues schema field inner depth (index + item.size) (count + 1) items
      return v :: vs

def memberStates (schema : Schema) (depth index : Nat) :
    List (MemberName × TokenTree) → Except DecodeError States
  | []                      => .ok []
  | (name, tree) :: members =>
    match schema.fieldNamed? name.text with
    | some field => do
      let v := value schema field field.kind depth (index + 1) tree
      let state ← stateOf schema field tree.kind v
      let states ← memberStates schema depth (index + 1 + tree.size) members
      return (field, state) :: states
    | none       =>
      if rules.denyUnknownFields then .error (.unknownField schema.typeName name.text none)
      else memberStates schema depth (index + 1 + tree.size) members

end

-- What the root is, as an object of these members.
def record (schema : Schema) (members : List (MemberName × TokenTree)) :
    Except DecodeError Record :=
  inside rules 0 (memberStates set rules schema 1 1 members >>= close schema members)

end TokenTree
end RecordDecoding
