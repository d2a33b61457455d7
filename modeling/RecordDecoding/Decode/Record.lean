import RecordDecoding.Decode.Members
import RecordDecoding.Decode.Scalar

namespace RecordDecoding

open Decoding Forward

-- The level that an object or a list opens: its depth, and how the values in it are decoded.
structure Level (σ : Type) [Cursor σ] where
  depth : Nat
  value : ValueDecoding σ

variable {σ : Type} [Cursor σ] [UuidFormat]

namespace Level

variable (set : SchemaSet) (opt : DecodeOptions)

-- Opens a level if there is one.
def enter (level : Option (Level σ)) : Decoding σ (Level σ) :=
  match level with
  | some level => do
    reachDepth level.depth
    return level
  | none => fail (.depthExceeded opt.maxDepth)

-- The object that starts at the current token.
def object (level : Option (Level σ)) (schema : Schema) : Decoding σ Record := do
  let level ← enter opt level
  count fun s => { s with objects := s.objects + 1 }
  advance
  level.value.members opt schema

-- One item of a list after those that are given in reverse, or the end of the list.
def item (level : Level σ) (schema : Schema) (field : Field) (inner : FieldKind)
    (items : List Value) : Decoding σ (List Value ⊕ List Value) := do
  match ← kind with
  | .arrayEnd => return .inr items.reverse
  | .null => fail (.nullViolation schema.typeName field.name (← position))
  | _ =>
    if opt.maxListLength ≤ items.length then
      fail (.listTooLong schema.typeName field.name opt.maxListLength)
    else
      reachLength (items.length + 1)
      return .inl ((← level.value schema field inner) :: items)

-- The list that starts at the current token.
def list (level : Option (Level σ)) (schema : Schema) (field : Field) (inner : FieldKind) :
    Decoding σ (List Value) := do
  let level ← enter opt level
  advance
  loop advance advance_reads (level.item opt schema field inner) []

def mismatch {α : Type} (schema : Schema) (field : Field) (expected : KindSet)
    (actual : TokenKind) : Decoding σ α := do
  fail (.tokenMismatch schema.typeName (some field.name) expected actual (← position))

def scalar (schema : Schema) (field : Field) (k : ScalarKind) : Decoding σ Value := do
  match k.read (← look).cursor with
  | .ok v => return v
  | .error (.mismatch expected actual) => mismatch schema field expected actual
  | .error (.invalid reason) =>
    fail (.invalidScalar schema.typeName field.name k reason (← position))
  | .error (.source e) => fail (.cursor e)

-- A field whose value is a record of the type of `target`.
def nested (level : Option (Level σ)) (schema : Schema) (field : Field) (target : Schema) :
    Decoding σ Value := do
  match ← kind with
  | .objectStart =>
    report (.descending schema.typeName field.name target.typeName)
    return .record (← object opt level target)
  | actual => mismatch schema field .onlyObject actual

-- Decodes values where `level` is the next level that may be opened, if there is one.
def decodeValue (level : Option (Level σ)) : ValueDecoding σ := fun schema field k => do
  match k with
  | .scalar k => scalar schema field k
  | .nested id =>
    match set.get? id with
    | some target => nested opt level schema field target
    | none => fail (.unknownSchema id.index)
  | .recursive => nested opt level schema field schema
  | .list inner =>
    match ← kind with
    | .arrayStart => return .list (← list opt level schema field inner)
    | actual => mismatch schema field .onlyArray actual

-- The next level where `room` levels may still be opened. What is below it is made when it is used.
def next : (room : Nat) → Option (Level σ)
  | 0 => none
  | room + 1 => some {
      depth := opt.maxDepth - room
      value := fun schema field k => decodeValue set opt (next room) schema field k
    }

end Level

-- Decodes the current value as a record of a schema. Null is no record.
def decodeRecordOf (set : SchemaSet) (opt : DecodeOptions) (schema : Schema) :
    Decoding σ (Option Record) := do
  match ← kind with
  | .null => return none
  | .objectStart => return some (← Level.object opt (Level.next set opt opt.maxDepth) schema)
  | actual => fail (.tokenMismatch schema.typeName none .onlyObject actual (← position))

-- Decodes the current value as a record of the type that `id` stands for. When it succeeds, the
-- cursor sits on the closing brace of the object, or on the null.
def decodeRecord (set : SchemaSet) (id : SchemaId) (opt : DecodeOptions) :
    Decoding σ (Option Record) :=
  match set.get? id with
  | some schema => decodeRecordOf set opt schema
  | none => fail (.unknownSchema id.index)

end RecordDecoding
