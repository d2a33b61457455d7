import RecordDecoding.Schema.Basic
import RecordDecoding.Schema.Error

namespace RecordDecoding

inductive FieldType where
  | scalar (kind : ScalarKind)
  | named (name : String)
  | list (inner : FieldType)
  deriving DecidableEq, Repr

structure FieldDecl where
  name : String
  type : FieldType
  nullable : Bool := false
  triState : Bool := false
  -- The ordinal, if it is not the place among the declarations.
  pinned : Option Nat := none
  deriving DecidableEq, Repr

structure TypeDecl where
  name : String
  fields : List FieldDecl
  deriving DecidableEq, Repr

namespace TypeDecl

-- The pinned ordinals, each checked against the ones before it.
def checkPinned (type : String) (count : Nat) (used : List Nat) :
    List (FieldDecl × Nat) → Except SchemaError Unit
  | [] => .ok ()
  | (field, ordinal) :: rest =>
    if count ≤ ordinal then .error (.ordinalOutOfRange type field.name ordinal count)
    else if ordinal ∈ used then .error (.duplicateOrdinal type ordinal)
    else checkPinned type count (ordinal :: used) rest

-- The declarations with their ordinals: their places if none is pinned, else the pinned ones,
-- which must be given for all fields.
def withOrdinals (type : TypeDecl) : Except SchemaError (List (FieldDecl × Nat)) :=
  let pinned := type.fields.filterMap fun field => field.pinned.map (field, ·)
  if pinned.isEmpty then .ok type.fields.zipIdx
  else if pinned.length ≠ type.fields.length then .error (.mixedOrdinals type.name)
  else (checkPinned type.name type.fields.length [] pinned).map fun _ => pinned

end TypeDecl

end RecordDecoding
