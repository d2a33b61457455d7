import RecordDecoding.Presence
import RecordDecoding.Schema.Scalar
import RecordDecoding.Token.Basic

namespace RecordDecoding

structure SchemaId where
  index : Nat
  deriving DecidableEq, Repr

inductive FieldKind where
  | scalar (kind : ScalarKind)
  | nested (id : SchemaId)
  -- The type that the field belongs to.
  | recursive
  | list (inner : FieldKind)
  deriving DecidableEq, Repr

structure Field where
  name : String
  ordinal : Nat
  kind : FieldKind
  -- Null and absence are allowed.
  nullable : Bool
  -- Null and absence are allowed, and told apart.
  triState : Bool
  deriving DecidableEq, Repr

-- Whether the field must appear with a value other than null.
def Field.isRequired (f : Field) : Bool :=
  !f.nullable && !f.triState

structure Schema where
  id : SchemaId
  typeName : String
  fields : List Field
  deriving DecidableEq, Repr

namespace Schema

def length (s : Schema) : Nat :=
  s.fields.length

def field? (s : Schema) (ordinal : Nat) : Option Field :=
  s.fields[ordinal]?

def fieldNamed? (s : Schema) (name : String) : Option Field :=
  s.fields.find? (·.name == name)

def ordinalOf? (s : Schema) (name : String) : Option Nat :=
  (s.fieldNamed? name).map (·.ordinal)

-- The mask for an object of which nothing was read yet.
def seed (s : Schema) : Presence :=
  .seed s.length ((s.fields.filter (!·.isRequired)).map (·.ordinal))

-- The name that a field was given.
def nameOf (s : Schema) (f : Field) : MemberName :=
  ⟨f.name, some ⟨s.id.index, f.ordinal⟩⟩

end Schema

structure SchemaSet where
  schemas : List Schema
  deriving DecidableEq, Repr

namespace SchemaSet

def get? (set : SchemaSet) (id : SchemaId) : Option Schema :=
  set.schemas[id.index]?

def schemaNamed? (set : SchemaSet) (name : String) : Option Schema :=
  set.schemas.find? (·.typeName == name)

def idOf? (set : SchemaSet) (name : String) : Option SchemaId :=
  (set.schemaNamed? name).map (·.id)

-- A field's type by the names of types; a schema outside the set is shown by its number.
def describe (set : SchemaSet) (owner : Schema) : FieldKind → String
  | .scalar kind => kind.label
  | .nested id => ((set.get? id).map (·.typeName)).getD s!"#{id.index}"
  | .recursive => owner.typeName
  | .list inner => set.describe owner inner ++ "[]"

end SchemaSet

end RecordDecoding
