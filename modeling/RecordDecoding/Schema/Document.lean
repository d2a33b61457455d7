import RecordDecoding.Json.Basic
import RecordDecoding.Schema.Registry
import RecordDecoding.Schema.TypeSpec
import RecordDecoding.Text.Bytes

namespace RecordDecoding

structure FieldDoc where
  name : String
  -- A type spec.
  type : String
  nullable : Bool := false
  -- Absence and null are told apart.
  optional : Bool := false
  ordinal : Option Nat := none
  deriving DecidableEq, Repr

structure TypeDoc where
  name : String
  fields : List FieldDoc
  deriving DecidableEq, Repr

structure Document where
  -- The type to decode if no other is asked for; the first one if it is not given.
  root : Option String
  types : List TypeDoc
  deriving DecidableEq, Repr

-- The schemas of a document and the type to decode. There is none if there are no types.
structure LoadedSchema where
  set : SchemaSet
  root : Option SchemaId
  deriving DecidableEq, Repr

namespace FieldDoc

def toJson (f : FieldDoc) : Json :=
  .object <|
    [("name", .string f.name), ("type", .string f.type)]
    ++ (if f.nullable then [("nullable", .bool true)] else [])
    ++ (if f.optional then [("optional", .bool true)] else [])
    ++ f.ordinal.toList.map fun n => ("ordinal", .ofNat n)

def ofField (set : SchemaSet) (owner : Schema) (f : Field) : FieldDoc where
  name := f.name
  type := set.describe owner f.kind
  nullable := f.nullable
  optional := f.triState
  ordinal := some f.ordinal

def declare (type : String) (f : FieldDoc) : Except SchemaError FieldDecl :=
  match TypeSpec.parse? f.type with
  | some spec => .ok ⟨f.name, spec, f.nullable, f.optional, f.ordinal⟩
  | none => .error (.invalidTypeSpec type f.name f.type)

end FieldDoc

namespace TypeDoc

def toJson (t : TypeDoc) : Json :=
  .object [("name", .string t.name), ("fields", .array (t.fields.map (·.toJson)))]

def declare (t : TypeDoc) : Except SchemaError TypeDecl :=
  return ⟨t.name, ← t.fields.mapM (·.declare t.name)⟩

end TypeDoc

namespace Document

def toJson (d : Document) : Json :=
  .object <|
    (d.root.toList.map fun name => ("root", .string name))
    ++ [("types", .array (d.types.map (·.toJson)))]

-- Type specs are read before any name is resolved.
def build (d : Document) : Except SchemaError LoadedSchema := do
  let registry ← Registry.build (← d.types.mapM (·.declare))
  match d.root with
  | some name =>
    match registry.idOf? name with
    | some id => return ⟨registry.set, some id⟩
    | none => throw (.unknownRoot name)
  | none => return ⟨registry.set, registry.set.schemas.head?.map (·.id)⟩

-- The document of a set of schemas. Every ordinal is pinned.
def ofSet (loaded : LoadedSchema) : Document where
  root := (loaded.root.bind loaded.set.get?).map (·.typeName)
  types := loaded.set.schemas.map fun s => ⟨s.typeName, s.fields.map (.ofField loaded.set s)⟩

end Document

namespace LoadedSchema

-- What a text declares, given what reads documents.
def ofText (document? : String → Option Document) (text : String) :
    Except SchemaError LoadedSchema :=
  match document? text with
  | some d => d.build
  | none => .error .malformed

-- The bytes may not even be text.
def ofBytes (document? : String → Option Document) (bytes : List UInt8) :
    Except SchemaError LoadedSchema :=
  match Utf8.decode? bytes with
  | some text => ofText document? text
  | none => .error .unreadable

-- The type of a name, or the root.
def select? (loaded : LoadedSchema) : Option String → Option SchemaId
  | some name => loaded.set.idOf? name
  | none => loaded.root

end LoadedSchema

end RecordDecoding
