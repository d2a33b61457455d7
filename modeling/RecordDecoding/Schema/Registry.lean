import RecordDecoding.Schema.Declaration

namespace RecordDecoding

-- What was entered for names, the last first.
abbrev Table (α : Type) := List (String × α)

-- A schema with what is stored for it: its ordinals by the names of the fields, and the mask for an
-- object of which nothing was read yet.
structure StoredSchema where
  schema : Schema
  byName : Table Nat
  seed : Presence
  deriving DecidableEq, Repr

-- Schemas with their ids by the names of the types.
structure Registry where
  schemas : List StoredSchema
  byName : Table SchemaId
  deriving DecidableEq, Repr

def StoredSchema.ordinalOf? (s : StoredSchema) (name : String) : Option Nat :=
  s.byName.lookup name

namespace Registry

def set (r : Registry) : SchemaSet where
  schemas := r.schemas.map (·.schema)

def idOf? (r : Registry) (name : String) : Option SchemaId :=
  r.byName.lookup name

-- Enters types by their names. No name may be there already.
def enterTypes (byName : Table SchemaId) :
    List (TypeDecl × Nat) → Except SchemaError (Table SchemaId)
  | [] => .ok byName
  | (type, index) :: types =>
    if (byName.lookup type.name).isSome then .error (.duplicateType type.name)
    else enterTypes ((type.name, ⟨index⟩) :: byName) types

end Registry

-- The kind of a field of `owner`.
def FieldType.resolve (types : Table SchemaId) (owner : String) :
    FieldType → Except String FieldKind
  | scalar kind => .ok (.scalar kind)
  | named target =>
    if target = owner then .ok .recursive
    else match types.lookup target with
      | some id => .ok (.nested id)
      | none => .error target
  | list inner => (inner.resolve types owner).map .list

-- Fields in the slots of their ordinals, and their ordinals by their names.
structure Slots where
  fields : List (Option Field)
  byName : Table Nat

namespace Slots

def empty (count : Nat) : Slots where
  fields := .replicate count none
  byName := []

def enter (type : String) (types : Table SchemaId) (slots : Slots) :
    FieldDecl × Nat → Except SchemaError Slots
  | (decl, ordinal) => do
    if (slots.byName.lookup decl.name).isSome then throw (.duplicateField type decl.name)
    let kind ← (decl.type.resolve types type).mapError (.unknownType type decl.name)
    let field : Field := ⟨decl.name, ordinal, kind, decl.nullable, decl.triState⟩
    return {
      fields := slots.fields.set ordinal (some field)
      byName := (decl.name, ordinal) :: slots.byName
    }

end Slots

def TypeDecl.register (type : TypeDecl) (types : Table SchemaId) (id : SchemaId) :
    Except SchemaError StoredSchema := do
  let count := type.fields.length
  let slots ← (← type.withOrdinals).foldlM (Slots.enter type.name types) (.empty count)
  let fields := slots.fields.filterMap (·)
  return {
    schema := { id, typeName := type.name, fields }
    byName := slots.byName
    seed := .seed count ((fields.filter (!·.isRequired)).map (·.ordinal))
  }

def Registry.build (types : List TypeDecl) : Except SchemaError Registry := do
  let byName ← enterTypes [] types.zipIdx
  let schemas ← types.zipIdx.mapM fun (type, index) => type.register byName ⟨index⟩
  return { schemas, byName }

def SchemaSet.build (types : List TypeDecl) : Except SchemaError SchemaSet :=
  (Registry.build types).map (·.set)

end RecordDecoding
