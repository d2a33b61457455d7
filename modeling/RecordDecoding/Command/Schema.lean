import RecordDecoding.Command.Basic

namespace RecordDecoding.Command

structure SchemaArgs where
  schema : File
  typeName : Option String := none
  asJson : Bool := false

-- How the presence of fields is tracked.
def presenceLabel (s : Schema) : String :=
  if s.seed.isWord then "word" else "wide"

-- What may stand for a field's value.
def modeLabel (f : Field) : String :=
  if f.triState then "optional" else if f.nullable then "nullable" else "required"

def fieldLine (set : SchemaSet) (s : Schema) (f : Field) : String :=
  s!"  #{f.ordinal} {f.name}: {set.describe s f.kind} {modeLabel f}"

def schemaLines (set : SchemaSet) (s : Schema) : List String :=
  s!"{s.typeName} (fields={s.length}, presence={presenceLabel s})"
    :: s.fields.map (fieldLine set s)

def fieldJson (set : SchemaSet) (s : Schema) (f : Field) : Json :=
  .object [("name", .string f.name), ("ordinal", .ofNat f.ordinal),
    ("type", .string (set.describe s f.kind)), ("mode", .string (modeLabel f))]

def schemaJson (set : SchemaSet) (s : Schema) : Json :=
  .object [("name", .string s.typeName), ("presence", .string (presenceLabel s)),
    ("fields", .array (s.fields.map (fieldJson set s)))]

-- The type that is asked for, or all of them.
def selectSchemas (set : SchemaSet) : Option String → Answer (List Schema)
  | some name => (set.schemaNamed? name).elim (.error (.unknownType name)) fun s => .ok [s]
  | none => .ok set.schemas

def showSchema [Libraries] (args : SchemaArgs) : Answer String := do
  let loaded ← args.schema.schema
  let schemas ← selectSchemas loaded.set args.typeName
  let root := (loaded.root.bind loaded.set.get?).map (·.typeName)
  if args.asJson then
    return printJson <| .object [("root", (root.map .string).getD .null),
      ("types", .array (schemas.map (schemaJson loaded.set)))]
  else
    return printLines <|
      ["schema: " ++ args.schema.path, "root: " ++ root.getD "-"]
      ++ schemas.flatMap (schemaLines loaded.set)

end RecordDecoding.Command
