import RecordDecoding.Text.Quoted

namespace RecordDecoding

inductive SchemaError where
  -- The document cannot be read, or is not text.
  | unreadable
  -- The document is not JSON of the expected shape.
  | malformed
  | duplicateType (name : String)
  | duplicateField (type field : String)
  -- A pinned ordinal is not below the number of fields.
  | ordinalOutOfRange (type field : String) (ordinal count : Nat)
  | duplicateOrdinal (type : String) (ordinal : Nat)
  -- Some fields of a type pin their ordinals and others do not.
  | mixedOrdinals (type : String)
  | unknownType (type field target : String)
  | unknownRoot (name : String)
  | invalidTypeSpec (type field spec : String)
  deriving DecidableEq, Repr

def SchemaError.message : SchemaError → String
  | unreadable => "io: the schema document cannot be read"
  | malformed => "schema document: not of the expected shape"
  | duplicateType name => s!"duplicate type {name}"
  | duplicateField type field => s!"{type}: duplicate field {field}"
  | ordinalOutOfRange type field ordinal count =>
    s!"{type}.{field}: ordinal {ordinal} out of range (fields={count})"
  | duplicateOrdinal type ordinal => s!"{type}: ordinal {ordinal} used more than once"
  | mixedOrdinals type => s!"{type}: ordinals must be given for all fields or none"
  | unknownType type field target => s!"{type}.{field}: unknown type {target}"
  | unknownRoot name => s!"unknown root type {name}"
  | invalidTypeSpec type field spec => s!"{type}.{field}: invalid type {Quoted.text spec}"

end RecordDecoding
