import RecordDecoding.Decode.Error
import RecordDecoding.Json.Writer
import RecordDecoding.Payload
import RecordDecoding.Schema.Document
import RecordDecoding.Uuid

namespace RecordDecoding.Command

inductive CommandError where
  | decode (error : DecodeError)
  | schema (error : SchemaError)
  | source (error : SourceError)
  -- The payload is not JSON.
  | cursor (error : CursorError)
  | unknownType (name : String)
  -- No type is asked for, and the schema has none.
  | noRootType
  deriving DecidableEq, Repr

def CommandError.message : CommandError → String
  | decode error => error.message
  | schema error => "schema: " ++ error.message
  | source error => "payload: " ++ error.message
  | cursor error => "payload: " ++ error.message
  | unknownType name => s!"type {name} is not declared in the schema"
  | noRootType => "schema declares no types"

-- A file as it was named, with its bytes if it could be read.
structure File where
  path : String
  bytes : Option (List UInt8)
  deriving DecidableEq, Repr

abbrev Answer := Except CommandError

-- What is left to libraries besides identifiers: to decompress, and to read documents.
class Libraries extends UuidFormat where
  decompress : List UInt8 → Decompression
  document? : String → Option Document

namespace File

variable [Libraries]

def schema (f : File) : Answer LoadedSchema :=
  (f.bytes.elim (.error .unreadable) (LoadedSchema.ofBytes Libraries.document?)).mapError .schema

def payload (f : File) : Answer Payload :=
  (f.bytes.elim (.error .unreadable) (Payload.ofRaw Libraries.decompress)).mapError .source

end File

-- The type that is asked for, or the root.
def selectType (loaded : LoadedSchema) (name : Option String) : Answer SchemaId :=
  match name, loaded.select? name with
  | _, some id => .ok id
  | some name, none => .error (.unknownType name)
  | none, none => .error .noRootType

-- The text of lines, with a line break after each.
def printLines (lines : List String) : String :=
  String.join (lines.map (· ++ "\n"))

def printJson (j : Json) : String :=
  j.pretty ++ "\n"

end RecordDecoding.Command
