import RecordDecoding.Cursor.Error
import RecordDecoding.Schema.Basic
import RecordDecoding.Text.Quoted
import RecordDecoding.Token.Position

namespace RecordDecoding

-- What kind of failure an error is.
inductive ErrorKind where
  | tokenMismatch
  | nullViolation
  | missingFields
  | invalidScalar
  | unknownField
  | limitExceeded
  | conversion
  | unknownSchema
  | cursor
  deriving DecidableEq, Repr

def ErrorKind.label : ErrorKind → String
  | tokenMismatch => "token_mismatch"
  | nullViolation => "null_violation"
  | missingFields => "missing_fields"
  | invalidScalar => "invalid_scalar"
  | unknownField => "unknown_field"
  | limitExceeded => "limit_exceeded"
  | conversion => "conversion"
  | unknownSchema => "unknown_schema"
  | cursor => "cursor"

inductive DecodeError where
  -- A token is not accepted where it appeared: for a field, or for the object itself.
  | tokenMismatch (type : String) (field : Option String) (expected : KindSet) (actual : TokenKind)
      (position : Option Position)
  -- Null where a value is needed.
  | nullViolation (type field : String) (position : Option Position)
  -- The object ended before these fields were seen.
  | missingFields (type : String) (fields : List String) (position : Option Position)
  -- A token that is accepted carries a value which the field cannot hold.
  | invalidScalar (type field : String) (kind : ScalarKind) (reason : String)
      (position : Option Position)
  -- A member that the type does not declare, where these are denied.
  | unknownField (type field : String) (position : Option Position)
  | depthExceeded (maxDepth : Nat)
  | listTooLong (type field : String) (max : Nat)
  -- A decoded value does not convert into what was asked for.
  | conversion (type field expected got : String)
  | unknownSchema (index : Nat)
  | cursor (error : CursorError)
  deriving DecidableEq, Repr

namespace DecodeError

def kind : DecodeError → ErrorKind
  | tokenMismatch .. => .tokenMismatch
  | nullViolation .. => .nullViolation
  | missingFields .. => .missingFields
  | invalidScalar .. => .invalidScalar
  | unknownField .. => .unknownField
  | depthExceeded _ | listTooLong .. => .limitExceeded
  | conversion .. => .conversion
  | unknownSchema _ => .unknownSchema
  | cursor _ => .cursor

-- The fields that the error is about.
def fields : DecodeError → List String
  | tokenMismatch _ field _ _ _ => field.toList
  | nullViolation _ field _ | invalidScalar _ field _ _ _ | listTooLong _ field _
  | conversion _ field _ _ | unknownField _ field _ => [field]
  | missingFields _ fields _ => fields
  | depthExceeded _ | unknownSchema _ | cursor _ => []

def position : DecodeError → Option Position
  | tokenMismatch _ _ _ _ p | nullViolation _ _ p | invalidScalar _ _ _ _ p | unknownField _ _ p
  | missingFields _ _ p => p
  | _ => none

def path (type : String) (field : Option String) : String :=
  field.elim type fun field => s!"{type}.{field}"

def message : DecodeError → String
  | tokenMismatch type field expected actual p =>
    s!"{path type field}: expected {expected.text}, got {actual.label}{Position.clause p}"
  | nullViolation type field p =>
    s!"{type}.{field}: null is not allowed for a required field{Position.clause p}"
  | missingFields type fields _ =>
    s!"{type}: missing required fields: " ++ ", ".intercalate fields
  | invalidScalar type field kind reason p =>
    s!"{type}.{field}: invalid {kind.label}: {reason}{Position.clause p}"
  | unknownField type field p => s!"{type}: unknown field {Quoted.text field}{Position.clause p}"
  | depthExceeded maxDepth => s!"decode depth exceeded (max={maxDepth})"
  | listTooLong type field max => s!"{type}.{field}: list too long (max={max})"
  | conversion type field expected got => s!"{type}.{field}: cannot convert {got} into {expected}"
  | unknownSchema index => s!"schema #{index} is not part of this schema set"
  | cursor error => "cursor: " ++ error.message

end DecodeError

end RecordDecoding
