import RecordDecoding.Number.Layout
import RecordDecoding.Number.Read
import RecordDecoding.Token.Kind

namespace RecordDecoding

-- The place of a field in a set of schemas.
structure FieldPlace where
  schema : Nat
  ordinal : Nat
  deriving DecidableEq, Repr

-- A name that was given to a field remembers the field, so it is known from others of equal text.
structure MemberName where
  text : String
  origin : Option FieldPlace
  deriving DecidableEq, Repr

-- A name that no field was given.
def MemberName.fresh (text : String) : MemberName := ⟨text, none⟩

inductive Token where
  | objectStart
  | objectEnd
  | fieldName (name : MemberName)
  | string (text : String)
  | int (value : Int64)
  -- An integer of any size, as text.
  | bigInt (text : String)
  | float (value : Double)
  | bool (value : Bool)
  | null
  | arrayStart
  | arrayEnd
  deriving DecidableEq, Repr

namespace Token

def kind : Token → TokenKind
  | objectStart => .objectStart
  | objectEnd => .objectEnd
  | fieldName _ => .fieldName
  | string _ => .string
  | int _ | bigInt _ => .integer
  | float _ => .float
  | bool true => .boolTrue
  | bool false => .boolFalse
  | null => .null
  | arrayStart => .arrayStart
  | arrayEnd => .arrayEnd

def numberText? : Token → Option String
  | int n => some (toString n.toInt)
  | bigInt text => some text
  | float x => some x.text
  | _ => none

end Token

end RecordDecoding
