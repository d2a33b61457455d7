import RecordDecoding.Json.Basic
import RecordDecoding.Text.Bytes

namespace RecordDecoding

inductive Lexeme where
  | objectStart
  | objectEnd
  | name (text : String)
  | string (text : String)
  | number (literal : String)
  | bool (value : Bool)
  | null
  | arrayStart
  | arrayEnd
  deriving DecidableEq, Repr

namespace Json

mutual

-- The lexemes of a value in the order of its text.
def lexemes : Json → List Lexeme
  | null => [.null]
  | bool b => [.bool b]
  | number literal => [.number literal]
  | string s => [.string s]
  | array items => .arrayStart :: itemLexemes items ++ [.arrayEnd]
  | object members => .objectStart :: memberLexemes members ++ [.objectEnd]

def itemLexemes : List Json → List Lexeme
  | [] => []
  | item :: items => item.lexemes ++ itemLexemes items

def memberLexemes : List (String × Json) → List Lexeme
  | [] => []
  | (name, value) :: members => .name name :: value.lexemes ++ memberLexemes members

end

end Json

-- Whether a `\u` escape is followed by a plus sign. A cursor lets this pass, but it is not JSON.
-- Outside of strings there is no backslash.
def Json.hasSignedUnit : List UInt8 → Bool
  | a :: b :: bytes =>
    if a = ascii '\\' then
      (b = ascii 'u' && bytes.head? = some (ascii '+')) || hasSignedUnit bytes
    else hasSignedUnit (b :: bytes)
  | _ => false

end RecordDecoding
