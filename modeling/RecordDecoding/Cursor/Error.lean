import RecordDecoding.Text.Hex
import RecordDecoding.Token.Kind

namespace RecordDecoding

-- What a text could have continued with where it did not.
inductive Wanted where
  | value
  | literal
  | stringCharacter
  | quote
  | colon
  | commaOrBrace
  | commaOrBracket
  deriving DecidableEq, Repr

def Wanted.text : Wanted → String
  | value => "value"
  | literal => "literal"
  | stringCharacter => "string character"
  | quote => "'\"'"
  | colon => "':'"
  | commaOrBrace => "',' or '\x7d'"
  | commaOrBracket => "',' or ']'"

inductive CursorError where
  -- The input ends in the middle of a value.
  | unexpectedEof (offset : Nat)
  -- A byte does not fit the grammar.
  | unexpectedByte (byte : UInt8) (offset : Nat) (wanted : Wanted)
  -- A number is malformed.
  | invalidNumber (offset : Nat)
  -- A number does not fit what is asked of it.
  | numberOutOfRange (offset : Nat)
  -- An escape in a string is malformed; the offset is that of its backslash.
  | invalidEscape (offset : Nat)
  -- A string is not UTF-8; the offset is that of its opening quote.
  | invalidUtf8 (offset : Nat)
  -- A string is not base64.
  | invalidBase64 (offset : Nat)
  -- An accessor was used on a token of another kind.
  | wrongToken (expected actual : TokenKind)
  -- The bounds of a number's lexeme are out of order: an advance failed after it had moved on.
  | lexemeLost (start stop : Nat)
  -- Something follows the root value.
  | trailingData (offset : Nat)
  -- There is no token after the current one.
  | exhausted
  -- The owner of the cursor cancelled it.
  | cancelled
  deriving DecidableEq, Repr

namespace CursorError

def message : CursorError → String
  | unexpectedEof offset => s!"unexpected eof at offset {offset}"
  | unexpectedByte byte offset wanted =>
    s!"unexpected byte 0x{String.ofList (Hex.fixed 2 byte.toNat)} at offset {offset}, "
      ++ s!"expected {wanted.text}"
  | invalidNumber offset => s!"invalid number at offset {offset}"
  | numberOutOfRange offset => s!"number out of range at offset {offset}"
  | invalidEscape offset => s!"invalid escape at offset {offset}"
  | invalidUtf8 offset => s!"invalid utf-8 at offset {offset}"
  | invalidBase64 offset => s!"invalid base64 at offset {offset}"
  | wrongToken expected actual => s!"accessor for {expected.label} called on {actual.label}"
  | lexemeLost start stop => s!"number from offset {start} has its end at offset {stop}"
  | trailingData offset => s!"trailing data at offset {offset}"
  | exhausted => "token stream exhausted"
  | cancelled => "cursor cancelled"

-- Whether the failure is one of the current value and not of the token stream.
def isValueFault : CursorError → Bool
  | numberOutOfRange _ | invalidBase64 _ => true
  | _ => false

-- Accessors start with this check.
def expectKind (expected actual : TokenKind) : Except CursorError Unit :=
  if actual = expected then .ok () else .error (.wrongToken expected actual)

end CursorError

end RecordDecoding
