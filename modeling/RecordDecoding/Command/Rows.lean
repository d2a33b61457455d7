import RecordDecoding.Cursor.Text
import RecordDecoding.Json.Basic
import RecordDecoding.Text.Quoted

namespace RecordDecoding.Command

structure TokenRow where
  kind : TokenKind
  -- How many containers are around the token.
  depth : Nat
  position : Position
  text : Option String
  deriving DecidableEq, Repr

-- A number in a column of its own, with blanks before or after it.
def alignRight (width : Nat) (n : Nat) : String :=
  let digits := toString n
  String.ofList (List.replicate (width - digits.length) ' ') ++ digits

def alignLeft (width : Nat) (n : Nat) : String :=
  let digits := toString n
  digits ++ String.ofList (List.replicate (width - digits.length) ' ')

namespace TokenRow

-- Names and strings are quoted, and numbers are as in the payload.
def textOf (c : TextCursor) : Except CursorError (Option String) := do
  match c.kind with
  | .fieldName => return some (Quoted.text (← c.fieldName).text)
  | .string => return some (Quoted.text (← c.text))
  | .integer | .float => return some (← c.numberText)
  | _ => return none

def ofCursor (c : TextCursor) : Except CursorError TokenRow :=
  return {
    kind := c.kind
    -- The container that starts here is open already.
    depth := if c.kind.opensContainer then c.depth - 1 else c.depth
    position := c.position
    text := ← textOf c
  }

def line (row : TokenRow) : String :=
  let p := row.position
  alignRight 6 p.offset ++ " " ++ alignRight 4 p.line ++ ":" ++ alignLeft 4 p.column ++ " "
    ++ String.ofList (List.replicate (2 * row.depth) ' ') ++ row.kind.label
    ++ (row.text.map (" " ++ ·)).getD ""

def toJson (row : TokenRow) : Json :=
  .object <|
    [("kind", .string row.kind.label), ("depth", .ofNat row.depth),
      ("offset", .ofNat row.position.offset), ("line", .ofNat row.position.line),
      ("column", .ofNat row.position.column)]
    ++ row.text.toList.map fun text => ("text", .string text)

-- The rows of a text that is one value.
def ofBytes (source : List UInt8) : Except CursorError (List TokenRow) := do
  (← TextCursor.all source).mapM ofCursor

end TokenRow

end RecordDecoding.Command
