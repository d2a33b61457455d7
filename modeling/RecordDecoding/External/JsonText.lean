import RecordDecoding.Cursor.Text
import RecordDecoding.Json.Lexeme

namespace RecordDecoding

namespace Json

-- A container of which the end was not seen yet; what it holds so far, the last first.
inductive Unclosed where
  | array (items : List Json)
  | object (members : List (String × Json)) (name : Option String)

structure Builder where
  -- The containers around what comes next, the innermost first.
  unclosed : List Unclosed
  root : Option Json

namespace Builder

def empty : Builder := ⟨[], none⟩

-- Puts a complete value into the innermost container.
def put (b : Builder) (value : Json) : Option Builder :=
  match b.unclosed, b.root with
  | [], none => some ⟨[], some value⟩
  | .array items :: rest, root => some ⟨.array (value :: items) :: rest, root⟩
  | .object members (some name) :: rest, root =>
    some ⟨.object ((name, value) :: members) none :: rest, root⟩
  | _, _ => none

def add (b : Builder) : Lexeme → Option Builder
  | .null => b.put .null
  | .bool value => b.put (.bool value)
  | .number literal => b.put (.number literal)
  | .string text => b.put (.string text)
  | .arrayStart => some { b with unclosed := .array [] :: b.unclosed }
  | .objectStart => some { b with unclosed := .object [] none :: b.unclosed }
  | .name text =>
    match b.unclosed with
    | .object members none :: rest =>
      some { b with unclosed := .object members (some text) :: rest }
    | _ => none
  | .arrayEnd =>
    match b.unclosed with
    | .array items :: rest => { b with unclosed := rest }.put (.array items.reverse)
    | _ => none
  | .objectEnd =>
    match b.unclosed with
    | .object members none :: rest => { b with unclosed := rest }.put (.object members.reverse)
    | _ => none

end Builder

-- The value that lexemes flatten.
def ofLexemes? (lexemes : List Lexeme) : Option Json := do
  let b ← lexemes.foldlM Builder.add .empty
  if b.unclosed.isEmpty then b.root else none

end Json

-- What the cursor sits on.
def TextCursor.current (c : TextCursor) : Except CursorError Lexeme :=
  match c.kind with
  | .objectStart => .ok .objectStart
  | .objectEnd => .ok .objectEnd
  | .fieldName => .ok (.name c.scratch)
  | .string => .ok (.string c.scratch)
  | .integer | .float => c.lexeme.map .number
  | .boolTrue => .ok (.bool true)
  | .boolFalse => .ok (.bool false)
  | .null => .ok .null
  | .arrayStart => .ok .arrayStart
  | .arrayEnd => .ok .arrayEnd

-- The value that a text holds, if it holds one and nothing else.
def Json.parse? (source : List UInt8) : Option Json := do
  let cursors ← (TextCursor.all source).toOption
  if hasSignedUnit source then failure
  let lexemes ← (cursors.mapM TextCursor.current).toOption
  ofLexemes? lexemes

end RecordDecoding
