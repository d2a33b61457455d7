import RecordDecoding.Json.Basic
import RecordDecoding.Text.Hex

namespace RecordDecoding.Json

-- A character as it stands in a string; controls without a short escape are written by their code.
def writeChar (c : Char) : List Char :=
  if c = '"' then ['\\', '"']
  else if c = '\\' then ['\\', '\\']
  else if c = '\x08' then ['\\', 'b']
  else if c = '\t' then ['\\', 't']
  else if c = '\n' then ['\\', 'n']
  else if c = '\x0c' then ['\\', 'f']
  else if c = '\x0d' then ['\\', 'r']
  else if c.toNat < 0x20 then ['\\', 'u'] ++ Hex.fixed 4 c.toNat
  else [c]

def writeString (s : String) : String :=
  String.ofList ('"' :: s.toList.flatMap writeChar ++ ['"'])

def writeBool (b : Bool) : String :=
  if b then "true" else "false"

mutual

def compact : Json → String
  | null => "null"
  | bool b => writeBool b
  | number literal => literal
  | string s => writeString s
  | array items => "[" ++ ",".intercalate (compactItems items) ++ "]"
  | object members => "\x7b" ++ ",".intercalate (compactMembers members) ++ "\x7d"

def compactItems : List Json → List String
  | [] => []
  | item :: items => item.compact :: compactItems items

def compactMembers : List (String × Json) → List String
  | [] => []
  | (name, value) :: members =>
    (writeString name ++ ":" ++ value.compact) :: compactMembers members

end

def indentation (level : Nat) : String :=
  String.ofList (List.replicate (2 * level) ' ')

-- The lines of a container one level in, or nothing between the brackets.
def writeBlock (level : Nat) (start stop : String) (lines : List String) : String :=
  if lines.isEmpty then start ++ stop
  else
    let lines := lines.map (indentation (level + 1) ++ ·)
    start ++ "\n" ++ ",\n".intercalate lines ++ "\n" ++ indentation level ++ stop

mutual

def prettyAt (level : Nat) : Json → String
  | null => "null"
  | bool b => writeBool b
  | number literal => literal
  | string s => writeString s
  | array items => writeBlock level "[" "]" (prettyItems level items)
  | object members => writeBlock level "\x7b" "\x7d" (prettyMembers level members)

def prettyItems (level : Nat) : List Json → List String
  | [] => []
  | item :: items => item.prettyAt (level + 1) :: prettyItems level items

def prettyMembers (level : Nat) : List (String × Json) → List String
  | [] => []
  | (name, value) :: members =>
    (writeString name ++ ": " ++ value.prettyAt (level + 1)) :: prettyMembers level members

end

def pretty (j : Json) : String :=
  j.prettyAt 0

end RecordDecoding.Json
