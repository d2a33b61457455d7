import RecordDecoding.Number.Layout
import RecordDecoding.Record.Value

namespace RecordDecoding

structure TreeLimits where
  -- How many characters of a string are shown.
  stringLength : Nat := 200
  listItems : Nat := 16
  -- How deep records and lists are opened.
  depth : Nat := 8
  deriving DecidableEq, Repr

namespace Tree

-- The first characters of a text, with a mark if there are more.
def truncate (limit : Nat) (s : String) : String :=
  if s.length ≤ limit then s else String.ofList (s.toList.take limit) ++ "..."

def indent (width : Nat) (lines : List String) : List String :=
  lines.map (String.ofList (List.replicate width ' ') ++ ·)

-- A list from the lines of its items.
def listLines (limits : TreeLimits) (depth : Nat) (items : List (List String)) : List String :=
  if limits.depth ≤ depth then [s!"[... {items.length} items]"]
  else
    let shown := (items.take limits.listItems).flatten
    let more :=
      if limits.listItems < items.length then [s!"... {items.length - limits.listItems} more"]
      else []
    "[" :: indent 2 (shown ++ more) ++ ["]"]

-- The lines of a value after the name of its field.
def placed (head : String) (v : Value) (lines : List String) : List String :=
  match v with
  | .list _ | .record _ => head :: indent 2 lines
  | _ => lines.map (head ++ ·)

variable [UuidFormat]

mutual

-- The lines of a value at some depth. Only those of records and lists may be several.
def valueLines (limits : TreeLimits) (depth : Nat) : Value → List String
  | .null => ["null"]
  | .bool b => [if b then "true" else "false"]
  | .int _ n => [toString n]
  | .bigInt numeral => [numeral]
  | .f32 x => [x.text]
  | .f64 x => [x.text]
  | .string s => ["\"" ++ truncate limits.stringLength s ++ "\""]
  | .binary bytes => [s!"bytes[{bytes.length}]"]
  | .uuid id => [UuidFormat.text id]
  | .list items => listLines limits depth (itemLines limits (depth + 1) items)
  | .record r => recordLines limits depth r

def itemLines (limits : TreeLimits) (depth : Nat) : List Value → List (List String)
  | [] => []
  | item :: items => valueLines limits depth item :: itemLines limits depth items

def recordLines (limits : TreeLimits) (depth : Nat) : RecordOf Value → List String
  | ⟨typeName, fields⟩ =>
    if limits.depth ≤ depth then [typeName ++ " \x7b ... \x7d"]
    else (typeName ++ " \x7b") :: indent 2 (fieldLines limits (depth + 1) fields) ++ ["\x7d"]

def fieldLines (limits : TreeLimits) (depth : Nat) : List (FieldValue Value) → List String
  | [] => []
  | ⟨name, slot⟩ :: fields =>
    let head := name ++ " = "
    slotLines limits depth head slot ++ fieldLines limits depth fields

-- A field's value follows its name, or stands below it if it is a record or a list.
def slotLines (limits : TreeLimits) (depth : Nat) (head : String) : Slot Value → List String
  | .value v => placed head v (valueLines limits depth v)
  | .optional .undefined => [head ++ "undefined"]
  | .optional .null => [head ++ "null"]
  | .optional (.value v) => placed head v (valueLines limits depth v)

end

end Tree

-- The text of a record, with a line break after every line.
def RecordOf.tree [UuidFormat] (limits : TreeLimits) (r : Record) : String :=
  String.join ((Tree.recordLines limits 0 r).map (· ++ "\n"))

end RecordDecoding
