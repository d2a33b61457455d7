import RecordDecoding.External.JsonText
import RecordDecoding.Schema.Document

namespace RecordDecoding

namespace Json

-- What is given for each of the known entries.
def entries? (known : List String) : Json → Option (List (Option Json))
  | object members =>
    let names := members.map (·.1)
    if names.Nodup ∧ ∀ name ∈ names, name ∈ known then
      some (known.map fun name => (members.find? (·.1 == name)).map (·.2))
    else none
  | array items =>
    if items.length ≤ known.length then
      some ((List.range known.length).map fun i => items[i]?)
    else none
  | _ => none

def text? : Json → Option String
  | string s => some s
  | _ => none

def items? : Json → Option (List Json)
  | array items => some items
  | _ => none

-- A flag is false unless it is given.
def flag? : Option Json → Option Bool
  | none => some false
  | some (bool b) => some b
  | some _ => none

-- An entry for which null stands for its absence.
def nullable? {α : Type} (f : Json → Option α) : Option Json → Option (Option α)
  | none | some null => some none
  | some j => (f j).map some

-- Digits alone, of a number that fits 64 bits.
def ordinal? : Json → Option Nat
  | number literal => do
    if !Numeral.isDigits literal.toList then failure
    let n := Numeral.ofDigits literal.toList
    if n < Nat.pow 2 64 then some n else none
  | _ => none

end Json

def FieldDoc.ofJson? (j : Json) : Option FieldDoc := do
  let [some name, some type, nullable, optional, ordinal] ←
    j.entries? ["name", "type", "nullable", "optional", "ordinal"] | none
  return {
    name := ← name.text?
    type := ← type.text?
    nullable := ← Json.flag? nullable
    optional := ← Json.flag? optional
    ordinal := ← Json.nullable? Json.ordinal? ordinal
  }

def TypeDoc.ofJson? (j : Json) : Option TypeDoc := do
  let [some name, fields] ← j.entries? ["name", "fields"] | none
  let fields ← match fields with
    | some fields => (← fields.items?).mapM FieldDoc.ofJson?
    | none => some []
  return ⟨← name.text?, fields⟩

namespace Document

def ofJson? (j : Json) : Option Document := do
  let [root, some types] ← j.entries? ["root", "types"] | none
  return ⟨← Json.nullable? Json.text? root, ← (← types.items?).mapM TypeDoc.ofJson?⟩

def parse? (text : String) : Option Document :=
  (Json.parse? (Utf8.encode text)).bind ofJson?

end Document

end RecordDecoding
