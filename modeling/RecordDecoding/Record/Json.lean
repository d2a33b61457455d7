import RecordDecoding.Base64
import RecordDecoding.Json.Basic
import RecordDecoding.Number.Layout
import RecordDecoding.Record.Value

namespace RecordDecoding

-- A float, or null if it is not finite. Single precision is widened first.
def Json.ofFloat {f : Format} (x : Binary f) : Json :=
  if x.isFinite then number (Layout.json.finite (x.convert : Double)) else null

def sortByName (members : List (String × Json)) : List (String × Json) :=
  members.mergeSort fun a b => a.1 ≤ b.1

variable [UuidFormat]

mutual

def Value.toJson : Value → Json
  | .null => .null
  | .bool b => .bool b
  | .int _ n => .ofInt n
  | .bigInt numeral => .string numeral
  | .f32 x => .ofFloat x
  | .f64 x => .ofFloat x
  | .string s => .string s
  | .binary bytes => .string (Base64.encode bytes)
  | .uuid id => .string (UuidFormat.text id)
  | .list items => .array (Value.listToJson items)
  | .record ⟨_, fields⟩ => .object (sortByName (Value.membersOf fields))

def Value.listToJson : List Value → List Json
  | [] => []
  | item :: items => item.toJson :: Value.listToJson items

-- The members for the fields that are defined.
def Value.membersOf : List (FieldValue Value) → List (String × Json)
  | [] => []
  | ⟨name, slot⟩ :: fields => Value.memberOf name slot ++ Value.membersOf fields

def Value.memberOf (name : String) : Slot Value → List (String × Json)
  | .value v => [(name, v.toJson)]
  | .optional .undefined => []
  | .optional .null => [(name, .null)]
  | .optional (.value v) => [(name, v.toJson)]

end

def RecordOf.toJson (r : Record) : Json :=
  (Value.record r).toJson

end RecordDecoding
