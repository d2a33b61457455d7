import RecordDecoding.Number.Binary
import RecordDecoding.Schema.Scalar
import RecordDecoding.Uuid

namespace RecordDecoding

inductive TriState (α : Type) where
  | undefined
  | null
  | value (a : α)
  deriving DecidableEq, Repr

namespace TriState

variable {α β : Type}

def isDefined : TriState α → Bool
  | undefined => false
  | null | value _ => true

def map (f : α → β) : TriState α → TriState β
  | undefined => undefined
  | null => null
  | value a => value (f a)

-- Absence and null are none.
def toOption : TriState α → Option α
  | undefined | null => none
  | value a => some a

end TriState

inductive Slot (α : Type) where
  | value (a : α)
  | optional (state : TriState α)
  deriving DecidableEq, Repr

structure FieldValue (α : Type) where
  name : String
  slot : Slot α
  deriving DecidableEq, Repr

-- The record of a type, with the values of its fields in the order of their ordinals.
structure RecordOf (α : Type) where
  typeName : String
  fields : List (FieldValue α)
  deriving DecidableEq, Repr

inductive Value where
  | null
  | bool (b : Bool)
  | int (width : IntWidth) (n : Int)
  -- An integer of any size, by its shortest decimal numeral.
  | bigInt (numeral : String)
  | f32 (x : Single)
  | f64 (x : Double)
  | string (s : String)
  | binary (bytes : List UInt8)
  | uuid (id : Uuid)
  | list (items : List Value)
  | record (r : RecordOf Value)

abbrev Record := RecordOf Value

namespace Value

-- What a value is, in messages.
def label : Value → String
  | null => "null"
  | bool _ => "bool"
  | int width _ => width.label
  | bigInt _ => "bigint"
  | f32 _ => "f32"
  | f64 _ => "f64"
  | string _ => "string"
  | binary _ => "binary"
  | uuid _ => "uuid"
  | list _ => "list"
  | record _ => "record"

def isNull : Value → Bool
  | null => true
  | _ => false

end Value

-- The value in a slot, unless it is null.
def Slot.value? : Slot Value → Option Value
  | value .null => none
  | value v => some v
  | optional state => state.toOption

namespace RecordOf

def slot? (r : Record) (name : String) : Option (Slot Value) :=
  (r.fields.find? (·.name == name)).map (·.slot)

def value? (r : Record) (name : String) : Option Value :=
  (r.slot? name).bind (·.value?)

def length (r : Record) : Nat :=
  r.fields.length

end RecordOf

end RecordDecoding
