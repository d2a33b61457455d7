import RecordDecoding.Decode.Record

namespace RecordDecoding

open Forward

-- Whether absence and null are told apart when a field is read.
inductive ReadMode where
  | collapsed
  | triState
  deriving DecidableEq, Repr

-- What a value converts into, where it is that of a field of some type, or why it does not. Whoever
-- reads a record may bring conversions into types of his own.
abbrev Conversion (α : Type) := (type field : String) → Value → Except DecodeError α

namespace Conversion

variable {α β : Type}

def mismatch (expected : String) : Conversion α := fun type field v =>
  .error (.conversion type field expected v.label)

def map (g : α → β) (f : Conversion α) : Conversion β := fun type field v =>
  (f type field v).map g

-- Null is none.
def option (f : Conversion α) : Conversion (Option α) := fun type field v =>
  match v with
  | .null => .ok none
  | v => (f type field v).map some

def list (f : Conversion α) : Conversion (List α) := fun type field v =>
  match v with
  | .list items => items.mapM (f type field)
  | v => mismatch "list" type field v

def record (f : Record → Except DecodeError α) : Conversion α := fun type field v =>
  match v with
  | .record r => f r
  | v => mismatch "record" type field v

end Conversion

-- The types for which there is a conversion beforehand, and those put together from them.
inductive ReadType where
  | bool
  | int (width : IntWidth)
  -- An integer of 128 bits.
  | wideInt
  | f32
  | f64
  | string
  | binary
  | uuid
  -- The value as it is.
  | any
  -- A record as it is.
  | record
  -- A record of which the first fields are read in turn.
  | fields (reads : List (ReadMode × ReadType))
  -- Null, or what is read by the inner type.
  | option (inner : ReadType)
  | list (inner : ReadType)

-- What was read.
inductive ReadValue where
  | bool (b : Bool)
  | int (width : IntWidth) (n : Int)
  | wideInt (n : Int)
  | f32 (x : Single)
  | f64 (x : Double)
  | string (s : String)
  | binary (bytes : List UInt8)
  | uuid (id : Uuid)
  | any (v : Value)
  | record (r : Record)
  | fields (slots : List (Slot ReadValue))
  | none
  | some (v : ReadValue)
  | list (items : List ReadValue)

def ReadValue.ofOption : Option ReadValue → ReadValue
  | .none => none
  | .some v => some v

-- What a type is called when a value does not convert into it.
def ReadType.label : ReadType → String
  | bool => "bool"
  | int width => width.label
  | wideInt => "i128"
  | f32 => "f32"
  | f64 => "f64"
  | string => "string"
  | binary => "binary"
  | uuid => "uuid"
  | any => "any"
  | record | fields _ => "record"
  | option inner => inner.label
  | list _ => "list"

-- The fields of a record that are not read yet.
structure RecordReader where
  typeName : String
  fields : List (FieldValue Value)
  -- How many fields were read.
  read : Nat

namespace RecordReader

instance : Readable RecordReader where
  left r := r.fields.length

def ofRecord (r : Record) : RecordReader := ⟨r.typeName, r.fields, 0⟩

def remaining (r : RecordReader) : Nat :=
  r.fields.length

abbrev Read := Forward DecodeError RecordReader

-- The next field. It counts as read even if it is not what its reader wants.
def take : Read (FieldValue Value) where
  run r := match r.fields with
    | field :: fields => .ok field { r with fields, read := r.read + 1 }
    | [] => .error (.conversion r.typeName s!"#{r.read}" "field" "end of record") r
  run_le r := by
    split
    case h_1 h => simp [left, h]
    case h_2 => exact Nat.le_refl _

end RecordReader

namespace Slot

-- The value in a slot, null if there is none.
def collapsed : Slot Value → Value
  | value v => v
  | optional state => state.toOption.getD .null

-- The state of a slot. A slot that holds a value is never undefined.
def triState : Slot Value → TriState Value
  | value .null => .null
  | value v => .value v
  | optional state => state

end Slot

-- Does to the value in a slot, if there is one, what may fail.
def TriState.mapM {α β ε : Type} (f : α → Except ε β) : TriState α → Except ε (TriState β)
  | undefined => .ok undefined
  | null => .ok null
  | value a => (f a).map value

namespace RecordReader

variable {α : Type}

-- The next field, where absence counts as null.
def next (f : Conversion α) : Read α := do
  let type ← view (·.typeName)
  let field ← take
  check fun _ => f type field.name field.slot.collapsed

-- The next field, with absence and null told apart from values.
def nextTriState (f : Conversion α) : Read (TriState α) := do
  let type ← view (·.typeName)
  let field ← take
  check fun _ => field.slot.triState.mapM (f type field.name)

-- The next field, as a slot.
def nextAs (mode : ReadMode) (f : Conversion α) : Read (Slot α) :=
  match mode with
  | .collapsed => .value <$> next f
  | .triState => .optional <$> nextTriState f

end RecordReader

namespace ReadType

-- An integer of at most 128 bits.
def wide? (n : Int) : Option ReadValue :=
  let half : Int := Nat.pow 2 127
  if -half ≤ n ∧ n < half then some (.wideInt n) else none

-- A value as a type that holds neither other values nor fields.
def simple? : ReadType → Value → Option ReadValue
  | bool, .bool b => some (.bool b)
  | int wanted, .int width n => if width.bits ≤ wanted.bits then some (.int wanted n) else none
  | wideInt, .int _ n => some (.wideInt n)
  | wideInt, .bigInt numeral => (Numeral.toInt? numeral).bind wide?
  | f32, .f32 x => some (.f32 x)
  | f64, .f64 x => some (.f64 x)
  | f64, .f32 x => some (.f64 x.convert)
  | string, .string s => some (.string s)
  | string, .bigInt numeral => some (.string numeral)
  | binary, .binary bytes => some (.binary bytes)
  | uuid, .uuid id => some (.uuid id)
  | any, v => some (.any v)
  | record, .record r => some (.record r)
  | _, _ => none

-- A conversion into a type that is not put together from others.
def plain (t : ReadType) : Conversion ReadValue := fun type field v =>
  (simple? t v).elim (Conversion.mismatch t.label type field v) .ok

mutual

def ofValue : ReadType → Conversion ReadValue
  | option inner => inner.ofValue.option.map .ofOption
  | list inner => inner.ofValue.list.map .list
  | fields reads =>
    (Conversion.record fun r => ((ofFields reads).run (.ofRecord r)).result).map .fields
  | t => plain t

-- The first fields of a record, one for each type.
def ofFields : List (ReadMode × ReadType) → RecordReader.Read (List (Slot ReadValue))
  | [] => return []
  | (mode, t) :: reads => do
    return (← RecordReader.nextAs mode t.ofValue) :: (← ofFields reads)

end

-- A whole record, by the types of its fields.
def ofRecord (reads : List (ReadMode × ReadType)) (r : Record) :
    Except DecodeError (List (Slot ReadValue)) :=
  ((ofFields reads).run (.ofRecord r)).result

end ReadType

-- A type that records are converted into, with the schema of these records.
structure RecordConversion (α : Type) where
  set : SchemaSet
  id : SchemaId
  convert : Record → Except DecodeError α

-- Decodes the current value as a record and converts it.
def decodeAs {σ α : Type} [Cursor σ] [UuidFormat] (target : RecordConversion α)
    (opt : DecodeOptions) : Decoding σ (Option α) := do
  match ← decodeRecord target.set target.id opt with
  | some r => return some (← check fun _ => target.convert r)
  | none => return none

end RecordDecoding
