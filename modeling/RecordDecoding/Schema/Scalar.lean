import RecordDecoding.Token.Kind

namespace RecordDecoding

inductive IntWidth where
  | w8
  | w16
  | w32
  | w64
  deriving DecidableEq, Repr

namespace IntWidth

def bits : IntWidth → Nat
  | w8 => 8
  | w16 => 16
  | w32 => 32
  | w64 => 64

def label (w : IntWidth) : String :=
  s!"i{w.bits}"

-- How many numbers of this width are negative, and how many are not.
def half (w : IntWidth) : Int :=
  Nat.pow 2 (w.bits - 1)

-- Whether a number has a two's complement form of this width.
def Holds (w : IntWidth) (n : Int) : Prop :=
  -w.half ≤ n ∧ n < w.half

instance (w : IntWidth) (n : Int) : Decidable (w.Holds n) :=
  inferInstanceAs (Decidable (_ ∧ _))

end IntWidth

inductive ScalarKind where
  | string
  | bool
  | int (width : IntWidth)
  | bigInt
  | f32
  | f64
  | binary
  | uuid
  deriving DecidableEq, Repr

namespace ScalarKind

def all : List ScalarKind :=
  [string, bool, int .w8, int .w16, int .w32, int .w64, bigInt, f32, f64, binary, uuid]

-- The kind's name in schema documents and messages.
def label : ScalarKind → String
  | string => "string"
  | bool => "bool"
  | int w => w.label
  | bigInt => "bigint"
  | f32 => "f32"
  | f64 => "f64"
  | binary => "binary"
  | uuid => "uuid"

def ofLabel? (s : String) : Option ScalarKind :=
  all.find? (·.label == s)

-- The tokens that carry such a value. Null is not among them.
def accepts : ScalarKind → KindSet
  | string | binary | uuid => .onlyString
  | bool => .onlyBool
  | int _ | bigInt => .onlyInteger
  | f32 | f64 => .anyNumber

theorem mem_all (k : ScalarKind) : k ∈ all := by
  cases k with
  | int w => cases w <;> decide
  | _ => decide

end ScalarKind

end RecordDecoding
