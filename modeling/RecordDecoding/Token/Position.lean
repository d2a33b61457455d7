namespace RecordDecoding

structure Position where
  offset : Nat
  line : Nat
  column : Nat
  deriving DecidableEq, Repr

namespace Position

def newline : UInt8 := 0x0A

-- Lines and columns are reported in 32 bits; larger ones stop at the greatest.
def cap : Nat := Nat.pow 2 32 - 1

-- The position of the byte at `offset`: the line is one more than the line breaks before it, and
-- the column counts from the byte after the last of these.
def of (source : List UInt8) (offset : Nat) : Position :=
  let before := source.take offset
  let line := before.count newline + 1
  let column := (before.reverse.takeWhile (· != newline)).length + 1
  { offset, line := min line cap, column := min column cap }

def text (p : Position) : String :=
  s!"line {p.line}, column {p.column} (offset {p.offset})"

-- The clause that ends a message about some place, if the place is known.
def clause : Option Position → String
  | some p => " at " ++ p.text
  | none => ""

end Position

end RecordDecoding
