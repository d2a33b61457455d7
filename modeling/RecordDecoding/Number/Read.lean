import RecordDecoding.Number.Binary

namespace RecordDecoding

namespace Numeral

-- The number that decimal digits stand for, the most significant first.
def ofDigits (cs : List Char) : Nat :=
  cs.foldl (fun n c => n * 10 + (c.toNat - '0'.toNat)) 0

def splitSign : List Char → Bool × List Char
  | '-' :: cs => (true, cs)
  | '+' :: cs => (false, cs)
  | cs => (false, cs)

def isDigits (cs : List Char) : Bool :=
  !cs.isEmpty && cs.all (·.isDigit)

-- Digits after at most one sign.
def toInt? (text : String) : Option Int :=
  let (negative, digits) := splitSign text.toList
  if isDigits digits then
    some (if negative then -(ofDigits digits : Int) else ofDigits digits)
  else none

-- The part of a numeral after its digits and fraction: nothing, or `e` and digits with a sign.
def exponent? : List Char → Option Int
  | [] => some 0
  | c :: cs =>
    if c = 'e' ∨ c = 'E' then
      let (negative, digits) := splitSign cs
      if isDigits digits then
        some (if negative then -(ofDigits digits : Int) else ofDigits digits)
      else none
    else none

-- A numeral without its sign, as digits and a power of ten: digits with at most one point among,
-- before or after them, then perhaps an exponent.
def toDecimal? (cs : List Char) : Option (Nat × Int) := do
  let whole := cs.takeWhile (·.isDigit)
  let rest := cs.dropWhile (·.isDigit)
  let (fraction, rest) : List Char × List Char := match rest with
    | '.' :: cs => (cs.takeWhile (·.isDigit), cs.dropWhile (·.isDigit))
    | cs => ([], cs)
  if whole.isEmpty && fraction.isEmpty then failure
  let exponent ← exponent? rest
  return (ofDigits (whole ++ fraction), exponent - fraction.length)

end Numeral

namespace Binary

variable {f : Format}

-- The value of a numeral, or of a name of infinity or of no number in any case.
def read? (text : String) : Option (Binary f) :=
  let (negative, cs) := Numeral.splitSign text.toList
  let name := String.ofList (cs.map (·.toLower))
  if name = "inf" ∨ name = "infinity" then some (infinite negative)
  else if name = "nan" then some nan
  else (Numeral.toDecimal? cs).map fun (digits, exponent) => ofDecimal negative digits exponent

end Binary

-- A whole number that fits 64 bits.
def readInt64? (text : String) : Option Int64 := do
  let n ← Numeral.toInt? text
  if Int64.minValue.toInt ≤ n ∧ n ≤ Int64.maxValue.toInt then some (Int64.ofInt n) else none

end RecordDecoding
