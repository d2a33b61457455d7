import RecordDecoding.Number.Shortest

namespace RecordDecoding

structure Layout where
  -- The exponents of the leading digit for which no exponent is written; `none` if it never is.
  positional : Option (Int × Int)
  -- What follows a whole number.
  whole : String
  tie : Tie
  deriving DecidableEq, Repr

namespace Layout

-- Numbers in messages and trees: all digits in place, and whole numbers without a point.
def plain : Layout := ⟨none, "", .up⟩

-- Numbers in JSON texts: an exponent from `1e+16` on and below `0.00001`.
def json : Layout := ⟨some (-5, 15), ".0", .toEven⟩

variable (l : Layout)

def isPositional (leading : Int) : Bool :=
  match l.positional with
  | none => true
  | some (least, most) => least ≤ leading ∧ leading ≤ most

def zeros (n : Nat) : List Char := List.replicate n '0'

-- Digits with `point` of them before the point.
def withPoint (digits : List Char) (point : Int) : List Char :=
  if point ≤ 0 then '0' :: '.' :: zeros (-point).toNat ++ digits
  else if digits.length ≤ point then digits ++ zeros (point.toNat - digits.length) ++ l.whole.toList
  else digits.take point.toNat ++ '.' :: digits.drop point.toNat

def withExponent (digits : List Char) (leading : Int) : List Char :=
  let fraction := if digits.length ≤ 1 then [] else '.' :: digits.drop 1
  let sign := if leading < 0 then '-' else '+'
  digits.take 1 ++ fraction ++ 'e' :: sign :: Nat.toDigits 10 leading.natAbs

def decimal (d : Decimal) : List Char :=
  let digits := Nat.toDigits 10 d.digits
  let point := digits.length + d.exponent
  if l.isPositional (point - 1) then l.withPoint digits point else withExponent digits (point - 1)

-- A finite value.
def finite {f : Format} (x : Binary f) : String :=
  let number := if x.significand = 0 then '0' :: l.whole.toList else l.decimal (x.shortest l.tie)
  String.ofList (if x.isNegative then '-' :: number else number)

end Layout

-- Any value, as messages and trees word it.
def Binary.text {f : Format} (x : Binary f) : String :=
  if x.isNan then "NaN"
  else if x.isInfinite then (if x.isNegative then "-inf" else "inf")
  else Layout.plain.finite x

end RecordDecoding
