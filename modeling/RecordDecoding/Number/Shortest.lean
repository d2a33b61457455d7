import RecordDecoding.Number.Binary

namespace RecordDecoding

-- Of two equally near decimals.
inductive Tie where
  | toEven
  | up
  deriving DecidableEq, Repr

-- Stands for `digits * 10 ^ exponent`.
structure Decimal where
  digits : Nat
  exponent : Int
  deriving DecidableEq, Repr

namespace Decimal

-- The same number without trailing zeros.
def strip (d : Decimal) : Decimal :=
  if d.digits = 0 ∨ d.digits % 10 ≠ 0 then d
  else strip ⟨d.digits / 10, d.exponent + 1⟩
termination_by d.digits
decreasing_by omega

-- Whether `num / den * 10 ^ power` is below, at or above `num' / den'`.
def compareScaled (num : Nat) (power : Int) (num' den' : Nat) : Ordering :=
  compare (num * Nat.pow 10 power.toNat * den') (num' * Nat.pow 10 (-power).toNat)

-- How many digits stand before the point of `num / den`; negative if zeros follow the point.
def leading (num den : Nat) : Int :=
  if den ≤ num then (Nat.toDigits 10 (num / den)).length
  else 1 - (Nat.toDigits 10 ((den + num - 1) / num - 1)).length

end Decimal

namespace Binary

variable {f : Format}

-- A number of quarters of a value's last place, as a ratio.
def quarters (x : Binary f) (n : Nat) : Nat × Nat :=
  scaleRatio n 4 x.place

-- The ends of the interval that rounds to a value; they belong to it if its significand is even.
def lowerEnd (x : Binary f) : Nat × Nat :=
  x.quarters (4 * x.significand - if x.isNarrowBelow then 1 else 2)

def upperEnd (x : Binary f) : Nat × Nat :=
  x.quarters (4 * x.significand + 2)

def readsBack (x : Binary f) (d : Decimal) : Bool :=
  let low := Decimal.compareScaled d.digits d.exponent x.lowerEnd.1 x.lowerEnd.2
  let high := Decimal.compareScaled d.digits d.exponent x.upperEnd.1 x.upperEnd.2
  if x.significand % 2 = 0 then low.isGE && high.isLE else low == .gt && high == .lt

-- The decimal that reads back, of the two next to the value on the grid of `10 ^ exponent`; if both
-- do, the nearer one.
def onGrid? (x : Binary f) (tie : Tie) (exponent : Int) : Option Decimal :=
  let (num, den) := x.quarters (4 * x.significand)
  let below := num * Nat.pow 10 (-exponent).toNat / (den * Nat.pow 10 exponent.toNat)
  match x.readsBack ⟨below, exponent⟩, x.readsBack ⟨below + 1, exponent⟩ with
  | false, false => none
  | true, false => some ⟨below, exponent⟩
  | false, true => some ⟨below + 1, exponent⟩
  | true, true =>
    match Decimal.compareScaled (2 * below + 1) exponent (2 * num) den with
    | .lt => some ⟨below + 1, exponent⟩
    | .gt => some ⟨below, exponent⟩
    | .eq => if tie = .toEven ∧ below % 2 = 0 then some ⟨below, exponent⟩
      else some ⟨below + 1, exponent⟩

-- All digits of a finite value.
def exactDecimal (x : Binary f) : Decimal :=
  ⟨x.significand * Nat.pow 2 x.place.toNat * Nat.pow 5 (-x.place).toNat, min x.place 0⟩

-- The shortest decimal of a finite value other than zero: grids are tried from one digit on, and
-- none finer than the precision in bits is needed.
def shortest (x : Binary f) (tie : Tie) : Decimal :=
  let (num, den) := x.quarters (4 * x.significand)
  let point := Decimal.leading num den
  let grids := (List.range f.precision).map fun n => point - (n + 1 : Nat)
  ((grids.findSome? (x.onGrid? tie)).getD x.exactDecimal).strip

end Binary

end RecordDecoding
