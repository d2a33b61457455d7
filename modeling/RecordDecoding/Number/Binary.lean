namespace RecordDecoding

structure Format where
  -- Significant bits, the implied leading one included.
  precision : Nat
  exponentBits : Nat
  deriving DecidableEq, Repr

namespace Format

def single : Format := ⟨24, 8⟩

def double : Format := ⟨53, 11⟩

variable (f : Format)

def width : Nat := f.precision + f.exponentBits

-- The word of zero with a sign.
def signBit : Nat := Nat.pow 2 (f.width - 1)

-- The word after the sign of the least value that needs the implied one.
def implied : Nat := Nat.pow 2 (f.precision - 1)

def infinity : Nat := (Nat.pow 2 f.exponentBits - 1) * f.implied

def quietNan : Nat := f.infinity + f.implied / 2

-- The weight of the last place of the least values, as a power of two.
def leastPlace : Int := 3 - (Nat.pow 2 (f.exponentBits - 1) : Nat) - (f.precision : Int)

end Format

-- A word of sign, exponent and fraction. Arithmetic is on the exact numbers that words stand for,
-- and there is one place where it rounds.
structure Binary (f : Format) where
  bits : BitVec f.width
  deriving DecidableEq, Repr

abbrev Single := Binary .single

abbrev Double := Binary .double

-- The ratio times a power of two, as a ratio.
def scaleRatio (num den : Nat) (power : Int) : Nat × Nat :=
  (num * Nat.pow 2 power.toNat, den * Nat.pow 2 (-power).toNat)

-- The nearest whole number, a half to the even one.
def roundHalfEven (num den : Nat) : Nat :=
  let whole := num / den
  let rest := num % den
  if den < 2 * rest ∨ (den = 2 * rest ∧ whole % 2 = 1) then whole + 1 else whole

-- The power of two at or below a ratio, as long as neither part is zero.
def ratioLog2 (num den : Nat) : Int :=
  let guess : Int := (num.log2 : Int) - (den.log2 : Int)
  let (a, b) := scaleRatio num den (-guess)
  if b ≤ a then guess else guess - 1

namespace Binary

variable {f g : Format}

def ofMagnitude (negative : Bool) (magnitude : Nat) : Binary f where
  bits := BitVec.ofNat f.width ((if negative then f.signBit else 0) + magnitude)

def isNegative (x : Binary f) : Bool :=
  f.signBit ≤ x.bits.toNat

-- The word without its sign.
def magnitude (x : Binary f) : Nat :=
  x.bits.toNat % f.signBit

def isNan (x : Binary f) : Bool :=
  f.infinity < x.magnitude

def isInfinite (x : Binary f) : Bool :=
  x.magnitude = f.infinity

def isFinite (x : Binary f) : Bool :=
  x.magnitude < f.infinity

-- A finite value is `significand * 2 ^ place`, up to its sign.
def significand (x : Binary f) : Nat :=
  let fraction := x.magnitude % f.implied
  if x.magnitude < f.implied then fraction else f.implied + fraction

def place (x : Binary f) : Int :=
  f.leastPlace + (x.magnitude / f.implied - 1 : Nat)

-- Whether the value below is nearer than the value above.
def isNarrowBelow (x : Binary f) : Bool :=
  x.magnitude % f.implied = 0 ∧ f.implied < x.magnitude

def zero (negative : Bool) : Binary f := ofMagnitude negative 0

def infinite (negative : Bool) : Binary f := ofMagnitude negative f.infinity

def nan : Binary f := ofMagnitude false f.quietNan

-- The nearest value to `num / den`, a half to the even one. The last place is chosen so that the
-- significand has the format's precision, or is the least one; a significand that rounds up to
-- one bit more carries into the exponent, since words of one sign are ordered as their values.
def ofRatio (negative : Bool) (num den : Nat) : Binary f :=
  if num = 0 then zero negative else
    let place := max f.leastPlace (ratioLog2 num den - (f.precision - 1 : Nat))
    let (a, b) := scaleRatio num den (-place)
    let word := (place - f.leastPlace).toNat * f.implied + roundHalfEven a b
    ofMagnitude negative (min word f.infinity)

-- The nearest value to `digits * 10 ^ exponent`. A decimal whose leading digit stands further
-- from the point than `2 ^ exponentBits` places is out of the format's range, above or below it.
def ofDecimal (negative : Bool) (digits : Nat) (exponent : Int) : Binary f :=
  if digits = 0 then zero negative else
    let point : Int := (Nat.toDigits 10 digits).length + exponent
    let span : Int := Nat.pow 2 f.exponentBits
    if span < point then infinite negative
    else if point < -span then zero negative
    else ofRatio negative (digits * Nat.pow 10 exponent.toNat) (Nat.pow 10 (-exponent).toNat)

def ofInt (n : Int) : Binary f :=
  ofRatio (n < 0) n.natAbs 1

-- The same value in another format, rounded where that has less precision.
def convert (x : Binary f) : Binary g :=
  if x.isNan then nan
  else if x.isInfinite then infinite x.isNegative
  else
    let (num, den) := scaleRatio x.significand 1 x.place
    ofRatio x.isNegative num den

end Binary

end RecordDecoding
