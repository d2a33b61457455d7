import RecordDecoding.Text.Bytes

namespace RecordDecoding.Base64

def pad : Char := '='

-- The character for six bits.
def symbol (n : Nat) : Char :=
  if n < 26 then Char.ofNat ('A'.toNat + n)
  else if n < 52 then Char.ofNat ('a'.toNat + (n - 26))
  else if n < 62 then Char.ofNat ('0'.toNat + (n - 52))
  else if n = 62 then '+'
  else '/'

def encodeChars : List UInt8 → List Char
  | [] => []
  | [a] => [symbol (a.toNat / 4), symbol (a.toNat % 4 * 16), pad, pad]
  | [a, b] =>
    [symbol (a.toNat / 4), symbol (a.toNat % 4 * 16 + b.toNat / 16), symbol (b.toNat % 16 * 4), pad]
  | a :: b :: c :: bytes =>
    symbol (a.toNat / 4) :: symbol (a.toNat % 4 * 16 + b.toNat / 16)
      :: symbol (b.toNat % 16 * 4 + c.toNat / 64) :: symbol (c.toNat % 64) :: encodeChars bytes

def encode (bytes : List UInt8) : String :=
  String.ofList (encodeChars bytes)

-- The six bits that a byte is the symbol of.
def sextetOf? (b : UInt8) : Option UInt8 :=
  if ascii 'A' ≤ b ∧ b ≤ ascii 'Z' then some (b - ascii 'A')
  else if ascii 'a' ≤ b ∧ b ≤ ascii 'z' then some (b - ascii 'a' + 26)
  else if ascii '0' ≤ b ∧ b ≤ ascii '9' then some (b - ascii '0' + 52)
  else if b = ascii '+' then some 62
  else if b = ascii '/' then some 63
  else none

-- The bits that were read and belong to no byte yet, as a number, and how many there are.
structure Accumulator where
  acc : UInt32
  bits : UInt32
  deriving DecidableEq, Repr

namespace Accumulator

def empty : Accumulator := ⟨0, 0⟩

-- Takes six bits more. Where there are eight, the first of them are a byte, and only what is behind
-- them stays.
def push (a : Accumulator) (sextet : UInt8) : Option UInt8 × Accumulator :=
  let acc := a.acc <<< 6 ||| sextet.toUInt32
  let bits := a.bits + 6
  if 8 ≤ bits then
    let bits := bits - 8
    (some (acc >>> bits).toUInt8, ⟨acc &&& ((1 <<< bits) - 1), bits⟩)
  else (none, ⟨acc, bits⟩)

-- The bytes of symbols. Bits that are left at the end must be zero.
def unpack? (a : Accumulator) : List UInt8 → Option (List UInt8)
  | [] => if a.acc = 0 then some [] else none
  | b :: symbols => do
    let (byte, a) := a.push (← sextetOf? b)
    return byte.toList ++ (← a.unpack? symbols)

end Accumulator

-- The text without the padding at its end.
def body (cs : List Char) : List Char :=
  (cs.reverse.dropWhile (· = pad)).reverse

-- The bytes that a text stands for. Padding may be missing; if it is there, it fills up the last
-- group, and it is at most two characters.
@[irreducible] def decode? (s : String) : Option (List UInt8) :=
  let symbols := Utf8.encode (String.ofList (body s.toList))
  let padding := (Utf8.encode s).length - symbols.length
  if 2 < padding ∨ symbols.length % 4 = 1 then none
  else if 0 < padding ∧ symbols.length % 4 + padding ≠ 4 then none
  else Accumulator.empty.unpack? symbols

end RecordDecoding.Base64
