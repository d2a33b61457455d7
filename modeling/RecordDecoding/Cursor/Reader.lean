import RecordDecoding.Cursor.Error
import RecordDecoding.Forward
import RecordDecoding.Text.Bytes

namespace RecordDecoding

-- What is left of a text, and the offset of its first byte.
structure Reader where
  offset : Nat
  ahead : List UInt8
  deriving DecidableEq, Repr

instance : Readable Reader where
  left r := r.ahead.length

namespace Reader

-- The offset behind the last byte.
def stop (r : Reader) : Nat :=
  r.offset + r.ahead.length

def drop (r : Reader) (n : Nat) : Reader :=
  ⟨r.offset + n, r.ahead.drop n⟩

def dropWhile (r : Reader) (p : UInt8 → Bool) : Reader :=
  ⟨r.offset + (r.ahead.takeWhile p).length, r.ahead.dropWhile p⟩

-- The complaint about the next byte.
def unexpected (r : Reader) (wanted : Wanted) : CursorError :=
  match r.ahead with
  | b :: _ => .unexpectedByte b r.offset wanted
  | [] => .unexpectedEof r.offset

theorem left_drop_le (r : Reader) (n : Nat) : left (r.drop n) ≤ left r := by
  simp [left, drop]

theorem left_dropWhile_le (r : Reader) (p : UInt8 → Bool) : left (r.dropWhile p) ≤ left r :=
  (List.dropWhile_suffix p).length_le

end Reader

abbrev Scan := Forward CursorError Reader

namespace Scan

open Forward

def peek : Scan (Option UInt8) := view (·.ahead.head?)

def offset : Scan Nat := view (·.offset)

def skip (n : Nat) : Scan Unit := change (·.drop n) (Reader.left_drop_le · n)

def skipWhile (p : UInt8 → Bool) : Scan Unit :=
  change (·.dropWhile p) (Reader.left_dropWhile_le · p)

-- The bytes up to the first one that does not satisfy `p`.
def takeWhile (p : UInt8 → Bool) : Scan (List UInt8) := do
  let bytes ← view (·.ahead.takeWhile p)
  skipWhile p
  return bytes

def unexpected {α : Type} (wanted : Wanted) : Scan α := do
  fail ((← look).unexpected wanted)

-- The next byte, whichever it is.
def next : Scan UInt8 where
  run r := match r.ahead with
    | b :: bytes => .ok b ⟨r.offset + 1, bytes⟩
    | [] => .error (.unexpectedEof r.offset) r
  run_le r := by
    split
    case h_1 h => simp [left, h]
    case h_2 => exact Nat.le_refl _

theorem next_reads : next.Reads := by
  intro r b r' h
  simp only [next] at h
  split at h
  case h_1 h' =>
    cases h
    simp [left, h']
  case h_2 => cases h

theorem unexpected_reads {α : Type} (wanted : Wanted) : (unexpected (α := α) wanted).Reads :=
  Reads.bind_right _ fun _ => Reads.fail _

def skipBlank : Scan Unit := skipWhile Ascii.isBlank

-- Digits; the first of them is known to be there.
def skipDigits : Scan Unit := do
  let _ ← next
  skipWhile Ascii.isDigit

def skipDigits? (offset : Nat) : Scan Unit := do
  match ← peek with
  | some b => if Ascii.isDigit b then skipDigits else fail (.invalidNumber offset)
  | none => fail (.invalidNumber offset)

-- The part before the point: a zero, or digits that do not start with one.
def wholePart (offset : Nat) : Scan Unit := do
  match ← peek with
  | some b =>
    if b = ascii '0' then let _ ← next
    else if Ascii.isDigit b then skipDigits
    else fail (.invalidNumber offset)
  | none => fail (.invalidNumber offset)

-- A point and digits, if a point is next; the answer says whether it was.
def fraction (offset : Nat) : Scan Bool := do
  if (← peek) = some (ascii '.') then
    skip 1
    skipDigits? offset
    return true
  else return false

def exponent (offset : Nat) : Scan Bool := do
  let b ← peek
  if b = some (ascii 'e') ∨ b = some (ascii 'E') then
    skip 1
    let sign ← peek
    if sign = some (ascii '+') ∨ sign = some (ascii '-') then skip 1
    skipDigits? offset
    return true
  else return false

-- A number. It is an integer if it has neither a fraction nor an exponent.
def number : Scan TokenKind := do
  let start ← offset
  if (← peek) = some (ascii '-') then skip 1
  wholePart start
  let hasFraction ← fraction start
  let hasExponent ← exponent start
  return if hasFraction || hasExponent then .float else .integer

theorem wholePart_reads (offset : Nat) : (wholePart offset).Reads := by
  refine Reads.bind_right _ fun b => ?_
  split
  · split
    · exact Reads.bind_left next_reads _
    · split
      · exact Reads.bind_left next_reads _
      · exact Reads.fail _
  · exact Reads.fail _

theorem number_reads : number.Reads := by
  refine Reads.bind_right _ fun start => Reads.bind_right _ fun b => ?_
  split
  · exact Reads.bind_right _ fun _ => Reads.bind_left (wholePart_reads _) _
  · exact Reads.bind_left (wholePart_reads _) _

-- A given word, of which at least the first byte is there.
def literal (word : List UInt8) : Scan Unit := do
  let r ← look
  if word.isPrefixOf r.ahead then
    let _ ← next
    skip (word.length - 1)
  else if r.ahead.isPrefixOf word then fail (.unexpectedEof r.stop)
  else unexpected .literal

theorem literal_reads (word : List UInt8) : (literal word).Reads := by
  refine Reads.bind_right _ fun r => ?_
  split
  · exact Reads.bind_left next_reads _
  · split
    · exact Reads.fail _
    · exact unexpected_reads _

-- The value of the four bytes of a unit: hexadecimal digits, the first of which may be a plus sign.
def unitValue? (a b c d : UInt8) : Option Nat :=
  let digits := if a = ascii '+' then [b, c, d] else [a, b, c, d]
  Hex.read? (digits.map fun b => Char.ofNat b.toNat)

-- Four bytes for a 16-bit unit; `start` is the offset of the escape.
def unit (start : Nat) : Scan Nat := do
  let r ← look
  match r.ahead with
  | a :: b :: c :: d :: _ =>
    match unitValue? a b c d with
    | some n =>
      skip 4
      return n
    | none => fail (.invalidEscape start)
  | _ => fail (.unexpectedEof r.stop)

def isHighSurrogate (n : Nat) : Bool := 0xD800 ≤ n && n ≤ 0xDBFF

def isLowSurrogate (n : Nat) : Bool := 0xDC00 ≤ n && n ≤ 0xDFFF

-- The character of one unit, or of a high and a low surrogate of which each has an escape of its
-- own.
def unicode (start : Nat) : Scan Char := do
  let high ← unit start
  if isHighSurrogate high then
    let r ← look
    if [ascii '\\', ascii 'u'].isPrefixOf r.ahead then
      skip 2
      let low ← unit start
      if isLowSurrogate low then
        return Char.ofNat (0x10000 + (high - 0xD800) * 0x400 + (low - 0xDC00))
      else fail (.invalidEscape start)
    else fail (.invalidEscape start)
  else if isLowSurrogate high then fail (.invalidEscape start)
  else return Char.ofNat high

-- The characters that are escaped by one letter.
def shortEscape? (b : UInt8) : Option Char :=
  if b = ascii '"' then some '"'
  else if b = ascii '\\' then some '\\'
  else if b = ascii '/' then some '/'
  else if b = ascii 'b' then some '\x08'
  else if b = ascii 'f' then some '\x0c'
  else if b = ascii 'n' then some '\n'
  else if b = ascii 'r' then some '\x0d'
  else if b = ascii 't' then some '\t'
  else none

-- An escape, from its backslash on.
def escape : Scan Char := do
  let start ← offset
  let _ ← next
  let b ← next
  match shortEscape? b with
  | some c => return c
  | none => if b = ascii 'u' then unicode start else fail (.invalidEscape start)

theorem escape_reads : escape.Reads :=
  Reads.bind_right _ fun _ => Reads.bind_left next_reads _

-- The bytes that stand for themselves in a string.
def isPlain (b : UInt8) : Bool :=
  b ≠ ascii '"' && b ≠ ascii '\\' && 0x20 ≤ b

end Scan

end RecordDecoding
