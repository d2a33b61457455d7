import RecordDecoding.Cursor.Basic
import RecordDecoding.Record.Value
import RecordDecoding.Text.Quoted

namespace RecordDecoding

-- Why a scalar could not be read.
inductive ScalarFault where
  -- The token's kind is not accepted.
  | mismatch (expected : KindSet) (actual : TokenKind)
  -- It is accepted, but the value is of no use.
  | invalid (reason : String)
  -- The source of the tokens failed.
  | source (error : CursorError)
  deriving DecidableEq, Repr

namespace ScalarFault

def ofCursorError (e : CursorError) : ScalarFault :=
  if e.isValueFault then invalid e.message else source e

end ScalarFault

namespace ScalarKind

open ScalarFault

-- The numeral of an integer without superfluous zeros, and without a sign if it is zero.
def canonicalNumeral? (text : String) : Option String :=
  let (sign, digits) := match text.toList with
    | '-' :: digits => (['-'], digits)
    | digits => ([], digits)
  if Numeral.isDigits digits then
    match digits.dropWhile (· = '0') with
    | [] => some "0"
    | significant => some (String.ofList (sign ++ significant))
  else none

-- An integer of the width, or the complaint that it does not fit.
def narrow (width : IntWidth) (n : Int) : Except ScalarFault Value :=
  if width.Holds n then .ok (.int width n)
  else .error (.invalid s!"{n} out of range for {width.label}")

-- A float in single precision. A finite value must not become infinite.
def narrowFloat (wide : Double) : Except ScalarFault Value :=
  let x : Single := wide.convert
  if wide.isFinite && x.isInfinite then .error (.invalid s!"{wide.text} out of range for f32")
  else .ok (.f32 x)

def readUuid [UuidFormat] (text : String) : Except ScalarFault Value :=
  match UuidFormat.parse text with
  | .ok id => .ok (.uuid id)
  | .error reason => .error (.invalid s!"{Quoted.text text}: {reason}")

def readBigInt (text : String) : Except ScalarFault Value :=
  match canonicalNumeral? text with
  | some numeral => .ok (.bigInt numeral)
  | none => .error (.invalid s!"{Quoted.text text} is not an integer")

variable {σ α : Type} [Cursor σ] [UuidFormat]

-- What an accessor gives.
def access (f : σ → Except CursorError α) (c : σ) : Except ScalarFault α :=
  (f c).mapError ofCursorError

-- Reads a token whose kind is accepted.
def readAccepted (k : ScalarKind) (c : σ) : Except ScalarFault Value := do
  match k with
  | string => return .string (← access Cursor.text c)
  | bool => return .bool (Cursor.kind c = .boolTrue)
  | int width => narrow width (← access Cursor.int c).toInt
  | bigInt => readBigInt (← access Cursor.numberText c)
  | f32 => narrowFloat (← access Cursor.float c)
  | f64 => return .f64 (← access Cursor.float c)
  | binary => return .binary (← access Cursor.binary c)
  | uuid => readUuid (← access Cursor.text c)

def read (k : ScalarKind) (c : σ) : Except ScalarFault Value :=
  if Cursor.kind c ∈ k.accepts then k.readAccepted c
  else .error (.mismatch k.accepts (Cursor.kind c))

end ScalarKind

end RecordDecoding
