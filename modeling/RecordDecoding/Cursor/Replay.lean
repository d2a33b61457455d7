import RecordDecoding.Base64
import RecordDecoding.Cursor.Basic

namespace RecordDecoding

open Forward

-- Tokens as they were given, well formed or not.
structure Replay where
  current : Token
  ahead : List Token
  index : Nat
  -- How many steps succeeded.
  advances : Nat
  -- How many of them succeed at most.
  cancelAfter : Option Nat
  deriving DecidableEq, Repr

namespace Replay

instance : Readable Replay where
  left r := r.ahead.length

def ofTokens (tokens : List Token) (cancelAfter : Option Nat) : Except CursorError Replay :=
  match tokens with
  | [] => .error .exhausted
  | token :: ahead => .ok { current := token, ahead, index := 0, advances := 0, cancelAfter }

def isCancelled (r : Replay) : Bool :=
  r.cancelAfter.any (· ≤ r.advances)

-- Whether this is the last token.
def isAtEnd (r : Replay) : Bool :=
  r.ahead.isEmpty

-- The replay after a step to the next token.
def onto (r : Replay) (token : Token) (ahead : List Token) : Replay :=
  { r with current := token, ahead, index := r.index + 1, advances := r.advances + 1 }

def advance : Forward CursorError Replay Unit where
  run r :=
    if r.isCancelled then .error .cancelled r
    else match r.ahead with
      | [] => .error .exhausted r
      | token :: ahead => .ok () (r.onto token ahead)
  run_le r := by
    split
    · exact Nat.le_refl _
    · split
      case h_1 => exact Nat.le_refl _
      case h_2 h => simp [left, onto, h]

theorem advance_reads : advance.Reads := by
  intro r _ r' h
  simp only [advance] at h
  split at h
  · cases h
  · split at h
    case h_1 => cases h
    case h_2 h' =>
      cases h
      simp [left, onto, h']

def wrong {α : Type} (r : Replay) (expected : TokenKind) : Except CursorError α :=
  .error (.wrongToken expected r.current.kind)

def fieldName (r : Replay) : Except CursorError MemberName :=
  match r.current with
  | .fieldName name => .ok name
  | _ => r.wrong .fieldName

def text (r : Replay) : Except CursorError String :=
  match r.current with
  | .string text => .ok text
  | _ => r.wrong .string

def int (r : Replay) : Except CursorError Int64 :=
  match r.current with
  | .int n => .ok n
  | .bigInt text => (readInt64? text).elim (.error (.numberOutOfRange r.index)) .ok
  | _ => r.wrong .integer

def numberText (r : Replay) : Except CursorError String :=
  r.current.numberText?.elim (r.wrong .integer) .ok

def float (r : Replay) : Except CursorError Double :=
  match r.current with
  | .float x => .ok x
  | .int n => .ok (.ofInt n.toInt)
  | .bigInt text => (Binary.read? text).elim (.error (.invalidNumber r.index)) .ok
  | _ => r.wrong .float

def binary (r : Replay) : Except CursorError (List UInt8) := do
  (Base64.decode? (← r.text)).elim (.error (.invalidBase64 r.index)) .ok

instance : Cursor Replay where
  kind r := r.current.kind
  advance := advance
  advance_reads := advance_reads
  fieldName := fieldName
  text := text
  int := int
  numberText := numberText
  float := float
  binary := binary
  position _ := none

end Replay

end RecordDecoding
