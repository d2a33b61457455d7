import RecordDecoding.Cursor.Error
import RecordDecoding.Forward
import RecordDecoding.Token.Basic
import RecordDecoding.Token.Position

namespace RecordDecoding

open Forward

-- A cursor always sits on one token, and an accessor suits some kinds of tokens only. Whoever takes
-- a value leaves the cursor on the last token of it: the scalar, or the end of the container.
class Cursor (σ : Type) extends Readable σ where
  kind : σ → TokenKind
  advance : Forward CursorError σ Unit
  -- A cursor that moves on has less to read than before.
  advance_reads : advance.Reads
  fieldName : σ → Except CursorError MemberName
  text : σ → Except CursorError String
  int : σ → Except CursorError Int64
  numberText : σ → Except CursorError String
  float : σ → Except CursorError Double
  binary : σ → Except CursorError (List UInt8)
  position : σ → Option Position

namespace Cursor

variable {σ : Type} [Cursor σ]

-- How many containers are open after one more token, inside a container that is being skipped.
def depthAfter (depth : Nat) (k : TokenKind) : Nat :=
  if k.opensContainer then depth + 1
  else if k.closesContainer then depth - 1
  else depth

-- Consumes the current value by its structure alone. A scalar is left where it is; a container is
-- walked until as many ends as starts have been seen.
def skipValue : Forward CursorError σ Unit := do
  if (← view kind).opensContainer then
    advance
    loop advance advance_reads close 1
where
  close (depth : Nat) : Forward CursorError σ (Nat ⊕ Unit) := do
    match depthAfter depth (← view kind) with
    | 0 => return .inr ()
    | depth + 1 => return .inl (depth + 1)

end Cursor

end RecordDecoding
