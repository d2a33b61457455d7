import RecordDecoding.Cursor.Basic
import RecordDecoding.Decode.Error

namespace RecordDecoding

open Forward

structure DecodeOptions where
  -- How deep objects and lists may nest.
  maxDepth : Nat
  maxListLength : Nat
  -- Try the fields in the order of their ordinals before looking names up.
  fastPath : Bool
  -- Fail on members that the type does not declare instead of skipping them.
  denyUnknownFields : Bool
  deriving DecidableEq, Repr

namespace DecodeOptions

def default : DecodeOptions where
  maxDepth := 16
  maxListLength := 4096
  fastPath := true
  denyUnknownFields := false

def strict : DecodeOptions :=
  { default with denyUnknownFields := true }

end DecodeOptions

structure DecodeStats where
  -- Objects entered.
  objects : Nat := 0
  -- Members matched in the order of ordinals.
  inOrder : Nat := 0
  -- Those among them that were recognised by the name's origin.
  identityHits : Nat := 0
  -- Members matched by looking up the name.
  dispatched : Nat := 0
  -- Unknown members skipped.
  skipped : Nat := 0
  deriving DecidableEq, Repr

-- The least limits under which what was opened so far could be opened.
structure Extent where
  depth : Nat := 0
  listLength : Nat := 0
  deriving DecidableEq, Repr

-- What happens while a record is decoded.
inductive Event where
  | descending (type field target : String)
  | skipping (type name : String)
  | stoppedInOrder (type found expected : String)
  | fieldsMissing (type : String) (count : Nat)
  deriving DecidableEq, Repr

namespace Event

inductive Level where
  | trace
  | debug
  deriving DecidableEq, Repr

def level : Event → Level
  | descending .. | skipping .. | stoppedInOrder .. => .trace
  | fieldsMissing .. => .debug

def text : Event → String
  | descending type field target => s!"{type}.{field}: descending into {target}"
  | skipping type name => s!"{type}: skipping unknown field {Quoted.text name}"
  | stoppedInOrder type found expected =>
    s!"{type}: in-order match stopped at {Quoted.text found}, expected {Quoted.text expected}"
  | fieldsMissing type count => s!"{type}: {count} required field(s) missing"

end Event

structure Session (σ : Type) where
  cursor : σ
  stats : DecodeStats := {}
  extent : Extent := {}
  log : Array Event := #[]
  deriving DecidableEq, Repr

instance {σ : Type} [Readable σ] : Readable (Session σ) where
  left s := left s.cursor

-- A step of decoding.
abbrev Decoding (σ : Type) [Cursor σ] := Forward DecodeError (Session σ)

namespace Decoding

variable {σ α : Type} [Cursor σ]

def onCursor (x : Forward CursorError σ α) : Decoding σ α where
  run s := match x.run s.cursor with
    | .ok a c => .ok a { s with cursor := c }
    | .error e c => .error (.cursor e) { s with cursor := c }
  run_le s := by
    have h := x.run_le s.cursor
    split <;> simp_all [left]

theorem onCursor_reads {x : Forward CursorError σ α} (hx : x.Reads) : (onCursor x).Reads := by
  intro s a s' h
  simp only [onCursor] at h
  split at h
  case h_1 h' =>
    cases h
    exact hx h'
  case h_2 => cases h

def advance : Decoding σ Unit := onCursor Cursor.advance

theorem advance_reads : (advance : Decoding σ Unit).Reads :=
  onCursor_reads Cursor.advance_reads

def kind : Decoding σ TokenKind := view fun s => Cursor.kind s.cursor

def position : Decoding σ (Option Position) := view fun s => Cursor.position s.cursor

def fieldName : Decoding σ MemberName :=
  check fun s => (Cursor.fieldName s.cursor).mapError .cursor

def count (f : DecodeStats → DecodeStats) : Decoding σ Unit :=
  change fun s => { s with stats := f s.stats }

def report (e : Event) : Decoding σ Unit :=
  change fun s => { s with log := s.log.push e }

-- An object or a list is opened at this depth, the root counting as one.
def reachDepth (depth : Nat) : Decoding σ Unit :=
  change fun s => { s with extent := { s.extent with depth := max s.extent.depth depth } }

def reachLength (length : Nat) : Decoding σ Unit :=
  change fun s =>
    { s with extent := { s.extent with listLength := max s.extent.listLength length } }

end Decoding

end RecordDecoding
