import RecordDecoding.Text.Hex
import RecordDecoding.Uuid

-- Stands in for the library that reads and writes identifiers.

namespace RecordDecoding

namespace Uuid

-- Why a text is no identifier.
inductive Malformed where
  | length (found : Nat)
  | character (found : Char) (offset : Nat)
  | groupCount (found : Nat)
  | groupLength (group expected found : Nat)
  deriving DecidableEq, Repr

def Malformed.message : Malformed → String
  | length found => s!"invalid length: found {found}"
  | character found offset => "invalid character: found `" ++ found.toString ++ s!"` at {offset}"
  | groupCount found => s!"invalid group count: expected 5, found {found}"
  | groupLength group expected found =>
    s!"invalid group length in group {group}: expected {expected}, found {found}"

def hyphen : Char := '-'

-- Where the hyphens between the groups stand.
def hyphenPlaces : List Nat := [8, 13, 18, 23]

def text (id : Uuid) : String :=
  let digits := Hex.fixed 32 id.bits.toNat
  let groups := [digits.take 8, (digits.drop 8).take 4, (digits.drop 12).take 4,
    (digits.drop 16).take 4, digits.drop 20]
  String.ofList (List.intercalate [hyphen] groups)

-- Thirty-two digits.
def ofDigits? (cs : List Char) : Option Uuid :=
  if cs.length = 32 then (Hex.read? cs).map fun n => ⟨BitVec.ofNat 128 n⟩ else none

-- Five groups of digits.
def ofGroups? (cs : List Char) : Option Uuid :=
  if cs.length = 36 ∧ hyphenPlaces.all (cs[·]? == some hyphen) then
    ofDigits? (cs.filter (· != hyphen))
  else none

def byteSize (cs : List Char) : Nat :=
  (String.ofList cs).utf8ByteSize

def namePrefix : List Char := "urn:uuid:".toList

-- What braces enclose.
def inBraces? : List Char → Option (List Char)
  | '\x7b' :: cs => if cs.getLast? = some '\x7d' then some cs.dropLast else none
  | _ => none

-- What follows the prefix of a name, which may be written in either case.
def named? (cs : List Char) : Option (List Char) :=
  if (cs.take 9).map (·.toLower) = namePrefix then some (cs.drop 9) else none

-- The groups inside a text as long as groups in braces or in a name.
def wrapped? (cs : List Char) : Option (List Char) :=
  if byteSize cs = 38 then inBraces? cs
  else if byteSize cs = 45 then named? cs
  else none

-- The first character that is neither a digit nor a hyphen, with its offset in bytes.
def stranger? : (offset : Nat) → List Char → Option (Char × Nat)
  | _, [] => none
  | offset, c :: cs =>
    if c = hyphen ∨ (Hex.value? c).isSome then stranger? (offset + c.utf8Size) cs
    else some (c, offset)

-- The first group that does not end where it must, or the last one.
def wrongGroup (size : Nat) (hyphens : List Nat) : Malformed :=
  let groups := (hyphens.zip hyphenPlaces).zip [(0, 8), (9, 4), (14, 4), (19, 4)]
  match groups.zipIdx.find? fun (((place, due), _), _) => place ≠ due with
  | some (((place, _), (start, expected)), group) => .groupLength group expected (place - start)
  | none => .groupLength 4 12 (size - 24)

-- Why a text is malformed. Braces and the prefix of a name are passed over unless the text stands
-- for groups alone, and a text without hyphens is taken for digits that are too few or too many.
def diagnose (cs : List Char) (grouped : Bool) : Malformed :=
  let size := byteSize cs
  if size = 0 ∨ 45 < size then .length size else
    let (inner, start) : List Char × Nat :=
      if grouped then (cs, 0)
      else match inBraces? cs with
        | some inner => (inner, 1)
        | none => ((named? cs).map (·, 9)).getD (cs, 0)
    match stranger? start inner with
    | some (c, offset) => .character c offset
    | none =>
      let hyphens := (inner.zipIdx.filter (·.1 = hyphen)).map (·.2)
      if hyphens.isEmpty ∧ start = 0 ∧ !grouped then .length size
      else if hyphens.length ≠ 4 then .groupCount (hyphens.length + 1)
      else wrongGroup size hyphens

def parse (s : String) : Except Malformed Uuid :=
  let cs := s.toList
  match wrapped? cs with
  | some inner => (ofGroups? inner).elim (.error (diagnose inner true)) .ok
  | none =>
    ((ofDigits? cs).or (ofGroups? cs)).elim (.error (diagnose cs (byteSize cs = 36))) .ok

end Uuid

-- Identifiers are written as five groups of digits, and read from the digits alone, from the
-- groups, and from the groups in braces or behind the prefix of a name.
@[reducible] def UuidFormat.hyphenated : UuidFormat where
  parse s := (Uuid.parse s).mapError (·.message)
  text := Uuid.text

end RecordDecoding
