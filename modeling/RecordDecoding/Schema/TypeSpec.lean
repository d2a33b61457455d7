import RecordDecoding.Schema.Declaration
import RecordDecoding.Text.Alphabetic
import RecordDecoding.Text.Numeric
import RecordDecoding.Text.WhiteSpace

namespace RecordDecoding.TypeSpec

def startsName (c : Char) : Bool :=
  isAlphabetic c || c = '_'

def continuesName (c : Char) : Bool :=
  isAlphabetic c || isNumeric c || c = '_' || c = '.'

def isName : List Char → Bool
  | [] => false
  | c :: cs => startsName c && cs.all continuesName

-- The name of a scalar comes before a declared one.
def base? (cs : List Char) : Option FieldType :=
  match ScalarKind.ofLabel? (String.ofList cs) with
  | some kind => some (.scalar kind)
  | none => if isName cs then some (.named (String.ofList cs)) else none

-- A spec read from its end.
def ofReversed? (cs : List Char) : Option FieldType :=
  match _end : cs.dropWhile isWhiteSpace with
  | ']' :: '[' :: rest => (ofReversed? rest).map .list
  | cs => base? (cs.reverse.dropWhile isWhiteSpace)
termination_by cs.length
decreasing_by
  have fewer := (List.dropWhile_suffix (l := cs) isWhiteSpace).length_le
  simp only [_end, List.length_cons] at fewer
  omega

def parse? (spec : String) : Option FieldType :=
  ofReversed? spec.toList.reverse

end RecordDecoding.TypeSpec
