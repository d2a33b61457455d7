namespace RecordDecoding

-- A universally unique identifier.
structure Uuid where
  bits : BitVec 128
  deriving DecidableEq, Repr

-- How identifiers are written, and read or complained about.
class UuidFormat where
  parse : String → Except String Uuid
  text : Uuid → String

end RecordDecoding
