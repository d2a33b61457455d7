namespace RecordDecoding

-- The byte of an ASCII character.
def ascii (c : Char) : UInt8 :=
  UInt8.ofNat c.toNat

namespace Ascii

def isBlank (b : UInt8) : Bool :=
  b = ascii ' ' || b = ascii '\t' || b = ascii '\n' || b = ascii '\x0d'

def isDigit (b : UInt8) : Bool :=
  ascii '0' ≤ b && b ≤ ascii '9'

-- The text of ASCII bytes.
def text (bytes : List UInt8) : String :=
  String.ofList (bytes.map fun b => Char.ofNat b.toNat)

end Ascii

namespace Utf8

def encode (s : String) : List UInt8 :=
  s.toList.flatMap String.utf8EncodeChar

def decode? (bytes : List UInt8) : Option String :=
  String.fromUTF8? ⟨bytes.toArray⟩

end Utf8

end RecordDecoding
