import RecordDecoding.Json.Lexeme
import RecordDecoding.Proofs.Json.Grammar

namespace RecordDecoding

namespace Json

def UnitSpelling (n : Nat) (bytes : List UInt8) : Prop :=
  UnitText n bytes ∨
    ∃ digits, UnitText n (ascii '0' :: digits) ∧ bytes = ascii '+' :: digits

inductive EscapeSpelling : Char → List UInt8 → Prop
  | short {letter c} : (letter, c) ∈ shortEscapes → EscapeSpelling c [ascii '\\', ascii letter]
  | unit {c digits} : UnitSpelling c.toNat digits →
    EscapeSpelling c (ascii '\\' :: ascii 'u' :: digits)
  | pair {c high low digits digits'} : UnitSpelling (0xD800 + high) digits → high < 0x400 →
    UnitSpelling (0xDC00 + low) digits' → low < 0x400 →
    c.toNat = 0x10000 + high * 0x400 + low →
    EscapeSpelling c (ascii '\\' :: ascii 'u' :: (digits ++ ascii '\\' :: ascii 'u' :: digits'))

inductive CharsSpelling : List Char → List UInt8 → Prop
  | nil : CharsSpelling [] []
  | raw {c cs more} : IsRaw c → CharsSpelling cs more →
    CharsSpelling (c :: cs) (String.utf8EncodeChar c ++ more)
  | escape {c cs bytes more} : EscapeSpelling c bytes → CharsSpelling cs more →
    CharsSpelling (c :: cs) (bytes ++ more)

inductive StringSpelling (s : String) : List UInt8 → Prop
  | quoted {bytes} : CharsSpelling s.toList bytes →
    StringSpelling s (ascii '"' :: (bytes ++ [ascii '"']))

end Json

-- The bytes are those of the lexeme.
def Lexeme.Spells (bytes : List UInt8) : Lexeme → Prop
  | objectStart       => bytes = Json.plain "\x7b".toList
  | objectEnd         => bytes = Json.plain "\x7d".toList
  | arrayStart        => bytes = Json.plain "[".toList
  | arrayEnd          => bytes = Json.plain "]".toList
  | name s | string s => Json.StringSpelling s bytes
  | number literal    => Numeral.IsNumber literal.toList ∧ bytes = Json.plain literal.toList
  | bool .true        => bytes = Json.plain "true".toList
  | bool .false       => bytes = Json.plain "false".toList
  | null              => bytes = Json.plain "null".toList

end RecordDecoding
