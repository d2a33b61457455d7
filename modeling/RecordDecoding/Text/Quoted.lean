import RecordDecoding.Text.GraphemeExtend
import RecordDecoding.Text.Hex
import RecordDecoding.Text.Unprintable

namespace RecordDecoding.Quoted

def character (c : Char) : List Char :=
  if c = '"' then ['\\', '"']
  else if c = '\\' then ['\\', '\\']
  else if c = '\x00' then ['\\', '0']
  else if c = '\t' then ['\\', 't']
  else if c = '\n' then ['\\', 'n']
  else if c = '\x0d' then ['\\', 'r']
  else if extendsGrapheme c || isUnprintable c then
    ['\\', 'u', '\x7b'] ++ Hex.plain c.toNat ++ ['\x7d']
  else [c]

def text (s : String) : String :=
  String.ofList ('"' :: s.toList.flatMap character ++ ['"'])

end RecordDecoding.Quoted
