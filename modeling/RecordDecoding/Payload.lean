namespace RecordDecoding

inductive Compression where
  | none
  | zstd
  deriving DecidableEq, Repr

def Compression.label : Compression → String
  | none => "none"
  | zstd => "zstd"

-- Why there is no payload.
inductive SourceError where
  -- It cannot be read, or not be decompressed.
  | unreadable
  -- More comes out of it than is allowed.
  | tooLarge (limit : Nat)
  deriving DecidableEq, Repr

def SourceError.message : SourceError → String
  | unreadable => "io: the payload cannot be read"
  | tooLarge limit => s!"decompressed output exceeded limit {limit} bytes"

-- What comes out of compressed bytes, portion by portion, until that is all or it fails.
inductive Decompression where
  | finished
  | failed
  | portion (bytes : List UInt8) (rest : Decompression)

-- Reads on behind what is there already, as long as that does not get too large.
def Decompression.collect (limit : Nat) (out : List UInt8) :
    Decompression → Except SourceError (List UInt8)
  | finished => .ok out
  | failed => .error .unreadable
  | portion bytes rest =>
    if limit < out.length + bytes.length then .error (.tooLarge limit)
    else rest.collect limit (out ++ bytes)

structure Payload where
  compression : Compression
  bytes : List UInt8
  deriving DecidableEq, Repr

namespace Payload

-- How compressed bytes start.
def magic : List UInt8 := [0x28, 0xB5, 0x2F, 0xFD]

-- The most bytes that may come out of compressed ones.
def maxBytes : Nat := 256 * 1024 * 1024

def ofRaw (decompress : List UInt8 → Decompression) (raw : List UInt8) :
    Except SourceError Payload :=
  if magic.isPrefixOf raw then
    return ⟨.zstd, ← (decompress raw).collect maxBytes []⟩
  else return ⟨.none, raw⟩

end Payload

end RecordDecoding
