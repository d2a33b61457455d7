namespace RecordDecoding

-- What the front part of some bytes stands for, and what is behind that part.
structure Front (α : Type) (bytes : List UInt8) where
  value : α
  rest : List UInt8
  shorter : rest.length < bytes.length

inductive Block where
  | plain (bytes : List UInt8)
  | run (length : Nat) (byte : UInt8)
  | coded (bytes : List UInt8)
  deriving DecidableEq, Repr

namespace Block

-- Nothing is behind the header.
def isEmpty : Block → Bool
  | plain bytes | coded bytes => bytes.isEmpty
  | run _ _ => false

def length? : Block → Option Nat
  | plain bytes => some bytes.length
  | run length _ => some length
  | coded _ => none

def content : Block → List UInt8
  | plain bytes => bytes
  | run length byte => List.replicate length byte
  | coded _ => []

-- How many bytes are behind the header of a block of such a kind.
def storedSize (kind size : Nat) : Nat :=
  if kind = 1 then 1 else size

-- The block of such a kind with these bytes behind its header.
def ofStored? (kind size : Nat) (bytes : List UInt8) : Option Block :=
  match kind with
  | 0 => some (plain bytes)
  | 1 => bytes.head?.map (run size)
  | 2 => some (coded bytes)
  | _ => none

-- The block at the front, and if it is the last one.
def read? : (bytes : List UInt8) → Option (Front (Block × Bool) bytes)
  | a :: b :: c :: bytes => do
    let descriptor := a.toNat + 256 * b.toNat + 65536 * c.toNat
    let isLast := descriptor % 2 = 1
    let kind := descriptor / 2 % 4
    let size := descriptor / 8
    let stored := storedSize kind size
    if bytes.length < stored then failure
    let block ← ofStored? kind size (bytes.take stored)
    return {
      value := (block, isLast)
      rest := bytes.drop stored
      shorter := by simp only [List.length_drop, List.length_cons]; omega
    }
  | _ => none

-- The blocks up to the last one.
def readAll? (bytes : List UInt8) : Option (Front (List Block) bytes) := do
  let ⟨(block, isLast), rest, shorter⟩ ← read? bytes
  if isLast then return ⟨[block], rest, shorter⟩
  else
    let more ← readAll? rest
    return ⟨block :: more.value, more.rest, Nat.lt_trans more.shorter shorter⟩
termination_by bytes.length

end Block

end RecordDecoding
