import RecordDecoding.External.Block
import RecordDecoding.Payload

namespace RecordDecoding

-- The number of so many bytes at an offset.
def field? (bytes : List UInt8) (offset width : Nat) : Option Nat :=
  if offset + width ≤ bytes.length then
    some (((bytes.drop offset).take width).foldr (fun b n => b.toNat + 256 * n) 0)
  else none

namespace Frame

-- The first bytes of every frame.
structure Header where
  size : Nat
  window : Nat
  -- The length of the content, if it is given.
  contentSize : Option Nat
  deriving DecidableEq, Repr

namespace Header

-- A window has so many binary digits at most.
def windowDigits : Nat := 31

-- The window that a descriptor asks for: a power of two and some eighths of it.
def windowOf (descriptor : Nat) : Nat :=
  let base := Nat.pow 2 (10 + descriptor / 8)
  base + base / 8 * (descriptor % 8)

def dictionaryWidth (descriptor : Nat) : Nat :=
  match descriptor % 4 with
  | 0 => 0
  | 1 => 1
  | 2 => 2
  | _ => 4

def contentWidth (descriptor : Nat) (isSingle : Bool) : Nat :=
  match descriptor / 64 with
  | 0 => if isSingle then 1 else 0
  | 1 => 2
  | 2 => 4
  | _ => 8

-- A content size of two bytes starts where one byte ends.
def contentBase (width : Nat) : Nat :=
  if width = 2 then 256 else 0

-- The content size that stands for an unknown one.
def unknown : Nat := Nat.pow 2 64 - 1

-- The header of a frame, behind the magic bytes. The content of a frame in a single segment is its
-- window.
def read? (bytes : List UInt8) : Option Header := do
  let descriptor ← field? bytes 0 1
  let isSingle := descriptor.testBit 5
  let isReserved := descriptor.testBit 3
  let hasChecksum := descriptor.testBit 2
  if isReserved || hasChecksum then failure
  let windowWidth := if isSingle then 0 else 1
  let dictionary := 1 + windowWidth
  let content := dictionary + dictionaryWidth descriptor
  let width := contentWidth descriptor isSingle
  if (← field? bytes dictionary (dictionaryWidth descriptor)) ≠ 0 then failure
  let ask ← field? bytes 1 windowWidth
  if windowDigits < 10 + ask / 8 then failure
  let size := (← field? bytes content width) + contentBase width
  return {
    size := content + width
    window := if isSingle then size else windowOf ask
    contentSize := if width = 0 ∨ size = unknown then none else some size
  }

-- No block holds more than this.
def blockLimit (h : Header) : Nat :=
  min h.window (128 * 1024)

end Header

end Frame

-- A frame with the number of bytes that it takes.
structure Frame where
  size : Nat
  header : Frame.Header
  blocks : List Block
  deriving DecidableEq, Repr

inductive Part where
  | frame (frame : Frame)
  | skipped (length : Nat)
  deriving DecidableEq, Repr

namespace Part

-- The magic number of a skippable frame and the length of what it holds.
def skippedHeader : Nat := 8

def size : Part → Nat
  | frame f => f.size
  | skipped length => skippedHeader + length

-- The length of what a skippable frame holds, if these bytes start one.
def skippable? (bytes : List UInt8) : Option Nat := do
  if (← field? bytes 0 4) / 16 ≠ 0x184D2A5 then failure
  field? bytes 4 4

def read? (bytes : List UInt8) : Option (Front Part bytes) :=
  if h : Payload.magic.isPrefixOf bytes then do
    let behind := bytes.drop Payload.magic.length
    let header ← Frame.Header.read? behind
    let ⟨blocks, rest, shorter⟩ ← Block.readAll? (behind.drop header.size)
    return {
      value := .frame ⟨bytes.length - rest.length, header, blocks⟩
      rest
      shorter := by
        simp only [behind, List.length_drop] at shorter
        omega
    }
  else do
    let length ← skippable? bytes
    if h : skippedHeader + length ≤ bytes.length then
      return {
        value := .skipped length
        rest := bytes.drop (skippedHeader + length)
        shorter := by
          have : skippedHeader = 8 := rfl
          rw [List.length_drop]
          omega
      }
    else failure

-- A row of parts and nothing else.
def readAll? (bytes : List UInt8) : Option (List Part) :=
  if bytes.isEmpty then some []
  else do
    let ⟨part, rest, _⟩ ← read? bytes
    return part :: (← readAll? rest)
termination_by bytes.length

end Part

end RecordDecoding
