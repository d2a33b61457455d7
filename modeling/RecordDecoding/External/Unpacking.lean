import RecordDecoding.External.Frame

namespace RecordDecoding

namespace Frame

-- The longest content that is unpacked at once.
def shortContent : Nat := 8192

-- Frames are handed over in portions of this size.
def portion : Nat := 128 * 1024 + 3

-- The largest window of a frame that is unpacked block by block.
def windowLimit : Nat := Nat.pow 2 27 + 1

-- If a frame at an offset is unpacked at once: it lies in one portion, and its content is short.
def isShort (f : Frame) (offset : Nat) : Bool :=
  f.header.contentSize.any (· ≤ shortContent) &&
    offset / portion = (offset + f.size - 1) / portion

-- The length of some blocks in a row.
def length? (blocks : List Block) : Option Nat := do
  return (← blocks.mapM Block.length?).foldl (· + ·) 0

def atOnce? (f : Frame) : Option (List UInt8) := do
  let length ← length? f.blocks
  if f.header.contentSize.all (· = length) then return f.blocks.flatMap Block.content
  else failure

-- What counts of a block against the block limit: the length of its content, but no less than the
-- one byte that is read for it.
def charge? (b : Block) : Option Nat :=
  b.length?.map (max 1)

-- The content of a frame, block by block, if there is room for so much of it.
def blockwise? (f : Frame) (room : Option Nat) : Option (List UInt8) := do
  let blocks := f.blocks.filter (!·.isEmpty)
  let length ← length? blocks
  let fits := f.header.window ≤ windowLimit
    ∧ blocks.all (charge? · |>.all (· ≤ f.header.blockLimit))
    ∧ room.all (length ≤ ·)
  let ends := f.blocks.getLast?.any Block.isEmpty ∨ f.header.contentSize.all (· = length)
  if fits ∧ ends then return blocks.flatMap Block.content else failure

end Frame

-- The buffers for frames that are unpacked block by block: for a block, and for the content. They
-- are kept from frame to frame, and `idle` counts the frames in a row that had far too much room.
structure Buffers where
  block : Nat
  content : Nat
  idle : Nat
  deriving DecidableEq, Repr

namespace Buffers

def empty : Buffers := ⟨0, 0, 0⟩

-- Buffers of three times the size that is needed are far too large.
def slack : Nat := 3

-- So many frames in a row make buffers that are far too large shrink.
def patience : Nat := 128

def fit (b : Buffers) (block content : Nat) : Buffers :=
  let idle := if slack * (block + content) ≤ b.block + b.content then b.idle + 1 else 0
  if b.block < block ∨ b.content < content ∨ patience ≤ idle then ⟨block, content, idle⟩
  else { b with idle }

-- The buffers when a part with such a window, block limit and content size has made its room: for
-- all of the content, or for the window, two blocks and a margin, whichever is less.
def prepare (b : Buffers) (window blockLimit : Nat) (contentSize : Option Nat) : Buffers :=
  let moving := max window 1024 + 2 * blockLimit + 64
  b.fit (max blockLimit 4) (contentSize.elim moving (min · moving))

-- How much content there is room for. A buffer that is too small for all of it moves along, and
-- then there is no end of it.
def room (b : Buffers) (contentSize : Option Nat) : Option Nat :=
  if contentSize.any (· ≤ b.content) then some b.content else none

end Buffers

-- The content of a row of parts from an offset on.
def Part.contents? (buffers : Buffers) (offset : Nat) : List Part → Option (List UInt8)
  | [] => some []
  | .skipped length :: parts =>
    let buffers := buffers.prepare 0 0 (some length)
    contents? buffers (offset + (skipped length).size) parts
  | .frame f :: parts =>
    if f.isShort offset then do
      return (← f.atOnce?) ++ (← contents? buffers (offset + f.size) parts)
    else do
      let h := f.header
      let buffers := buffers.prepare h.window h.blockLimit h.contentSize
      return (← f.blockwise? (buffers.room h.contentSize)) ++
        (← contents? buffers (offset + f.size) parts)

def Part.unpack? (raw : List UInt8) : Option (List UInt8) := do
  contents? Buffers.empty 0 (← readAll? raw)

end RecordDecoding
