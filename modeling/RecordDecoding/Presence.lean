namespace RecordDecoding

-- Which fields of an object have been satisfied. Few fields fit one word, more take a row of words.
inductive Presence where
  -- The marked bits, and the word in which the bits of all fields are set.
  | word (marked full : BitVec 32)
  -- The marked bits, 64 a word, and the number of fields.
  | wide (words : List (BitVec 64)) (length : Nat)
  deriving DecidableEq, Repr

namespace Presence

-- The most fields that one word tracks.
def wordBits : Nat := 32

def wideBits : Nat := 64

def wordCount (length : Nat) : Nat := (length + wideBits - 1) / wideBits

def mark (p : Presence) (n : Nat) : Presence :=
  match p with
  | word marked full =>
    if n < wordBits then word (marked ||| (BitVec.twoPow 32 n &&& full)) full else p
  | wide words length =>
    if n < length then
      wide (words.modify (n / wideBits) (· ||| BitVec.twoPow 64 (n % wideBits))) length
    else p

-- No field is marked yet.
def blank (length : Nat) : Presence :=
  if length ≤ wordBits then word 0 (BitVec.ofNat 32 (Nat.pow 2 length - 1))
  else wide (List.replicate (wordCount length) 0) length

-- The mask of a type with `length` fields before any member was read: the exempt fields are marked.
def seed (length : Nat) (exempt : List Nat) : Presence :=
  exempt.foldl mark (blank length)

def isMarked (p : Presence) (n : Nat) : Bool :=
  match p with
  | word marked full => n < wordBits && (marked &&& full).getLsbD n
  | wide words length => n < length && (words[n / wideBits]?.getD 0).getLsbD (n % wideBits)

-- The bits of the fields in the word at an index.
def fullWord (length index : Nat) : BitVec 64 :=
  BitVec.ofNat 64 (Nat.pow 2 (min (length - index * wideBits) wideBits) - 1)

def isComplete : Presence → Bool
  | word marked full => marked = full
  | wide words length => words.zipIdx.all fun (w, i) => w = fullWord length i

-- How many bits of a word are set.
def popCount (w : BitVec 32) : Nat :=
  (List.range wordBits).countP w.getLsbD

-- The number of fields.
def length : Presence → Nat
  | word _ full => popCount full
  | wide _ length => length

def isEmpty (p : Presence) : Bool :=
  p.length = 0

def isWord : Presence → Bool
  | word .. => true
  | wide .. => false

-- The unmarked fields in ascending order.
def missing (p : Presence) : List Nat :=
  (List.range p.length).filter fun n => !p.isMarked n

-- The first unmarked field from `next` on.
def nextMissing? (p : Presence) (next : Nat) : Option Nat :=
  (List.range' next (p.length - next)).find? fun n => !p.isMarked n

end Presence

end RecordDecoding
