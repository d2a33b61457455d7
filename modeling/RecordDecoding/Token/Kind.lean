namespace RecordDecoding

inductive TokenKind where
  | objectStart
  | objectEnd
  | fieldName
  | string
  | integer
  | float
  | boolTrue
  | boolFalse
  | null
  | arrayStart
  | arrayEnd
  deriving DecidableEq, Repr

namespace TokenKind

-- Every kind once, in the order in which sets of kinds list them.
def all : List TokenKind :=
  [objectStart, objectEnd, fieldName, string, integer, float, boolTrue, boolFalse, null, arrayStart,
    arrayEnd]

-- The kind as it is worded in messages.
def label : TokenKind → String
  | objectStart => "object start"
  | objectEnd => "object end"
  | fieldName => "field name"
  | string => "string"
  | integer => "integer"
  | float => "float"
  | boolTrue => "true"
  | boolFalse => "false"
  | null => "null"
  | arrayStart => "array start"
  | arrayEnd => "array end"

-- The kind as it is worded in listings of a set.
def name : TokenKind → String
  | objectStart => "ObjectStart"
  | objectEnd => "ObjectEnd"
  | fieldName => "FieldName"
  | string => "StringValue"
  | integer => "IntValue"
  | float => "FloatValue"
  | boolTrue => "True"
  | boolFalse => "False"
  | null => "Null"
  | arrayStart => "ArrayStart"
  | arrayEnd => "ArrayEnd"

def ofLabel? (s : String) : Option TokenKind :=
  all.find? (·.label == s)

def opensContainer : TokenKind → Bool
  | objectStart | arrayStart => true
  | _ => false

def closesContainer : TokenKind → Bool
  | objectEnd | arrayEnd => true
  | _ => false

-- The place of a kind in `all`.
def index (k : TokenKind) : Fin 11 :=
  match k with
  | objectStart => 0
  | objectEnd => 1
  | fieldName => 2
  | string => 3
  | integer => 4
  | float => 5
  | boolTrue => 6
  | boolFalse => 7
  | null => 8
  | arrayStart => 9
  | arrayEnd => 10

theorem index_injective {k₁ k₂ : TokenKind} (h : k₁.index = k₂.index) : k₁ = k₂ := by
  cases k₁ <;> cases k₂ <;> first | rfl | cases h

theorem mem_all (k : TokenKind) : k ∈ all := by
  cases k <;> decide

end TokenKind

-- A set of kinds, one bit for each kind.
structure KindSet where
  mask : BitVec 11
  deriving DecidableEq, Repr

namespace KindSet

instance : Membership TokenKind KindSet where
  mem s k := s.mask.getLsbD k.index = true

instance (k : TokenKind) (s : KindSet) : Decidable (k ∈ s) :=
  inferInstanceAs (Decidable (s.mask.getLsbD k.index = true))

def empty : KindSet := ⟨0⟩

def insert (s : KindSet) (k : TokenKind) : KindSet :=
  ⟨s.mask ||| BitVec.twoPow 11 k.index⟩

def ofList (ks : List TokenKind) : KindSet :=
  ks.foldl insert empty

instance : Union KindSet where
  union s t := ⟨s.mask ||| t.mask⟩

def isEmpty (s : KindSet) : Bool :=
  s.mask == 0

-- The members in the order of `TokenKind.all`.
def toList (s : KindSet) : List TokenKind :=
  TokenKind.all.filter (· ∈ s)

-- What a decoder accepts in the places where tokens are read.
def onlyString : KindSet := ofList [.string]
def onlyBool : KindSet := ofList [.boolTrue, .boolFalse]
def onlyInteger : KindSet := ofList [.integer]
def anyNumber : KindSet := ofList [.integer, .float]
def onlyObject : KindSet := ofList [.objectStart]
def onlyArray : KindSet := ofList [.arrayStart]
def memberOrEnd : KindSet := ofList [.fieldName, .objectEnd]

def text (s : KindSet) : String :=
  if s.isEmpty then "nothing" else " | ".intercalate (s.toList.map (·.label))

def listing (s : KindSet) : String :=
  "\x7b" ++ ", ".intercalate (s.toList.map (·.name)) ++ "\x7d"

@[simp] theorem not_mem_empty (k : TokenKind) : k ∉ empty := by
  simp [empty, Membership.mem]

@[simp] theorem mem_insert {s : KindSet} {k k' : TokenKind} : k ∈ s.insert k' ↔ k ∈ s ∨ k = k' := by
  show (s.mask ||| BitVec.twoPow 11 k'.index).getLsbD k.index = true ↔
    s.mask.getLsbD k.index = true ∨ _
  simp only [BitVec.getLsbD_or, BitVec.getLsbD_twoPow, Bool.or_eq_true, Bool.and_eq_true,
    decide_eq_true_eq]
  refine or_congr Iff.rfl ⟨fun h => ?_, fun h => ?_⟩
  · exact (TokenKind.index_injective (Fin.ext h.2)).symm
  · subst h
    exact ⟨k.index.isLt, rfl⟩

@[simp] theorem mem_ofList {ks : List TokenKind} {k : TokenKind} : k ∈ ofList ks ↔ k ∈ ks := by
  suffices h : ∀ s : KindSet, k ∈ ks.foldl insert s ↔ k ∈ s ∨ k ∈ ks by simp [ofList, h]
  induction ks with
  | nil => simp
  | cons x xs ih => simp [ih, or_assoc]

@[simp] theorem mem_toList {s : KindSet} {k : TokenKind} : k ∈ s.toList ↔ k ∈ s := by
  simp [toList, TokenKind.mem_all]

end KindSet

end RecordDecoding
