import RecordDecoding.Cursor.Replay
import RecordDecoding.Proofs.Number.Literal

namespace RecordDecoding

-- The text of an integer of any size.
structure IntegerText where
  text : String
  isInteger : Numeral.IsInteger text.toList

def IntegerText.double (n : IntegerText) : Double :=
  (Binary.read? n.text).get (Binary.isSome_read?_integer n.isInteger)

inductive Leaf where
  | null
  | bool (value : Bool)
  | string (text : String)
  | int (value : Int64)
  | bigInt (value : IntegerText)
  | float (value : Double)

def Leaf.token : Leaf → Token
  | null     => .null
  | bool b   => .bool b
  | string s => .string s
  | int n    => .int n
  | bigInt n => .bigInt n.text
  | float x  => .float x

theorem Leaf.opensContainer_eq_false (l : Leaf) : l.token.kind.opensContainer = false := by
  cases l
  case bool b => cases b <;> rfl
  all_goals rfl

theorem Leaf.closesContainer_eq_false (l : Leaf) : l.token.kind.closesContainer = false := by
  cases l
  case bool b => cases b <;> rfl
  all_goals rfl

theorem Leaf.eq_null_of_kind {l : Leaf} (h : l.token.kind = .null) : l = .null := by
  cases l
  case null   => rfl
  case bool b => cases b <;> cases h
  all_goals cases h

inductive TokenTree where
  | leaf (leaf : Leaf)
  | array (items : List TokenTree)
  | object (members : List (MemberName × TokenTree))

namespace TokenTree

def kind : TokenTree → TokenKind
  | leaf l   => l.token.kind
  | array _  => .arrayStart
  | object _ => .objectStart

mutual

def tokens : TokenTree → List Token
  | leaf l         => [l.token]
  | array items    => .arrayStart :: (itemTokens items ++ [.arrayEnd])
  | object members => .objectStart :: (memberTokens members ++ [.objectEnd])

def itemTokens : List TokenTree → List Token
  | []            => []
  | item :: items => item.tokens ++ itemTokens items

def memberTokens : List (MemberName × TokenTree) → List Token
  | []                      => []
  | (name, value) :: members => .fieldName name :: (value.tokens ++ memberTokens members)

end

-- The number of tokens.
def size (t : TokenTree) : Nat :=
  t.tokens.length

end TokenTree

namespace Replay

-- The replay sits on the first of these tokens, which is the one of this index.
structure On (r : Replay) (index : Nat) (tokens : List Token) : Prop where
  tokens      : r.current :: r.ahead = tokens
  index       : r.index = index
  cancelAfter : r.cancelAfter = none

variable {r : Replay} {index : Nat} {token : Token} {tokens : List Token}

theorem On.current (h : r.On index (token :: tokens)) : r.current = token :=
  (List.cons.inj h.tokens).1

theorem On.kind (h : r.On index (token :: tokens)) : Cursor.kind r = token.kind :=
  congrArg Token.kind h.current

theorem On.advance (h : r.On index (token :: tokens)) (ht : tokens ≠ []) :
    ∃ r', Cursor.advance.run r = .ok () r' ∧ r'.On (index + 1) tokens := by
  have ⟨next, more, ht⟩ := List.exists_cons_of_ne_nil ht
  subst ht
  have ahead : r.ahead = next :: more := (List.cons.inj h.tokens).2
  have hc : r.isCancelled = false := by simp [isCancelled, h.cancelAfter]
  refine ⟨r.onto next more, ?_, rfl, congrArg (· + 1) h.index, h.cancelAfter⟩
  simp [Cursor.advance, Replay.advance, hc, ahead]

end Replay

namespace TokenTree

theorem closesContainer_eq_false (t : TokenTree) : t.kind.closesContainer = false := by
  cases t
  case leaf l => exact l.closesContainer_eq_false
  all_goals rfl

theorem size_array (items : List TokenTree) :
    (array items).size = (itemTokens items).length + 2 := by
  rw [size, TokenTree.tokens, List.length_cons, List.length_append, List.length_singleton]

theorem size_object (members : List (MemberName × TokenTree)) :
    (object members).size = (memberTokens members).length + 2 := by
  rw [size, TokenTree.tokens, List.length_cons, List.length_append, List.length_singleton]

end TokenTree
end RecordDecoding
