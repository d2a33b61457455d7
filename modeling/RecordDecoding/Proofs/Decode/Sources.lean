import RecordDecoding.Proofs.Decode.Replaying
import RecordDecoding.Proofs.Decode.Trees

namespace RecordDecoding

open Decoding Forward ScalarKind

-- A number as a leaf. Integers keep their literal.
def Leaf.ofLiteral (literal : String) : Leaf :=
  if h : Numeral.IsInteger literal.toList then .bigInt ⟨literal, h⟩
  else (Binary.read? literal).elim .null .float

def Lexeme.token : Lexeme → Token
  | objectStart    => .objectStart
  | objectEnd      => .objectEnd
  | name s         => .fieldName (.fresh s)
  | string s       => .string s
  | number literal => (Leaf.ofLiteral literal).token
  | bool b         => .bool b
  | null           => .null
  | arrayStart     => .arrayStart
  | arrayEnd       => .arrayEnd

namespace Json

mutual

def tree : Json → TokenTree
  | null           => .leaf .null
  | bool b         => .leaf (.bool b)
  | number literal => .leaf (.ofLiteral literal)
  | string s       => .leaf (.string s)
  | array items    => .array (itemTrees items)
  | object members => .object (memberTrees members)

def itemTrees : List Json → List TokenTree
  | []            => []
  | item :: items => item.tree :: itemTrees items

def memberTrees : List (String × Json) → List (MemberName × TokenTree)
  | []                       => []
  | (name, value) :: members => (.fresh name, value.tree) :: memberTrees members

end

open TokenTree

mutual

theorem tokens_tree : ∀ j : Json, j.tree.tokens = j.lexemes.map Lexeme.token
  | null | bool _ | number _ | string _ => rfl
  | array items    => by
    simp [tree, TokenTree.tokens, lexemes, tokens_itemTrees items, Lexeme.token]
  | object members => by
    simp [tree, TokenTree.tokens, lexemes, tokens_memberTrees members, Lexeme.token]

theorem tokens_itemTrees :
    ∀ items : List Json, itemTokens (itemTrees items) = (itemLexemes items).map Lexeme.token
  | []            => rfl
  | item :: items => by
    simp [itemTrees, itemTokens, itemLexemes, tokens_tree item, tokens_itemTrees items]

theorem tokens_memberTrees : ∀ members : List (String × Json),
    memberTokens (memberTrees members) = (memberLexemes members).map Lexeme.token
  | []                       => rfl
  | (name, value) :: members => by
    simp [memberTrees, memberTokens, memberLexemes, tokens_tree value, tokens_memberTrees members,
      Lexeme.token]

end

end Json

namespace Leaf

-- Reads a leaf as the cursor over a text does. Why it is of no use is not told.
def readText [UuidFormat] (k : ScalarKind) (l : Leaf) : Except ScalarFault Value :=
  match k, l.number? with
  | .f32, some x | .f64, some x => if x.isInfinite then .error (.invalid "") else l.read 0 k
  | k, _                        => l.read 0 k

theorem readText_not_accepted [UuidFormat] {l : Leaf} {k : ScalarKind}
    (h : l.token.kind ∉ k.accepts) :
    l.readText k = .error (.mismatch k.accepts l.token.kind) := by
  rw [← read_not_accepted h]
  cases k <;> cases l <;> first
    | rfl
    | exact absurd (by simp [ScalarKind.accepts, token, Token.kind]) h

theorem eq_of_token_eq {l l' : Leaf} (h : l.token = l'.token) : l = l' := by
  cases l <;> cases l' <;> simp only [token, reduceCtorEq, Token.bool.injEq, Token.string.injEq,
    Token.int.injEq, Token.bigInt.injEq, Token.float.injEq] at h
  case bigInt.bigInt n n' =>
    obtain ⟨_, _⟩ := n
    cases h
    rfl
  all_goals first | rfl | exact congrArg _ h

variable {literal : String}

theorem ofLiteral_integer (h : Numeral.IsInteger literal.toList) :
    ofLiteral literal = .bigInt ⟨literal, h⟩ :=
  dif_pos h

theorem ofLiteral_float (hn : Numeral.IsNumber literal.toList)
    (h : ¬Numeral.IsInteger literal.toList) :
    ∃ x, Binary.read? literal = some x ∧ ofLiteral literal = .float x := by
  have ⟨x, hx⟩ := Option.isSome_iff_exists.mp (Binary.isSome_read?_number (f := .double) hn)
  exact ⟨x, hx, by rw [ofLiteral, dif_neg h, hx]; rfl⟩

end Leaf

theorem Lexeme.token_kind {l : Lexeme} (h : l.Valid) : l.token.kind = l.kind := by
  cases l
  case number literal =>
    by_cases hi : Numeral.IsInteger literal.toList
    case pos => simp [token, Leaf.ofLiteral_integer hi, Leaf.token, Token.kind, kind, hi]
    case neg =>
      obtain ⟨x, _, hx⟩ := Leaf.ofLiteral_float h hi
      simp [token, hx, Leaf.token, Token.kind, kind, hi]
  case bool b => cases b <;> rfl
  all_goals rfl

namespace TextCursor

variable {c : TextCursor} {lex : Lexeme} {l : Leaf} {k : ScalarKind}

-- What the leaf is that a cursor shows.
inductive ShowsLeaf (c : TextCursor) : Leaf → Prop
  | null : c.kind = .null → ShowsLeaf c .null
  | bool {b} : c.kind = (if b then .boolTrue else .boolFalse) → ShowsLeaf c (.bool b)
  | string {s} : c.kind = .string → c.text = .ok s → ShowsLeaf c (.string s)
  | integer {n : IntegerText} : c.kind = .integer → c.numberText = .ok n.text →
    ShowsLeaf c (.bigInt n)
  | float {literal x} : c.kind = .float → c.numberText = .ok literal →
    Binary.read? literal = some x → ShowsLeaf c (.float x)

theorem Shows.leaf (hs : c.Shows lex) (hv : lex.Valid) (hl : lex.token = l.token) :
    c.ShowsLeaf l := by
  cases lex
  case null =>
    cases Leaf.eq_of_token_eq (l := .null) hl
    exact .null hs
  case bool b =>
    cases Leaf.eq_of_token_eq (l := .bool b) hl
    exact .bool hs
  case string s =>
    cases Leaf.eq_of_token_eq (l := .string s) hl
    exact .string hs.1 hs.2
  case number literal =>
    cases Leaf.eq_of_token_eq hl
    rcases hs.2 with ⟨hk, hi⟩ | ⟨hk, hi⟩
    · rw [Leaf.ofLiteral_integer hi]
      exact .integer hk hs.1
    · have ⟨x, hx, he⟩ := Leaf.ofLiteral_float hv hi
      rw [he]
      exact .float hk hs.1 hx
  all_goals cases l <;> cases hl

theorem ShowsLeaf.kind_eq (h : c.ShowsLeaf l) : c.kind = l.token.kind := by
  cases h
  case bool b h => cases b <;> exact h
  all_goals assumption

-- A leaf that is a number is read as a float.
theorem ShowsLeaf.float_eq (h : c.ShowsLeaf l) {x : Double} (hx : l.number? = some x) :
    c.float = if x.isInfinite then .error (.numberOutOfRange c.start) else .ok x := by
  cases h
  case integer n _ ht =>
    cases hx
    exact TextCursor.float_eq ht n.read?_text
  case float ht hr =>
    cases hx
    exact TextCursor.float_eq ht hr
  all_goals cases hx

section Alike

variable {s : String} {n : IntegerText}

theorem binary_alike [UuidFormat] (ht : c.text = .ok s) :
    Alike (ScalarKind.binary.readAccepted c) ((Leaf.string s).read 0 .binary) := by
  have hb := TextCursor.binary_of_text ht
  simp only [ScalarKind.readAccepted, Leaf.read]
  cases hd : Base64.decode? s
  case some bytes =>
    rw [access_of_ok (show Cursor.binary c = .ok bytes by rw [hd] at hb; exact hb)]
    exact .same _
  case none =>
    rw [access_of_fault (show Cursor.binary c = .error _ by rw [hd] at hb; exact hb) rfl]
    exact .invalid ..

theorem int_alike [UuidFormat] (hk : c.kind = .integer) (ht : c.numberText = .ok n.text)
    (width : IntWidth) :
    Alike ((ScalarKind.int width).readAccepted c) ((Leaf.bigInt n).read 0 (.int width)) := by
  have hi := int_eq hk ht
  simp only [ScalarKind.readAccepted, Leaf.read]
  cases hr : readInt64? n.text
  case some m =>
    rw [access_of_ok (show Cursor.int c = .ok m by rw [hr] at hi; exact hi)]
    exact .same _
  case none =>
    rw [access_of_fault (show Cursor.int c = .error _ by rw [hr] at hi; exact hi) rfl]
    exact .invalid ..

-- What is made of a float, if it is finite.
theorem ShowsLeaf.float_alike (h : c.ShowsLeaf l) {x : Double} (hx : l.number? = some x)
    (g : Double → Except ScalarFault Value) :
    Alike (access Cursor.float c >>= g) (if x.isInfinite then .error (.invalid "") else g x) := by
  have hf := h.float_eq hx
  split at hf
  case isTrue hi =>
    rw [access_of_fault (show Cursor.float c = .error _ from hf) rfl, if_pos hi]
    exact .invalid ..
  case isFalse hi =>
    rw [access_of_ok (show Cursor.float c = .ok x from hf), if_neg hi]
    exact .same _

end Alike

theorem ShowsLeaf.read_alike [UuidFormat] (h : c.ShowsLeaf l) (k : ScalarKind) :
    Alike (k.read c) (l.readText k) := by
  have kind : Cursor.kind c = l.token.kind := h.kind_eq
  rw [ScalarKind.read, kind]
  split
  case isFalse na =>
    rw [Leaf.readText_not_accepted na]
    exact .same _
  case isTrue accepted =>
    have float {x : Double} (hx : l.number? = some x) := h.float_alike hx
    cases h
    case bool b _ =>
      cases b <;> cases k <;> simp [ScalarKind.accepts, Leaf.token, Token.kind] at accepted
      all_goals
        simp only [ScalarKind.readAccepted, kind]
        exact .same _
    all_goals cases k <;> simp [ScalarKind.accepts, Leaf.token, Token.kind] at accepted
    case string.string s _ ht =>
      rw [ScalarKind.readAccepted, access_of_ok (show Cursor.text c = .ok s from ht)]
      exact .same _
    case string.binary ht => exact binary_alike ht
    case string.uuid s _ ht =>
      rw [ScalarKind.readAccepted, access_of_ok (show Cursor.text c = .ok s from ht)]
      exact .same _
    case integer.int n hk ht width => exact int_alike hk ht width
    case integer.bigInt n _ ht =>
      rw [ScalarKind.readAccepted, access_of_ok (show Cursor.numberText c = .ok n.text from ht)]
      exact .same _
    case integer.f32       => exact float rfl narrowFloat
    case integer.f64       => exact float rfl fun x => .ok (.f64 x)
    case float.f32         => exact float rfl narrowFloat
    case float.f64         => exact float rfl fun x => .ok (.f64 x)

-- The cursor shows a lexeme and others follow it, which stand for these tokens.
def Feeds (c : TextCursor) (tokens : List Token) : Prop :=
  ∃ l ls, c.Shows l ∧ c.Follows ls ∧ l.Valid ∧ tokens = (l :: ls).map Lexeme.token

variable {token : Token} {tokens : List Token}

theorem Feeds.kind_eq (h : c.Feeds (token :: tokens)) : c.kind = token.kind := by
  obtain ⟨l, ls, shows, _, valid, ⟨⟩⟩ := h
  exact shows.kind_eq.trans (l.token_kind valid).symm

theorem Feeds.fieldName_eq {name : MemberName} (h : c.Feeds (.fieldName name :: tokens)) :
    c.fieldName = .ok name := by
  obtain ⟨l, ls, shows, _, valid, ht⟩ := h
  have ⟨ht, _⟩ := List.cons.inj ht
  have form := l.of_kind
  rw [← l.token_kind valid, ← ht] at form
  obtain ⟨s, rfl⟩ := form
  cases ht
  exact shows.2

theorem Feeds.advance (h : c.Feeds (token :: tokens)) (ht : tokens ≠ []) :
    ∃ c', Cursor.advance.run c = .ok () c' ∧ c'.Feeds tokens := by
  obtain ⟨l, ls, _, follows, _, ⟨⟩⟩ := h
  cases ls
  case nil => exact absurd rfl ht
  case cons l' ls =>
    have valid := follows.due.valid l' (List.mem_cons_self ..)
    have ⟨c', hr, shows, follows⟩ := advance_yields follows follows.not_complete
    exact ⟨c', hr, l', ls, shows, follows, valid, rfl⟩

theorem Feeds.showsLeaf (h : c.Feeds (l.token :: tokens)) : c.ShowsLeaf l := by
  obtain ⟨_, _, shows, _, valid, ht⟩ := h
  exact shows.leaf valid (List.cons.inj ht).1.symm

end TextCursor

section

variable [UuidFormat]

-- An error of a scalar, but for where it is and why it is of no use.
theorem Level.scalar_gives {σ : Type} [Cursor σ] {s : Session σ} {k : ScalarKind}
    {x : Except ScalarFault Value} (alike : Alike (k.read s.cursor) x) (schema : Schema)
    (field : Field) : ((Level.scalar schema field k).run s).Gives (fun e e' => e.gist = e'.gist)
      (· = s) (x.mapError (.scalarAt schema field k)) := by
  simp only [scalar, mismatch, run_bind, run_look]
  generalize k.read s.cursor = y at alike
  cases alike
  case invalid => exact .error rfl
  case same =>
    cases x
    case ok          => exact .ok rfl
    case error fault => cases fault <;> exact .error rfl

-- The errors of a text tell a position, and those of the verdict do not.
def Feed.text : Feed TextCursor where
  On c _ tokens := c.Feeds tokens
  read _ k l := l.readText k
  error e e' := e.gist = e'.gist
  kind_eq h := h.kind_eq
  fieldName h := h.fieldName_eq
  advance h := h.advance
  scalar schema field k h := Level.scalar_gives (h.showsLeaf.read_alike k) schema field
  error_refl _ := rfl
  error_at e _ := by cases e <;> rfl

-- Of a leaf that is of no use, the index is told in the reason only.
theorem Leaf.read_alike (index index' : Nat) (k : ScalarKind) (l : Leaf) :
    Alike (l.read index k) (l.read index' k) := by
  cases k <;> cases l <;> try exact .same _
  case binary.string s =>
    simp only [read]
    cases Base64.decode? s
    case some => exact .same _
    case none => exact .invalid ..
  case int.bigInt width n =>
    simp only [read]
    cases readInt64? n.text
    case some => exact .same _
    case none => exact .invalid ..

def Feed.tokens : Feed Replay where
  On r index tokens := r.On index tokens
  read _ k l := l.read 0 k
  error e e' := e.gist = e'.gist
  kind_eq h := Feed.replay.kind_eq h
  fieldName h := Feed.replay.fieldName h
  advance h := h.advance
  scalar {s index l _} schema field k h :=
    Level.scalar_gives (l.read_eq k h ▸ l.read_alike index 0 k) schema field
  error_refl _ := rfl
  error_at e _ := by cases e <;> rfl

end

-- A run on an object from its start heeds the verdict on it where errors are told apart as above,
-- and the tally is that of the tree.
abbrev Outcome.Heeds {σ : Type} (o : Outcome DecodeError (Session σ) (Option Record))
    (set : SchemaSet) (opt : DecodeOptions) (read : ScalarReading)
    (schema : Schema) (members : List (MemberName × TokenTree)) : Prop :=
  o.Gives (fun e e' => e.gist = e'.gist)
    (·.tally = (TokenTree.object members).tally set schema .recursive 0)
    (some <$> TokenTree.objectVerdict set opt.rules (fun _ => read) schema 0 0 members)

section

variable {set : SchemaSet} {id : SchemaId} {schema : Schema}

theorem Outcome.Heeds.result_eq {σ : Type} {o : Outcome DecodeError (Session σ) (Option Record)}
    {opt : DecodeOptions} {read : ScalarReading} {members : List (MemberName × TokenTree)}
    {r : Record} (h : o.Heeds set opt read schema members)
    (verdict : TokenTree.objectVerdict set opt.rules (fun _ => read) schema 0 0 members = .ok r) :
    o.result = .ok (some r) := by
  rw [Outcome.Heeds, verdict] at h
  obtain ⟨_, rfl, _⟩ := h.exists_ok
  rfl

-- On a feed that reads leaves alike wherever they are.
theorem Feed.heeds [UuidFormat] {σ : Type} [Cursor σ] {feed : Feed σ}
    {read : ScalarReading} (free : feed.read = fun _ => read)
    (gist : feed.error = fun e e' => e.gist = e'.gist) (wf : set.WellFormed)
    (found : set.get? id = some schema) (opt : DecodeOptions)
    {members : List (MemberName × TokenTree)} {c : σ}
    (on : feed.On c 0 ((TokenTree.object members).tokens ++ [])) :
    ((decodeRecord set id opt).run { cursor := c }).Heeds set opt read schema members := by
  have gives := feed.decodeRecord_gives wf found opt (s := { cursor := c }) on
  rw [free, gist] at gives
  refine gives.imp fun {s} past => ?_
  rw [past.tally]
  exact zero_add _

-- A replay starts on the first of its tokens.
theorem heeds_of_tokens [UuidFormat] (wf : set.WellFormed) (found : set.get? id = some schema)
    (members : List (MemberName × TokenTree)) :
    ∃ r, Replay.ofTokens (TokenTree.object members).tokens none = .ok r ∧
      ∀ opt, ((decodeRecord set id opt).run { cursor := r }).Heeds set opt
        (fun k l => l.read 0 k) schema members := by
  refine ⟨_, rfl, fun opt => Feed.tokens.heeds rfl rfl wf found opt ?_⟩
  exact ⟨by simp [TokenTree.tokens], rfl, rfl⟩

-- A text starts on the first token of its tree.
theorem TextCursor.exists_feeds {j : Json} {bytes : List UInt8} (text : Json.IsText j bytes) :
    ∃ c, ofBytes bytes = .ok c ∧ c.Feeds (j.tree.tokens ++ []) := by
  have follows := follows_initial text
  have first := advance_yields follows rfl
  have tokens := j.tokens_tree
  generalize j.lexemes = ls at follows first tokens
  cases ls
  case nil => exact first.elim
  case cons l ls =>
    have ⟨c, hr, hs, hf⟩ := first
    have valid := follows.due.valid l (List.mem_cons_self ..)
    refine ⟨c, by rw [ofBytes, hr], l, ls, hs, hf, valid, ?_⟩
    rw [List.append_nil, tokens]

theorem heeds_of_text [UuidFormat] (wf : set.WellFormed) (found : set.get? id = some schema)
    {j : Json} {bytes : List UInt8} {members : List (MemberName × TokenTree)}
    (tree : j.tree = .object members) (text : Json.IsText j bytes) :
    ∃ c, TextCursor.ofBytes bytes = .ok c ∧
      ∀ opt, ((decodeRecord set id opt).run { cursor := c }).Heeds set opt
        (fun k l => l.readText k) schema members :=
  have ⟨c, hc, feeds⟩ := TextCursor.exists_feeds text
  ⟨c, hc, fun opt => Feed.text.heeds rfl rfl wf found opt (tree ▸ feeds)⟩

end
end RecordDecoding
