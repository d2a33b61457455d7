import RecordDecoding.Proofs.Json.Soundness
import RecordDecoding.Proofs.Promises

namespace RecordDecoding

open Forward

-- The kind of token that a lexeme is read as.
def Lexeme.kind : Lexeme → TokenKind
  | objectStart    => .objectStart
  | objectEnd      => .objectEnd
  | name _         => .fieldName
  | string _       => .string
  | number literal => if Numeral.IsInteger literal.toList then .integer else .float
  | bool true      => .boolTrue
  | bool false     => .boolFalse
  | null           => .null
  | arrayStart     => .arrayStart
  | arrayEnd       => .arrayEnd

theorem Lexeme.kind_number (literal : String) :
    (number literal).kind = .integer ∨ (number literal).kind = .float := by
  simp only [kind]
  split <;> simp

-- What sort of lexeme a token is read from.
theorem Lexeme.of_kind (l : Lexeme) : match l.kind with
    | .objectStart      => l = .objectStart
    | .objectEnd        => l = .objectEnd
    | .fieldName        => ∃ s, l = .name s
    | .string           => ∃ s, l = .string s
    | .integer | .float => ∃ s, l = .number s
    | .boolTrue         => l = .bool true
    | .boolFalse        => l = .bool false
    | .null             => l = .null
    | .arrayStart       => l = .arrayStart
    | .arrayEnd         => l = .arrayEnd := by
  cases l
  case string s => exact ⟨s, rfl⟩
  case name s   => exact ⟨s, rfl⟩
  case number s =>
    by_cases hi : Numeral.IsInteger s.toList <;> simp [kind, hi]
  case bool b => cases b <;> rfl
  all_goals rfl

theorem TextCursor.Shows.kind_eq {c : TextCursor} {l : Lexeme} (h : c.Shows l) :
    c.kind = l.kind := by
  cases l
  case name   => exact h.1
  case string => exact h.1
  case number =>
    rcases h.2 with ⟨hk, hi⟩ | ⟨hk, hi⟩
    · exact hk.trans (if_pos hi).symm
    · exact hk.trans (if_neg hi).symm
  case bool b => cases b <;> exact h
  all_goals exact h

-- What is expected once a value is complete.
def Expect.after (stack : List Container) : Expect :=
  if stack.isEmpty then .done else .afterValue

-- The containers that are open when something is expected after a token.
def Expect.Within : Expect → List Container → Prop
  | value, stack      => stack.head? = some .object
  | valueOrEnd, stack => stack.head? = some .array
  | keyOrEnd, stack   => stack.head? = some .object
  | afterValue, stack => stack ≠ []
  | done, stack       => stack = []

theorem Expect.Within.suits {expect : Expect} {stack : List Container} (h : expect.Within stack) :
    expect.Suits stack := by
  cases expect <;> first | exact h | trivial

theorem Expect.within_after (stack : List Container) : (after stack).Within stack := by
  cases stack
  case nil  => rfl
  case cons => exact List.cons_ne_nil _ _

-- A token by its kind, and what is expected after it in which containers.
structure Place where
  kind : TokenKind
  expect : Expect
  stack : List Container
  deriving DecidableEq, Repr

-- The first token of a value that is inside these containers.
inductive Place.Begins (stack : List Container) : Place → Prop
  | object : Begins stack ⟨.objectStart, .keyOrEnd, .object :: stack⟩
  | array : Begins stack ⟨.arrayStart, .valueOrEnd, .array :: stack⟩
  | scalar {k} : k ∈ [.string, .integer, .float, .boolTrue, .boolFalse, .null] →
    Begins stack ⟨k, .after stack, stack⟩

-- The last token of such a value.
structure Place.Ends (stack : List Container) (p : Place) : Prop where
  expect : p.expect = .after stack
  stack  : p.stack = stack

-- From one token to the next.
inductive Place.Moves (p : Place) : Place → Prop
  | value {q} : p.expect = .value → q.Begins p.stack → Moves p q
  | item {q stack} : p.expect = .valueOrEnd ∨ p.expect = .afterValue → p.stack = .array :: stack →
    q.Begins p.stack → Moves p q
  | name {stack} : p.expect = .keyOrEnd ∨ p.expect = .afterValue → p.stack = .object :: stack →
    Moves p ⟨.fieldName, .value, p.stack⟩
  | arrayEnd {stack} : p.expect = .valueOrEnd ∨ p.expect = .afterValue →
    p.stack = .array :: stack → Moves p ⟨.arrayEnd, .after stack, stack⟩
  | objectEnd {stack} : p.expect = .keyOrEnd ∨ p.expect = .afterValue →
    p.stack = .object :: stack → Moves p ⟨.objectEnd, .after stack, stack⟩

namespace Place

variable {p q : Place} {stack : List Container}

theorem Begins.within (h : q.Begins stack) : q.expect.Within q.stack := by
  cases h
  case object => rfl
  case array  => rfl
  case scalar => exact Expect.within_after stack

theorem Ends.within (h : p.Ends stack) : p.expect.Within p.stack := by
  rw [h.expect, h.stack]
  exact Expect.within_after stack

theorem Moves.within (h : p.Moves q) : q.expect.Within q.stack := by
  cases h
  case value h         => exact h.within
  case item h          => exact h.within
  case name h          => simp [Expect.Within, h]
  case arrayEnd stack  => exact Expect.within_after _
  case objectEnd stack => exact Expect.within_after _

end Place

namespace TextCursor

def place (c : TextCursor) : Place where
  kind := c.kind
  expect := c.expect
  stack := c.stack

-- Nothing changes of what a view shows of the cursor, be it that the step fails.
def Fixes {α β : Type} (v : TextCursor → β) (x : Step α) : Prop :=
  ∀ b, x.Meets (v · = b) (fun _ c => v c = b) fun _ c => v c = b

namespace Fixes

variable {α β γ : Type} {v : TextCursor → γ} {x : Step α} {f : α → Step β}

theorem pure (a : α) : Fixes v (pure a : Step α) :=
  fun _ => .pure id

theorem fail (e : CursorError) : Fixes v (Forward.fail e : Step α) :=
  fun _ => .fail id

theorem change {g : TextCursor → TextCursor} {h} (hg : ∀ c, v (g c) = v c) :
    Fixes v (Forward.change g h) :=
  fun _ => .change fun hc => (hg _).trans hc

theorem bind (hx : Fixes v x) (hf : ∀ a, Fixes v (f a)) : Fixes v (x >>= f) :=
  fun b => (hx b).bind fun a => hf a b

theorem loop {next : Step Unit} {reads : next.Reads} {step : α → Step (α ⊕ β)}
    (hnext : Fixes v next) (hstep : ∀ a, Fixes v (step a)) (a : α) :
    Fixes v (loop next reads step a) := by
  refine fun b => .loop (J := fun _ c => v c = b) (M := fun _ c => v c = b)
    (fun a => (hstep a b).imp id (fun {next _} h => ?_) id) (fun _ => hnext b) a
  cases next <;> exact h

theorem onReader (hv : ∀ c r, v { c with reader := r } = v c) (x : Scan α) :
    Fixes v (onReader x) := by
  intro b c hc
  simp only [TextCursor.onReader]
  split
  case h_1 => exact .ok ((hv c _).trans hc)
  case h_2 => exact .error ((hv c _).trans hc)

end Fixes

-- A view that shows nothing of what is read of a string.
structure Aside {γ : Type} (v : TextCursor → γ) : Prop where
  reader (c : TextCursor) (r : Reader) : v { c with reader := r } = v c
  scratch (c : TextCursor) (s : String) : v { c with scratch := s } = v c

section Strings

variable {γ : Type} {v : TextCursor → γ} (hv : Aside v)
include hv

theorem stringEscape_fixes : Fixes v stringEscape :=
  (Fixes.onReader hv.reader _).bind fun _ => .change fun _ => hv.scratch _ _

theorem stringPartEnd_fixes : Fixes v stringPartEnd := by
  refine (Fixes.onReader hv.reader _).bind fun b => ?_
  split
  case isTrue => exact (Fixes.onReader hv.reader _).bind fun _ => .pure _
  case isFalse =>
    split
    · exact .pure _
    · exact .onReader hv.reader _

theorem stringPart_fixes (start : Nat) (u : Unit) : Fixes v (stringPart start u) := by
  refine (Fixes.onReader hv.reader _).bind fun plain => ?_
  cases Utf8.decode? plain
  case none => exact .fail _
  case some => exact Fixes.bind (.change fun _ => hv.scratch _ _) fun _ => stringPartEnd_fixes hv

theorem readString_fixes : Fixes v readString :=
  (Fixes.onReader hv.reader _).bind fun start => (Fixes.onReader hv.reader _).bind fun _ =>
    Fixes.bind (.change fun _ => hv.scratch _ _) fun _ =>
      .loop (stringEscape_fixes hv) (stringPart_fixes hv start) ()

end Strings

-- The step goes from a place on to some other one. If it fails, nothing has changed of the place.
def Goes (p : Place) (x : Step Unit) (Q : Place → Prop) : Prop :=
  x.Meets (·.place = p) (fun _ c => Q c.place) fun _ c => c.place = p

-- Nothing changes of the place.
abbrev Stays {α : Type} (x : Step α) : Prop :=
  Fixes place x

variable {p : Place} {Q R : Place → Prop}

theorem Stays.onReader {α : Type} (x : Scan α) : Stays (onReader x) :=
  Fixes.onReader (fun _ _ => rfl) x

theorem readString_stays : Stays readString :=
  readString_fixes ⟨fun _ _ => rfl, fun _ _ => rfl⟩

namespace Goes

theorem imp {x : Step Unit} (h : Goes p x Q) (hq : ∀ {q}, Q q → R q) : Goes p x R :=
  Meets.imp h id hq id

-- A step that stays may come first.
theorem after {α : Type} {x : Step α} {f : α → Step Unit} (hx : Stays x)
    (hf : ∀ a, Goes p (f a) Q) : Goes p (x >>= f) Q :=
  (hx p).bind hf

theorem fail (e : CursorError) : Goes p (Forward.fail e) Q :=
  fun _ hc => .error hc

theorem unexpected (wanted : Wanted) : Goes p (unexpected wanted) Q :=
  fun _ hc => .error hc

end Goes

theorem openContainer_goes (container : Container) (kind : TokenKind) (expect : Expect) :
    Goes p (openContainer container kind expect) (· = ⟨kind, expect, container :: p.stack⟩) := by
  refine .after (.onReader _) fun _ c hc => ?_
  subst hc
  exact .ok rfl

theorem closeContainer_goes (kind : TokenKind) :
    Goes p (closeContainer kind) (· = ⟨kind, .after p.stack.tail, p.stack.tail⟩) := by
  refine .after (.change fun _ => rfl) fun _ => .after (.onReader _) fun _ c hc => ?_
  subst hc
  exact .ok rfl

-- A scalar is complete.
theorem scalar_goes {kind : TokenKind}
    (hk : kind ∈ [.string, .integer, .float, .boolTrue, .boolFalse, .null]) :
    Goes p (setKind kind >>= fun _ => afterValue) (Place.Begins p.stack) := by
  intro c hc
  subst hc
  exact .ok (.scalar hk)

theorem number_answers :
    (onReader Scan.number).Answers fun kind => kind = .integer ∨ kind = .float := by
  have kind (hasFraction hasExponent : Bool) :
      (if hasFraction || hasExponent then TokenKind.float else .integer) = .integer ∨
        (if hasFraction || hasExponent then TokenKind.float else .integer) = .float := by
    split <;> simp
  have number : Scan.number.Answers fun kind => kind = .integer ∨ kind = .float := by
    refine .after fun start => .after fun b => ?_
    split
    · exact .after fun _ => .after fun _ => .after fun _ => .after fun _ => .pure (kind ..)
    · exact .after fun _ => .after fun _ => .after fun _ => .pure (kind ..)
  intro _ _ _ h
  have ⟨_, hr, _⟩ := onReader_ok h
  exact number hr

theorem readNumber_goes : Goes p readNumber (Place.Begins p.stack) := by
  refine ((Stays.onReader Scan.number p).and_answers number_answers).bind fun kind c ⟨hk, hc⟩ => ?_
  have scalar : kind ∈ [.string, .integer, .float, .boolTrue, .boolFalse, .null] := by
    rcases hk with rfl | rfl <;> simp
  refine Goes.after (.change ?_) (fun _ => scalar_goes scalar) hc
  exact fun _ => rfl

theorem readLiteral_goes (word : String) {kind : TokenKind}
    (hk : kind ∈ [.string, .integer, .float, .boolTrue, .boolFalse, .null]) :
    Goes p (readLiteral word kind) (Place.Begins p.stack) :=
  .after (.onReader _) fun _ => scalar_goes hk

theorem readValue_goes : Goes p readValue (Place.Begins p.stack) := by
  refine .after (.change fun _ => rfl) fun _ => .after (.onReader _) fun b => ?_
  split
  case isTrue => exact (openContainer_goes ..).imp fun hq => hq ▸ .object
  split
  case isTrue => exact (openContainer_goes ..).imp fun hq => hq ▸ .array
  split
  case isTrue => exact .after readString_stays fun _ => scalar_goes (by simp)
  split
  case isTrue => exact readNumber_goes
  split
  case isTrue => exact readLiteral_goes _ (by simp)
  split
  case isTrue => exact readLiteral_goes _ (by simp)
  split
  case isTrue  => exact readLiteral_goes _ (by simp)
  case isFalse => exact .unexpected _

theorem readKey_goes : Goes p readKey (· = ⟨.fieldName, .value, p.stack⟩) := by
  refine .after (.onReader _) fun b => ?_
  split
  case isFalse => exact .unexpected _
  case isTrue =>
    refine .after (.change fun _ => rfl) fun _ => .after readString_stays fun _ => ?_
    refine .after (.onReader _) fun _ => ?_
    refine .after (.onReader _) fun b => ?_
    split
    case isFalse => exact .unexpected _
    case isTrue =>
      refine .after (.onReader _) fun _ c hc => ?_
      subst hc
      exact .ok rfl

theorem arrayEnd_goes {stack : List Container} (hs : p.stack = .array :: stack)
    (he : p.expect = .valueOrEnd ∨ p.expect = .afterValue) :
    Goes p (closeContainer .arrayEnd) p.Moves := by
  have goes := closeContainer_goes (p := p) .arrayEnd
  rw [hs] at goes
  exact goes.imp fun hq => hq ▸ .arrayEnd he hs

theorem objectEnd_goes {stack : List Container} (hs : p.stack = .object :: stack)
    (he : p.expect = .keyOrEnd ∨ p.expect = .afterValue) :
    Goes p (closeContainer .objectEnd) p.Moves := by
  have goes := closeContainer_goes (p := p) .objectEnd
  rw [hs] at goes
  exact goes.imp fun hq => hq ▸ .objectEnd he hs

-- The cases are those of what the cursor expects.
theorem readNext_goes (hs : p.expect.Suits p.stack) :
    Goes p (readNext p.expect p.stack) p.Moves := by
  cases he : p.expect
  case value => exact readValue_goes.imp fun hq => .value he hq
  case valueOrEnd =>
    rw [he] at hs
    have ⟨stack, hs⟩ := List.head?_eq_some_iff.mp hs
    refine .after (.onReader _) fun b => ?_
    split
    case isTrue  => exact arrayEnd_goes hs (.inl he)
    case isFalse => exact readValue_goes.imp fun hq => .item (.inl he) hs hq
  case keyOrEnd =>
    rw [he] at hs
    have ⟨stack, hs⟩ := List.head?_eq_some_iff.mp hs
    refine .after (.onReader _) fun b => ?_
    split
    case isTrue  => exact objectEnd_goes hs (.inl he)
    case isFalse => exact readKey_goes.imp fun hq => hq ▸ .name (.inl he) hs
  case afterValue =>
    cases hs : p.stack
    case nil => exact .fail _
    case cons container stack =>
      cases container
      case object =>
        refine .after (.onReader _) fun b => ?_
        split
        case isTrue =>
          refine .after (.onReader _) fun _ => .after (.onReader _) fun _ => ?_
          exact readKey_goes.imp fun hq => hq ▸ .name (.inr he) hs
        split
        case isTrue  => exact objectEnd_goes hs (.inr he)
        case isFalse => exact .unexpected _
      case array =>
        refine .after (.onReader _) fun b => ?_
        split
        case isTrue =>
          refine .after (.onReader _) fun _ => .after (.onReader _) fun _ => ?_
          exact readValue_goes.imp fun hq => .item (.inr he) hs hq
        split
        case isTrue  => exact arrayEnd_goes hs (.inr he)
        case isFalse => exact .unexpected _
  case done => exact .fail _

-- A step moves the cursor on by one token, or leaves it in its place.
theorem advance_goes (hs : p.expect.Suits p.stack) : Goes p advance p.Moves := by
  intro c hc
  rw [advance, run_bind_of_ok (run_look c)]
  split
  case isTrue  => exact .error hc
  case isFalse =>
    have goes : Goes p (skipBlank >>= fun _ => readNext p.expect p.stack) p.Moves :=
      .after (.onReader _) fun _ => readNext_goes hs
    subst hc
    exact goes rfl

end TextCursor
end RecordDecoding
