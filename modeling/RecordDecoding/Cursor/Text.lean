import RecordDecoding.Base64
import RecordDecoding.Cursor.Basic
import RecordDecoding.Cursor.Reader

namespace RecordDecoding

open Forward

inductive Container where
  | object
  | array
  deriving DecidableEq, Repr

inductive Expect where
  -- A value: the root, or what follows a colon.
  | value
  -- A value or the end of the array that was just opened.
  | valueOrEnd
  -- The name of a member or the end of the object that was just opened.
  | keyOrEnd
  -- A comma or the end of the innermost container.
  | afterValue
  -- Nothing: the root is complete.
  | done
  deriving DecidableEq, Repr

structure TextCursor where
  source : List UInt8
  reader : Reader
  kind : TokenKind
  -- The offset of the current token.
  start : Nat
  -- The text of the last string, as far as it was read.
  scratch : String
  -- The offset behind the last number.
  numberEnd : Nat
  stack : List Container
  expect : Expect
  isCancelled : Bool
  deriving DecidableEq, Repr

namespace TextCursor

instance : Readable TextCursor where
  left c := left c.reader

abbrev Step := Forward CursorError TextCursor

def onReader {α : Type} (x : Scan α) : Step α where
  run c := match x.run c.reader with
    | .ok a r => .ok a { c with reader := r }
    | .error e r => .error e { c with reader := r }
  run_le c := by
    have h := x.run_le c.reader
    split <;> simp_all [left]

theorem onReader_reads {α : Type} {x : Scan α} (hx : x.Reads) : (onReader x).Reads := by
  intro c a c' h
  simp only [onReader] at h
  split at h
  case h_1 h' =>
    cases h
    exact hx h'
  case h_2 => cases h

def peek : Step (Option UInt8) := onReader Scan.peek

def next : Step UInt8 := onReader Scan.next

theorem next_reads : next.Reads := onReader_reads Scan.next_reads

def skipBlank : Step Unit := onReader Scan.skipBlank

def unexpected {α : Type} (wanted : Wanted) : Step α := onReader (Scan.unexpected wanted)

theorem unexpected_reads {α : Type} (wanted : Wanted) : (unexpected (α := α) wanted).Reads :=
  onReader_reads (Scan.unexpected_reads wanted)

-- The token to come starts here.
def markStart : Step Unit := change fun c => { c with start := c.reader.offset }

def setKind (kind : TokenKind) : Step Unit := change fun c => { c with kind := kind }

def expecting (expect : Expect) : Step Unit := change fun c => { c with expect := expect }

-- A value is complete, and with it the root if no container is open.
def afterValue : Step Unit :=
  change fun c => { c with expect := if c.stack.isEmpty then .done else .afterValue }

def appendText (s : String) : Step Unit := change fun c => { c with scratch := c.scratch ++ s }

def openContainer (container : Container) (kind : TokenKind) (expect : Expect) : Step Unit := do
  let _ ← next
  change fun c => { c with stack := container :: c.stack }
  setKind kind
  expecting expect

def closeContainer (kind : TokenKind) : Step Unit := do
  markStart
  let _ ← next
  change fun c => { c with stack := c.stack.tail }
  setKind kind
  afterValue

-- Adds the bytes that stand for themselves, and sees whether the string ends here.
def stringPart (start : Nat) (_ : Unit) : Step (Unit ⊕ Unit) := do
  let plain ← onReader (Scan.takeWhile Scan.isPlain)
  match Utf8.decode? plain with
  | none => fail (.invalidUtf8 start)
  | some s => appendText s
  let b ← peek
  if b = some (ascii '"') then
    let _ ← next
    return .inr ()
  else if b = some (ascii '\\') then return .inl ()
  else unexpected .stringCharacter

def stringEscape : Step Unit := do
  let c ← onReader Scan.escape
  appendText (String.singleton c)

theorem stringEscape_reads : stringEscape.Reads :=
  Reads.bind_left (onReader_reads Scan.escape_reads) _

-- A string, from its opening quote on.
def readString : Step Unit := do
  let start ← onReader Scan.offset
  let _ ← next
  change fun c => { c with scratch := "" }
  loop stringEscape stringEscape_reads (stringPart start) ()

theorem readString_reads : readString.Reads :=
  Reads.bind_right _ fun _ => Reads.bind_left next_reads _

def readKey : Step Unit := do
  if (← peek) = some (ascii '"') then
    markStart
    readString
    skipBlank
    if (← peek) = some (ascii ':') then
      let _ ← next
      setKind .fieldName
      expecting .value
    else unexpected .colon
  else unexpected .quote

def readNumber : Step Unit := do
  let kind ← onReader Scan.number
  change fun c => { c with numberEnd := c.reader.offset }
  setKind kind
  afterValue

def readLiteral (word : String) (kind : TokenKind) : Step Unit := do
  onReader (Scan.literal (word.toList.map ascii))
  setKind kind
  afterValue

def readValue : Step Unit := do
  markStart
  let b ← peek
  if b = some (ascii '\x7b') then openContainer .object .objectStart .keyOrEnd
  else if b = some (ascii '[') then openContainer .array .arrayStart .valueOrEnd
  else if b = some (ascii '"') then
    readString
    setKind .string
    afterValue
  else if b = some (ascii '-') ∨ b.any Ascii.isDigit then readNumber
  else if b = some (ascii 't') then readLiteral "true" .boolTrue
  else if b = some (ascii 'f') then readLiteral "false" .boolFalse
  else if b = some (ascii 'n') then readLiteral "null" .null
  else unexpected .value

-- After a value inside an object.
def nextMember : Step Unit := do
  let b ← peek
  if b = some (ascii ',') then
    let _ ← next
    skipBlank
    readKey
  else if b = some (ascii '\x7d') then closeContainer .objectEnd
  else unexpected .commaOrBrace

-- After a value inside an array.
def nextItem : Step Unit := do
  let b ← peek
  if b = some (ascii ',') then
    let _ ← next
    skipBlank
    readValue
  else if b = some (ascii ']') then closeContainer .arrayEnd
  else unexpected .commaOrBracket

def readNext (expect : Expect) (stack : List Container) : Step Unit := do
  match expect, stack with
  | .done, _ => fail .exhausted
  | .value, _ => readValue
  | .valueOrEnd, _ =>
    if (← peek) = some (ascii ']') then closeContainer .arrayEnd else readValue
  | .keyOrEnd, _ =>
    if (← peek) = some (ascii '\x7d') then closeContainer .objectEnd else readKey
  | .afterValue, .object :: _ => nextMember
  | .afterValue, .array :: _ => nextItem
  | .afterValue, [] => fail .exhausted

def advance : Step Unit := do
  let c ← look
  if c.isCancelled then fail .cancelled
  else
    skipBlank
    readNext c.expect c.stack

theorem openContainer_reads (container : Container) (kind : TokenKind) (expect : Expect) :
    (openContainer container kind expect).Reads :=
  Reads.bind_left next_reads _

theorem closeContainer_reads (kind : TokenKind) : (closeContainer kind).Reads :=
  Reads.bind_right _ fun _ => Reads.bind_left next_reads _

theorem readKey_reads : readKey.Reads := by
  refine Reads.bind_right _ fun b => ?_
  split
  · exact Reads.bind_right _ fun _ => Reads.bind_left readString_reads _
  · exact unexpected_reads _

theorem readLiteral_reads (word : String) (kind : TokenKind) : (readLiteral word kind).Reads :=
  Reads.bind_left (onReader_reads (Scan.literal_reads _)) _

theorem readValue_reads : readValue.Reads := by
  refine Reads.bind_right _ fun _ => Reads.bind_right _ fun b => ?_
  repeat' split
  · exact openContainer_reads ..
  · exact openContainer_reads ..
  · exact Reads.bind_left readString_reads _
  · exact Reads.bind_left (onReader_reads Scan.number_reads) _
  · exact readLiteral_reads ..
  · exact readLiteral_reads ..
  · exact readLiteral_reads ..
  · exact unexpected_reads _

theorem nextMember_reads : nextMember.Reads := by
  refine Reads.bind_right _ fun b => ?_
  repeat' split
  · exact Reads.bind_left next_reads _
  · exact closeContainer_reads _
  · exact unexpected_reads _

theorem nextItem_reads : nextItem.Reads := by
  refine Reads.bind_right _ fun b => ?_
  repeat' split
  · exact Reads.bind_left next_reads _
  · exact closeContainer_reads _
  · exact unexpected_reads _

theorem readNext_reads (expect : Expect) (stack : List Container) :
    (readNext expect stack).Reads := by
  unfold readNext
  split
  · exact Reads.fail _
  · exact readValue_reads
  · refine Reads.bind_right _ fun _ => ?_
    split
    · exact closeContainer_reads _
    · exact readValue_reads
  · refine Reads.bind_right _ fun _ => ?_
    split
    · exact closeContainer_reads _
    · exact readKey_reads
  · exact nextMember_reads
  · exact nextItem_reads
  · exact Reads.fail _

theorem advance_reads : advance.Reads := by
  refine Reads.bind_right _ fun c => ?_
  split
  · exact Reads.fail _
  · exact Reads.bind_right _ fun _ => readNext_reads _ _

-- Before the first token.
def initial (source : List UInt8) : TextCursor where
  source := source
  reader := ⟨0, source⟩
  kind := .null
  start := 0
  scratch := ""
  numberEnd := 0
  stack := []
  expect := .value
  isCancelled := false

-- A cursor on the first token of a text.
def ofBytes (source : List UInt8) : Except CursorError TextCursor :=
  match advance.run (initial source) with
  | .ok _ c => .ok c
  | .error e _ => .error e

-- Whether the root value has been read.
def isComplete (c : TextCursor) : Bool :=
  c.expect = .done

def depth (c : TextCursor) : Nat :=
  c.stack.length

-- Checks that the root value is complete and that only blanks follow it.
def finish : Step Unit := do
  let c ← look
  if c.isComplete then
    skipBlank
    let r ← onReader look
    if r.ahead.isEmpty then return () else fail (.trailingData r.offset)
  else fail (.unexpectedEof c.reader.stop)

-- The text of the current number, from its start to its end.
def lexeme (c : TextCursor) : Except CursorError String :=
  if c.start ≤ c.numberEnd then
    .ok (Ascii.text ((c.source.drop c.start).take (c.numberEnd - c.start)))
  else .error (.lexemeLost c.start c.numberEnd)

def fieldName (c : TextCursor) : Except CursorError MemberName := do
  CursorError.expectKind .fieldName c.kind
  return .fresh c.scratch

def text (c : TextCursor) : Except CursorError String := do
  CursorError.expectKind .string c.kind
  return c.scratch

def int (c : TextCursor) : Except CursorError Int64 := do
  CursorError.expectKind .integer c.kind
  (readInt64? (← c.lexeme)).elim (.error (.numberOutOfRange c.start)) .ok

def numberText (c : TextCursor) : Except CursorError String :=
  if c.kind = .integer ∨ c.kind = .float then c.lexeme
  else .error (.wrongToken .integer c.kind)

def float (c : TextCursor) : Except CursorError Double := do
  match Binary.read? (← c.numberText) with
  | none => .error (.invalidNumber c.start)
  | some x => if x.isInfinite then .error (.numberOutOfRange c.start) else return x

def binary (c : TextCursor) : Except CursorError (List UInt8) := do
  CursorError.expectKind .string c.kind
  (Base64.decode? c.scratch).elim (.error (.invalidBase64 c.start)) .ok

def position (c : TextCursor) : Position :=
  .of c.source c.start

instance : Cursor TextCursor where
  kind := kind
  advance := advance
  advance_reads := advance_reads
  fieldName := fieldName
  text := text
  int := int
  numberText := numberText
  float := float
  binary := binary
  position c := some c.position

-- The cursor on each token of a text in turn, for a text that is one value and nothing else.
def all (source : List UInt8) : Except CursorError (List TextCursor) := do
  let first ← ofBytes source
  match (readAll.run first) with
  | .ok cursors _ => return cursors
  | .error e _ => .error e
where
  readAll : Step (List TextCursor) := do
    let cursors ← loop advance advance_reads collect []
    finish
    return cursors
  collect (seen : List TextCursor) : Step (List TextCursor ⊕ List TextCursor) := do
    let c ← look
    return if c.isComplete then .inr (c :: seen).reverse else .inl (c :: seen)

end TextCursor

end RecordDecoding
