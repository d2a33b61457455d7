import RecordDecoding.Proofs.Json.Bounds
import RecordDecoding.Proofs.Json.Walking

namespace RecordDecoding

open Forward Json

-- What the text of a token starts with.
def TokenKind.Heads (bytes : List UInt8) : TokenKind → Prop
  | objectStart        => plain "\x7b".toList <+: bytes
  | objectEnd          => plain "\x7d".toList <+: bytes
  | arrayStart         => plain "[".toList <+: bytes
  | arrayEnd           => plain "]".toList <+: bytes
  | fieldName | string => plain "\"".toList <+: bytes
  | integer | float    => ∃ cs, Numeral.IsNumber cs ∧ plain cs <+: bytes
  | boolTrue           => plain "true".toList <+: bytes
  | boolFalse          => plain "false".toList <+: bytes
  | null               => plain "null".toList <+: bytes

-- The tokens whose text is quoted.
def TokenKind.IsQuoted (k : TokenKind) : Prop :=
  k = .fieldName ∨ k = .string

instance (k : TokenKind) : Decidable k.IsQuoted :=
  inferInstanceAs (Decidable (_ ∨ _))

namespace TextCursor

variable {c c' : TextCursor} {r : Reader} {e : CursorError}

-- What is ahead of a reader starts with the token that the cursor is on. If the token is a number,
-- then the cursor goes on right behind it.
structure Spells (r : Reader) (c : TextCursor) : Prop where
  heads : c.kind.Heads r.ahead
  number : c.kind.IsNumber → c.numberEnd = c.reader.offset ∧
    ∃ cs, Numeral.IsNumber cs ∧ r.ahead = plain cs ++ c.reader.ahead ∧
      (c.kind = .integer ∧ Numeral.IsInteger cs ∨ c.kind = .float ∧ ¬Numeral.IsInteger cs)
  quoted : c.kind.IsQuoted → ∃ text, StringSpelling c.scratch text ∧ text <+: r.ahead

theorem spells_of_kind {kind : TokenKind} (hc : c.kind = kind)
    (hk : ¬kind.IsNumber ∧ ¬kind.IsQuoted) (heads : kind.Heads r.ahead) : c.Spells r where
  heads := hc ▸ heads
  number := fun number => absurd (hc ▸ number) hk.1
  quoted := fun quoted => absurd (hc ▸ quoted) hk.2

theorem spells_of_string {kind : TokenKind} {text : List UInt8} (hc : c.kind = kind)
    (hk : kind.IsQuoted) (spelling : StringSpelling c.scratch text) (hp : text <+: r.ahead) :
    c.Spells r where
  heads := by
    have quote : plain "\"".toList <+: text := by
      cases spelling
      exact ⟨_, rfl⟩
    rcases hk with rfl | rfl <;> exact hc ▸ quote.trans hp
  number := fun number => by
    rcases hk with rfl | rfl <;> exact absurd (hc ▸ number) (by decide)
  quoted := fun _ => ⟨text, spelling, hp⟩

-- The cursor is on a token that starts where this reader is.
structure StartsAt (r : Reader) (c : TextCursor) : Prop extends c.Spells r where
  start : c.start = r.offset
  reads : left c < left r

section Steps

variable {kind : TokenKind} {b : UInt8}

theorem prefix_of_head? (hb : r.ahead.head? = some b) : [b] <+: r.ahead := by
  have ⟨rest, ha⟩ := List.head?_eq_some_iff.mp hb
  exact ⟨rest, ha.symm⟩

theorem openContainer_kind {container : Container} {expect : Expect}
    (h : (openContainer container kind expect).run c = .ok () c') : c'.kind = kind := by
  have ⟨_, _, _, h⟩ := exists_of_bind_ok h
  cases h
  rfl

theorem scalar_kind (h : (setKind kind >>= fun _ => afterValue).run c = .ok () c') :
    c'.kind = kind := by
  cases h
  rfl

theorem readLiteral_heads {word : String} (hw : word.toList ≠ [])
    (h : (readLiteral word kind).run c = .ok () c') :
    c'.kind = kind ∧ plain word.toList <+: c.reader.ahead := by
  have ⟨_, _, hrun, h⟩ := exists_of_bind_ok h
  have ⟨r, hr, _⟩ := onReader_ok hrun
  have ahead := Scan.literal_ok (by simpa using hw) hr
  exact ⟨scalar_kind h, r.ahead, ahead.symm⟩

theorem readNumber_spells (h : readNumber.run c = .ok () c') : c'.Spells c.reader := by
  have ⟨kind, _, hrun, h⟩ := exists_of_bind_ok h
  have ⟨r, hr, hc⟩ := onReader_ok hrun
  have ⟨cs, hn, ahead, hk⟩ := Scan.number_tells hr
  have unquoted : ¬kind.IsQuoted := by rcases hk with ⟨rfl, _⟩ | ⟨rfl, _⟩ <;> decide
  cases h
  refine ⟨?_, fun _ => ⟨rfl, cs, hn, by rw [ahead, hc], hk⟩, fun hq => absurd hq unquoted⟩
  rcases hk with ⟨rfl, _⟩ | ⟨rfl, _⟩ <;> exact ⟨cs, hn, r.ahead, ahead.symm⟩

theorem readValueFrom_spells (h : (readValueFrom c.reader.ahead.head?).run c = .ok () c') :
    c'.Spells c.reader := by
  rw [readValueFrom] at h
  split at h
  case isTrue hb => exact spells_of_kind (openContainer_kind h) (by decide) (prefix_of_head? hb)
  split at h
  case isTrue hb => exact spells_of_kind (openContainer_kind h) (by decide) (prefix_of_head? hb)
  split at h
  case isTrue hb =>
    obtain ⟨_, _, hrun, h⟩ := exists_of_bind_ok h
    obtain ⟨s, text, r, spelling, ahead, hc⟩ := readString_spells hrun hb
    have quoted : TokenKind.string.IsQuoted := .inr rfl
    subst hc
    cases h
    exact spells_of_string rfl quoted spelling ⟨r.ahead, ahead.symm⟩
  split at h
  case isTrue => exact readNumber_spells h
  split at h
  case isTrue =>
    obtain ⟨kind, heads⟩ := readLiteral_heads (by decide) h
    exact spells_of_kind kind (by decide) heads
  split at h
  case isTrue =>
    obtain ⟨kind, heads⟩ := readLiteral_heads (by decide) h
    exact spells_of_kind kind (by decide) heads
  split at h
  case isTrue =>
    obtain ⟨kind, heads⟩ := readLiteral_heads (by decide) h
    exact spells_of_kind kind (by decide) heads
  case isFalse => cases h

end Steps

-- Nothing is done to the start of a token that the cursor has come to.
theorem aside_start : Aside start where
  reader _ _ := rfl
  scratch _ _ := rfl

theorem scalar_fixes_start (kind : TokenKind) :
    Fixes start (setKind kind >>= fun _ => afterValue) :=
  Fixes.bind (.change fun _ => rfl) fun _ => .change fun _ => rfl

theorem reader_fixes_start {α : Type} (x : Scan α) : Fixes start (onReader x) :=
  .onReader (fun _ _ => rfl) x

theorem readValueFrom_fixes_start (b : Option UInt8) : Fixes start (readValueFrom b) := by
  have opens (container : Container) (kind : TokenKind) (expect : Expect) :
      Fixes start (openContainer container kind expect) :=
    (reader_fixes_start _).bind fun _ => Fixes.bind (.change fun _ => rfl) fun _ =>
      Fixes.bind (.change fun _ => rfl) fun _ => .change fun _ => rfl
  have literal (word : String) (kind : TokenKind) : Fixes start (readLiteral word kind) :=
    (reader_fixes_start _).bind fun _ => scalar_fixes_start kind
  unfold readValueFrom
  split
  case isTrue => exact opens _ _ _
  split
  case isTrue => exact opens _ _ _
  split
  case isTrue => exact (readString_fixes aside_start).bind fun _ => scalar_fixes_start _
  split
  case isTrue =>
    exact (reader_fixes_start _).bind fun _ => Fixes.bind (.change fun _ => rfl) fun _ =>
      scalar_fixes_start _
  split
  case isTrue => exact literal _ _
  split
  case isTrue => exact literal _ _
  split
  case isTrue  => exact literal _ _
  case isFalse => exact reader_fixes_start _

theorem readValue_start : (readValue.run c).state.start = c.reader.offset := by
  have fixed := readValueFrom_fixes_start c.reader.ahead.head? c.reader.offset
  exact fixed.state (s := { c with start := c.reader.offset }) rfl

theorem readValue_startsAt (h : readValue.run c = .ok () c') : c'.StartsAt c.reader where
  toSpells := readValueFrom_spells (c := { c with start := c.reader.offset }) h
  start := by
    have := readValue_start (c := c)
    rwa [h] at this
  reads := readValue_reads h

-- A name from its opening quote on, and the colon behind it.
def readKeyFrom : Step Unit := do
  readString
  skipBlank
  if (← peek) = some (ascii ':') then
    let _ ← next
    setKind .fieldName
    expecting .value
  else unexpected .colon

theorem run_readKey (c : TextCursor) : readKey.run c =
    if c.reader.ahead.head? = some (ascii '"') then
      readKeyFrom.run { c with start := c.reader.offset }
    else .error (c.reader.unexpected .quote) c := by
  rw [readKey, run_bind_of_ok (run_peek c)]
  split <;> rfl

theorem readKeyFrom_fixes_start : Fixes start readKeyFrom := by
  refine (readString_fixes aside_start).bind fun _ => (reader_fixes_start _).bind fun _ =>
    (reader_fixes_start _).bind fun b => ?_
  split
  case isFalse => exact reader_fixes_start _
  case isTrue =>
    exact (reader_fixes_start _).bind fun _ => Fixes.bind (.change fun _ => rfl) fun _ =>
      .change fun _ => rfl

theorem readKeyFrom_spells (h : readKeyFrom.run c = .ok () c')
    (hb : c.reader.ahead.head? = some (ascii '"')) : c'.Spells c.reader := by
  have ⟨_, _, hrun, h⟩ := exists_of_bind_ok h
  have ⟨s, text, r, spelling, ahead, hc⟩ := readString_spells hrun hb
  have ⟨_, _, hrun, h⟩ := exists_of_bind_ok h
  have ⟨_, _, hc'⟩ := onReader_ok hrun
  subst hc hc'
  rw [run_bind_of_ok (run_peek _)] at h
  split at h
  case isFalse => cases h
  case isTrue =>
    have ⟨_, _, hrun, h⟩ := exists_of_bind_ok h
    have ⟨_, _, hc⟩ := onReader_ok hrun
    have quoted : TokenKind.fieldName.IsQuoted := .inl rfl
    subst hc
    cases h
    exact spells_of_string rfl quoted spelling ⟨r.ahead, ahead.symm⟩

end TextCursor

-- The reader at the token behind a comma.
def Reader.behindComma (r : Reader) : Reader :=
  (r.drop 1).dropWhile Ascii.isBlank

-- Whether a cursor that expects this comes to the start of a token, unless a container ends.
def Expect.Starts (r : Reader) : Expect → List Container → Prop
  | value, _ | valueOrEnd, _ => True
  | keyOrEnd, _              => r.ahead.head? = some (ascii '"')
  | afterValue, .object :: _ => r.ahead.head? = some (ascii ',') ∧
    r.behindComma.ahead.head? = some (ascii '"')
  | afterValue, .array :: _  => r.ahead.head? = some (ascii ',')
  | afterValue, [] | done, _ => False

namespace TextCursor

-- Whether the next advance comes to the start of a token, be it that it fails there.
def StartsNext (c : TextCursor) : Prop :=
  c.isCancelled = false ∧ c.expect.Starts (c.reader.dropWhile Ascii.isBlank) c.stack

-- The end of a step that was to move a cursor on. If it failed, it had come to the start of a
-- token; or none starts there, and nothing has changed but the reader.
def Tried (c₀ : TextCursor) (starts : Prop) (o : Outcome CursorError TextCursor Unit) : Prop :=
  o.Satisfies (fun _ c => ∃ r, r.Over c₀.source ∧ c₀.reader.offset ≤ r.offset ∧ c.StartsAt r)
    fun _ c => (starts → c₀.reader.offset ≤ c.start) ∧
      (¬starts → c = { c₀ with reader := c.reader })

variable {c₀ c : TextCursor} {r : Reader} {e : CursorError}

section Tried

theorem Tried.fail {starts : Prop} (none : ¬starts) : 
    Tried c₀ starts ((Forward.fail e : Step Unit).run { c₀ with reader := r }) :=
  .error ⟨fun h => absurd h none, fun _ => rfl⟩

variable (hr : r.Over c₀.source) (le : c₀.reader.offset ≤ r.offset)
include hr le

theorem readValue_tried : Tried c₀ True (readValue.run { c₀ with reader := r }) := by
  have start := readValue_start (c := { c₀ with reader := r })
  generalize ho : readValue.run _ = o at start
  cases o
  case ok    => exact .ok ⟨r, hr, le, readValue_startsAt ho⟩
  case error =>
    exact .error ⟨fun _ => Nat.le_trans le (Nat.le_of_eq start.symm), fun h => absurd trivial h⟩

theorem readKey_tried :
    Tried c₀ (r.ahead.head? = some (ascii '"')) (readKey.run { c₀ with reader := r }) := by
  have start := (readKeyFrom_fixes_start r.offset).state
    (s := { c₀ with reader := r, start := r.offset }) rfl
  have run := run_readKey { c₀ with reader := r }
  rw [run]
  split at run
  case isFalse hb => exact if_neg hb ▸ .error ⟨fun h => absurd h hb, fun _ => rfl⟩
  case isTrue hb =>
    rw [if_pos hb]
    generalize ho : readKeyFrom.run _ = o at start run
    cases o
    case error =>
      exact .error ⟨fun _ => Nat.le_trans le (Nat.le_of_eq start.symm), fun h => absurd hb h⟩
    case ok =>
      exact .ok ⟨r, hr, le, readKeyFrom_spells ho hb, start, readKey_reads run⟩

-- The byte of the end is there.
theorem closeContainer_tried {kind : TokenKind} {b : UInt8} (starts : Prop)
    (hb : r.ahead.head? = some b) (hk : ¬kind.IsNumber ∧ ¬kind.IsQuoted)
    (heads : kind.Heads r.ahead) :
    Tried c₀ starts ((closeContainer kind).run { c₀ with reader := r }) := by
  have ⟨rest, ha⟩ := List.head?_eq_some_iff.mp hb
  have hr₁ : r = ⟨r.offset, b :: rest⟩ := by rw [← ha]
  have hn : next.run { c₀ with reader := r, start := r.offset } = .ok b _ := run_next hr₁
  rw [closeContainer, run_bind_of_ok (a := ()) rfl, run_bind_of_ok hn]
  refine .ok ⟨r, hr, le, spells_of_kind rfl hk heads, rfl, ?_⟩
  show rest.length < r.ahead.length
  rw [ha, List.length_cons]
  exact Nat.lt_succ_self _

theorem comma_tried {P : Reader → Prop} {x : Step Unit} (hb : r.ahead.head? = some (ascii ','))
    (h : ∀ {r}, r.Over c₀.source → c₀.reader.offset ≤ r.offset →
      Tried c₀ (P r) (x.run { c₀ with reader := r })) :
    Tried c₀ (P r.behindComma)
      ((next >>= fun _ => skipBlank >>= fun _ => x).run { c₀ with reader := r }) := by
  have ⟨rest, ha⟩ := List.head?_eq_some_iff.mp hb
  have hr₁ : r = ⟨r.offset, ascii ',' :: rest⟩ := by rw [← ha]
  have hn : next.run { c₀ with reader := r } = .ok (ascii ',') { c₀ with reader := r.drop 1 } := by
    rw [run_next hr₁, Reader.drop, ha]
    rfl
  rw [run_bind_of_ok hn]
  have behind : (r.drop 1).Over c₀.source := hr.drop (by rw [ha]; exact Nat.le_add_left ..)
  refine h (behind.dropWhile _) (Nat.le_trans le ?_)
  exact Nat.le_trans (Nat.le_add_right ..) (Nat.le_add_right ..)

theorem nextMember_tried : Tried c₀ (r.ahead.head? = some (ascii ',') ∧
      r.behindComma.ahead.head? = some (ascii '"')) (nextMember.run { c₀ with reader := r }) := by
  rw [nextMember, run_bind_of_ok (run_peek _)]
  split
  case isTrue hb =>
    simp only [show r.ahead.head? = some (ascii ',') from hb, true_and]
    exact comma_tried hr le hb readKey_tried
  case isFalse hb =>
    split
    case isTrue hb' => exact closeContainer_tried hr le _ hb' (by decide) (prefix_of_head? hb')
    case isFalse    => exact .fail fun h => hb h.1

theorem nextItem_tried :
    Tried c₀ (r.ahead.head? = some (ascii ',')) (nextItem.run { c₀ with reader := r }) := by
  rw [nextItem, run_bind_of_ok (run_peek _)]
  split
  case isTrue hb =>
    simp only [show r.ahead.head? = some (ascii ',') from hb]
    exact comma_tried (P := fun _ => True) hr le hb readValue_tried
  case isFalse hb =>
    split
    case isTrue hb' => exact closeContainer_tried hr le _ hb' (by decide) (prefix_of_head? hb')
    case isFalse    => exact .fail hb

theorem readNext_tried (expect : Expect) (stack : List Container) :
    Tried c₀ (expect.Starts r stack) ((readNext expect stack).run { c₀ with reader := r }) := by
  cases expect
  case value => exact readValue_tried hr le
  case valueOrEnd =>
    rw [readNext, run_bind_of_ok (run_peek _)]
    split
    case isTrue hb => exact closeContainer_tried hr le _ hb (by decide) (prefix_of_head? hb)
    case isFalse   => exact readValue_tried hr le
  case keyOrEnd =>
    rw [readNext, run_bind_of_ok (run_peek _)]
    split
    case isTrue hb => exact closeContainer_tried hr le _ hb (by decide) (prefix_of_head? hb)
    case isFalse   => exact readKey_tried hr le
  case afterValue =>
    cases stack
    case nil => exact .fail id
    case cons container _ =>
      cases container
      case object => exact nextMember_tried hr le
      case array  => exact nextItem_tried hr le
  case done => exact .fail id

end Tried

theorem advance_tried (hr : c.reader.Over c.source) : Tried c c.StartsNext (advance.run c) := by
  rw [advance, run_bind_of_ok (run_look c)]
  split
  case isTrue hc  => exact .fail fun h => Bool.eq_false_iff.mp h.1 hc
  case isFalse hc =>
    rw [show c.StartsNext = _ from propext (and_iff_right (Bool.eq_false_iff.mpr hc))]
    exact readNext_tried (hr.dropWhile Ascii.isBlank) (Nat.le_add_right ..) c.expect c.stack

-- A cursor on a token that stands in the source.
structure Stands (c : TextCursor) : Prop where
  reader : c.reader.Over c.source
  start  : c.start < c.reader.offset
  heads  : c.kind.Heads (c.source.drop c.start)

theorem Arrived.stands (h : c₀.Arrived c) (hr : r.Over c₀.source) (hs : c.StartsAt r) :
    c.Stands where
  reader := h.rests.reader
  start  := by
    have before := hr.length
    have behind := h.rests.reader.length
    have reads : c.reader.ahead.length < r.ahead.length := hs.reads
    have start := hs.start
    rw [h.source] at behind
    omega
  heads  := by
    rw [h.source, hs.start, ← hr.ahead]
    exact hs.heads

theorem Arrived.exists_literal (h : c₀.Arrived c) (hr : r.Over c₀.source) (hs : c.StartsAt r)
    (hk : c.kind.IsNumber) : ∃ literal : String, c.lexeme = .ok literal ∧
      Numeral.IsNumber literal.toList ∧ plain literal.toList <+: r.ahead ∧
      (c.kind = .integer ∧ Numeral.IsInteger literal.toList ∨
        c.kind = .float ∧ ¬Numeral.IsInteger literal.toList) := by
  have ⟨stop, cs, hn, ahead, hi⟩ := hs.number hk
  rw [← String.toList_ofList (l := cs)] at hn ahead hi
  refine ⟨String.ofList cs, ?_, hn, ⟨_, ahead.symm⟩, hi⟩
  have before := hr.length
  have behind := h.rests.reader.length
  have drop : c.source.drop c.start = plain (String.ofList cs).toList ++ c.reader.ahead := by
    rw [h.source, hs.start, ← hr.ahead, ahead]
  refine lexeme_eq hn drop ?_
  rw [ahead, List.length_append, length_plain] at before
  rw [h.source] at behind
  rw [stop, hs.start]
  omega

-- The cursor shows the token that it is on as it is spelled ahead of the reader.
theorem Arrived.shows (h : c₀.Arrived c) (hr : r.Over c₀.source) (hs : c.StartsAt r) :
    ∃ l text, c.Shows l ∧ l.Spells text ∧ text <+: r.ahead := by
  have number (hk : c.kind.IsNumber) : ∃ l text, c.Shows l ∧ l.Spells text ∧ text <+: r.ahead := by
    have ⟨literal, hl, hn, spelled, hi⟩ := h.exists_literal hr hs hk
    exact ⟨.number literal, _, ⟨(if_pos hk).trans hl, hi⟩, ⟨hn, rfl⟩, spelled⟩
  have heads := hs.heads
  cases hk : c.kind <;> rw [hk] at heads
  case objectStart => exact ⟨.objectStart, _, hk, rfl, heads⟩
  case objectEnd   => exact ⟨.objectEnd, _, hk, rfl, heads⟩
  case arrayStart  => exact ⟨.arrayStart, _, hk, rfl, heads⟩
  case arrayEnd    => exact ⟨.arrayEnd, _, hk, rfl, heads⟩
  case boolTrue    => exact ⟨.bool .true, _, hk, rfl, heads⟩
  case boolFalse   => exact ⟨.bool .false, _, hk, rfl, heads⟩
  case null        => exact ⟨.null, _, hk, rfl, heads⟩
  case integer     => exact number (.inl hk)
  case float       => exact number (.inr hk)
  case fieldName =>
    have ⟨text, spelling, spelled⟩ := hs.quoted (.inl hk)
    have name : c.fieldName = .ok (.fresh c.scratch) := by rw [fieldName, hk]; rfl
    exact ⟨.name c.scratch, text, ⟨hk, name⟩, spelling, spelled⟩
  case string =>
    have ⟨text, spelling, spelled⟩ := hs.quoted (.inr hk)
    have string : c.text = .ok c.scratch := by rw [TextCursor.text, hk]; rfl
    exact ⟨.string c.scratch, text, ⟨hk, string⟩, spelling, spelled⟩

-- What is so of every cursor on a token of a source.
structure On (source : List UInt8) (c : TextCursor) : Prop where
  source : c.source = source
  rests  : c.Rests c.start
  stands : c.Stands
  shows  : ∃ l text, c.Shows l ∧ l.Spells text ∧ text <+: c.source.drop c.start

variable {source : List UInt8} {c' : TextCursor} {start : Nat}

-- The next token is not in front of what the cursor has read.
theorem on_of_advance (hs : c.source = source) (hr : c.Rests start)
    (h : advance.run c = .ok () c') : c'.On source ∧ c.reader.offset ≤ c'.start := by
  have comes := advance_comes hr
  have tried := advance_tried hr.reader
  rw [h] at comes tried
  cases comes
  case ok arrived =>
    cases tried
    case ok starts =>
      have ⟨r, hr, le, startsAt⟩ := starts
      have ⟨l, text, shows, spells, spelled⟩ := arrived.shows hr startsAt
      rw [hr.ahead, ← arrived.source, ← startsAt.start] at spelled
      rw [← startsAt.start] at le
      exact ⟨⟨arrived.source.trans hs, arrived.rests, arrived.stands hr startsAt, l, text, shows,
        spells, spelled⟩, le⟩

theorem on_of_ofBytes (h : ofBytes source = .ok c) : c.On source :=
  (on_of_advance rfl (rests_initial source) (ofBytes_eq_ok_iff.mp h)).1

theorem On.trail {stack : List Container} (h : c.On source) (trail : Trail stack c c') :
    c'.On source := by
  induction trail
  case refl            => exact h
  case tail _ step ih => exact (on_of_advance ih.source ih.rests step.2).1

-- A cursor that has come to a number gives it as it is written.
theorem exists_numberText (first : ofBytes source = .ok c₀) (trail : Trail [] c₀ c)
    (hk : c.kind.IsNumber) :
    ∃ literal : String, c.numberText = .ok literal ∧ Numeral.IsNumber literal.toList := by
  have ⟨l, text, shows, spells, _⟩ := ((on_of_ofBytes first).trail trail).shows
  rw [shows.kind_eq] at hk
  cases l
  case number literal => exact ⟨literal, shows.1, spells.1⟩
  case bool b         => cases b <;> exact absurd hk (by decide)
  all_goals rcases hk with hk | hk <;> cases hk

-- All that a cursor answers when it is asked.
structure Sight where
  kind : TokenKind
  fieldName : Except CursorError MemberName
  text : Except CursorError String
  int : Except CursorError Int64
  numberText : Except CursorError String
  float : Except CursorError Double
  binary : Except CursorError (List UInt8)
  position : Position
  depth : Nat
  isComplete : Bool

def sight (c : TextCursor) : Sight where
  kind := c.kind
  fieldName := c.fieldName
  text := c.text
  int := c.int
  numberText := c.numberText
  float := c.float
  binary := c.binary
  position := c.position
  depth := c.depth
  isComplete := c.isComplete

theorem On.suits (first : ofBytes source = .ok c₀) (trail : Trail [] c₀ c) :
    c.expect.Suits c.stack :=
  Reached.suits (.head ⟨List.nil_suffix, ofBytes_eq_ok_iff.mp first⟩ trail)

-- An advance that fails leaves the kind of the token and the containers as they were. It leaves all
-- answers as they were, unless it came to the start of another token, for then it is there that the
-- cursor says its token is.
theorem sight_of_advance_error (first : ofBytes source = .ok c₀) (trail : Trail [] c₀ c)
    (cancelled : Bool)
    (failed : advance.run { c with isCancelled := cancelled } = .error e c') :
    c'.kind = c.kind ∧ c'.depth = c.depth ∧ c'.isComplete = c.isComplete ∧
      (¬StartsNext { c with isCancelled := cancelled } → c'.sight = c.sight) ∧
      (StartsNext { c with isCancelled := cancelled } →
        c.position.offset < c'.position.offset) := by
  have on := (on_of_ofBytes first).trail trail
  have goes := advance_goes (p := c.place) (On.suits first trail)
    (s := { c with isCancelled := cancelled }) rfl
  have tried := advance_tried (c := { c with isCancelled := cancelled }) on.stands.reader
  rw [failed] at goes tried
  cases goes
  case error place =>
    cases tried
    case error starts =>
      refine ⟨congrArg Place.kind place, congrArg (·.stack.length) place, ?_, fun none => ?_, ?_⟩
      · exact congrArg (fun p : Place => decide (p.expect = .done)) place
      · rw [starts.2 none]
        rfl
      · exact fun comes => Nat.lt_of_lt_of_le on.stands.start (starts.1 comes)

-- Where a comma is missing, the cursor still says of the first item what it said before.
theorem sight_of_advance_error_comma :
    let source := plain "[1 x".toList
    let c₀ : TextCursor := {
      source, reader := ⟨1, plain "1 x".toList⟩, kind := .arrayStart, start := 0,
      scratch := "", numberEnd := 0, stack := [.array], expect := .valueOrEnd,
      isCancelled := false }
    let c : TextCursor := { c₀ with
      reader := ⟨2, plain " x".toList⟩, kind := .integer, start := 1, numberEnd := 2,
      expect := .afterValue }
    let e : CursorError := .unexpectedByte (ascii 'x') 3 .commaOrBracket
    let c' : TextCursor := { c with reader := ⟨3, plain "x".toList⟩ }
    ofBytes source = .ok c₀ ∧ Trail [] c₀ c ∧ advance.run c = .error e c' ∧
      c'.kind = c.kind ∧ c'.depth = c.depth ∧ c'.isComplete = c.isComplete ∧
      (¬StartsNext c → c'.sight = c.sight) ∧
      (StartsNext c → c.position.offset < c'.position.offset) := by
  intro source c₀ c e c'
  have first : ofBytes source = .ok c₀ := by rfl
  have trail : Trail [] c₀ c := .single ⟨List.nil_suffix, by rfl⟩
  have failed : advance.run c = .error e c' := by rfl
  exact ⟨first, trail, failed, sight_of_advance_error first trail false failed⟩

-- The second item ends before its closing quote. The cursor is still on the first one, but says
-- that it starts where the second one does, and gives the text of the second one for it.
theorem text_overwritten :
    ∃ c, ofBytes (plain "[\"ab\",\"cd".toList) = .ok c ∧
      let first := [Call.advance].foldl Call.on c
      let failed := [Call.advance, .advance].foldl Call.on c
      advance.run c = .ok () first ∧ advance.run first = .error (.unexpectedEof 9) failed ∧
        first.text = .ok "ab" ∧ first.position = ⟨1, 1, 2⟩ ∧ failed.kind = .string ∧
        failed.text = .ok "cd" ∧ failed.position = ⟨6, 1, 7⟩ := by
  refine ⟨_, rfl, ?_⟩
  decide +kernel

end TextCursor
end RecordDecoding
