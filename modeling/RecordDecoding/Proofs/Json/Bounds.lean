import RecordDecoding.Proofs.Json.Calls

namespace RecordDecoding

open Forward

-- A reader of what is left of a source. In particular, no scanner went past the end of it.
structure Reader.Over (source : List UInt8) (r : Reader) : Prop where
  offset : r.offset ≤ source.length
  ahead  : r.ahead = source.drop r.offset

namespace Reader.Over

variable {source : List UInt8} {r r' : Reader}

theorem length (h : r.Over source) : r.offset + r.ahead.length = source.length := by
  rw [h.ahead, List.length_drop]
  exact Nat.add_sub_of_le h.offset

-- Readers of a source that have less ahead are further on.
theorem offset_le (h : r.Over source) (h' : r'.Over source) (hl : left r' ≤ left r) :
    r.offset ≤ r'.offset := by
  have hl : r'.ahead.length ≤ r.ahead.length := hl
  have := h.length
  have := h'.length
  omega

theorem offset_lt (h : r.Over source) (h' : r'.Over source) (hl : left r' < left r) :
    r.offset < r'.offset := by
  have hl : r'.ahead.length < r.ahead.length := hl
  have := h.length
  have := h'.length
  omega

theorem drop {n : Nat} (h : r.Over source) (hn : n ≤ r.ahead.length) : (r.drop n).Over source where
  offset := by
    have := h.length
    simp only [Reader.drop]
    omega
  ahead := by
    rw [Reader.drop, h.ahead, List.drop_drop]

theorem dropWhile (h : r.Over source) (p : UInt8 → Bool) : (r.dropWhile p).Over source := by
  have hn : (r.ahead.takeWhile p).length ≤ r.ahead.length := (List.takeWhile_prefix p).length_le
  have hd : (r.ahead.takeWhile p ++ r.ahead.dropWhile p).drop (r.ahead.takeWhile p).length =
    r.ahead.dropWhile p := List.drop_left
  rw [List.takeWhile_append_dropWhile] at hd
  rw [Reader.dropWhile, ← hd]
  exact h.drop hn

end Reader.Over

namespace Scan

-- A scanner that fails may stop anywhere, but not behind the end of the source.
def Keeps {α : Type} (x : Scan α) : Prop :=
  ∀ source, x.Meets (Reader.Over source) (fun _ => Reader.Over source) fun _ => Reader.Over source

namespace Keeps

variable {α β : Type} {x : Scan α} {f : α → Scan β}

theorem pure (a : α) : Keeps (pure a) :=
  fun _ => .pure id

theorem fail (e : CursorError) : Keeps (Forward.fail e : Scan α) :=
  fun _ => .fail id

theorem bind (hx : Keeps x) (hf : ∀ a, Keeps (f a)) : Keeps (x >>= f) :=
  fun source => (hx source).bind fun a => hf a source

theorem view (g : Reader → α) : Keeps (Forward.view g) :=
  fun _ _ hr => .ok hr

-- A step that depends on what is ahead.
theorem look {f : Reader → Scan β}
    (h : ∀ source r, r.Over source → ((f r).run r).Satisfies (fun _ => Reader.Over source)
      fun _ => Reader.Over source) : Keeps (Forward.look >>= f) :=
  fun source r hr => h source r hr

end Keeps

theorem keeps_skipWhile (p : UInt8 → Bool) : Keeps (skipWhile p) :=
  fun _ => .change fun hr => hr.dropWhile p

theorem keeps_takeWhile (p : UInt8 → Bool) : Keeps (takeWhile p) :=
  (Keeps.view _).bind fun _ => (keeps_skipWhile p).bind fun _ => .pure _

theorem keeps_unexpected {α : Type} (wanted : Wanted) : Keeps (unexpected (α := α) wanted) :=
  .look fun _ _ hr => .error hr

theorem keeps_next : Keeps next := by
  rintro source ⟨o, ahead⟩ hr
  cases ahead
  case nil    => exact .error hr
  case cons b => exact .ok (hr.drop (n := 1) (by simp))

theorem keeps_skipDigits : Keeps skipDigits :=
  keeps_next.bind fun _ => keeps_skipWhile _

theorem keeps_skipDigits? (offset : Nat) : Keeps (skipDigits? offset) := by
  refine (Keeps.view _).bind fun b => ?_
  cases b
  case none => exact .fail _
  case some =>
    dsimp only
    split
    · exact keeps_skipDigits
    · exact .fail _

theorem keeps_wholePart (offset : Nat) : Keeps (wholePart offset) := by
  refine (Keeps.view _).bind fun b => ?_
  cases b
  case none => exact .fail _
  case some =>
    dsimp only
    split
    · exact keeps_next.bind fun _ => .pure _
    split
    · exact keeps_skipDigits
    · exact .fail _

-- A byte that was seen may be skipped.
theorem keeps_skip_head {α : Type} {f : Option UInt8 → Prop} [DecidablePred f] {x y : Scan α}
    (hf : ¬f none) (hx : Keeps x) (hy : Keeps y) :
    Keeps (peek >>= fun b => if f b then skip 1 >>= fun _ => x else y) := by
  intro source r hr
  rw [run_bind_of_ok (show peek.run r = .ok r.ahead.head? r from rfl)]
  split
  case isFalse => exact hy source hr
  case isTrue hb =>
    refine hx source (hr.drop ?_)
    cases ha : r.ahead
    case nil    => exact absurd (by simpa [ha] using hb) hf
    case cons _ => simp

theorem keeps_fraction (offset : Nat) : Keeps (fraction offset) :=
  keeps_skip_head nofun ((keeps_skipDigits? _).bind fun _ => .pure _) (.pure _)

theorem keeps_exponent (offset : Nat) : Keeps (exponent offset) := by
  have digits : Keeps (do skipDigits? offset; return true) :=
    (keeps_skipDigits? _).bind fun _ => .pure _
  exact keeps_skip_head (by simp) (keeps_skip_head (by simp) digits digits) (.pure _)

theorem keeps_number : Keeps number := by
  refine (Keeps.view _).bind fun start => ?_
  have parts : Keeps (do
      wholePart start
      let hasFraction ← fraction start
      let hasExponent ← exponent start
      return if hasFraction || hasExponent then TokenKind.float else .integer) :=
    (keeps_wholePart _).bind fun _ => (keeps_fraction _).bind fun _ =>
      (keeps_exponent _).bind fun _ => .pure _
  exact keeps_skip_head nofun parts parts

theorem keeps_literal (word : List UInt8) : Keeps (literal word) := by
  refine .look fun source r hr => ?_
  split
  case isTrue hp =>
    have hn : word.length ≤ r.ahead.length := (List.isPrefixOf_iff_prefix.mp hp).length_le
    obtain ⟨o, ahead⟩ := r
    cases ahead
    case nil => exact .error hr
    case cons b bytes =>
      have next := hr.drop (n := 1) (by simp)
      exact .ok (next.drop (n := word.length - 1) (by simp [Reader.drop] at hn ⊢; omega))
  case isFalse =>
    split
    · exact .error hr
    · exact keeps_unexpected _ source hr

theorem keeps_unit (start : Nat) : Keeps (unit start) := by
  refine .look fun source r hr => ?_
  obtain ⟨o, ahead⟩ := r
  dsimp only
  split
  case h_2 => exact .error hr
  case h_1 =>
    split
    case h_1 => exact .ok (hr.drop (by simp))
    case h_2 => exact .error hr

theorem keeps_unicode (start : Nat) : Keeps (unicode start) := by
  refine (keeps_unit start).bind fun high => ?_
  split
  case isFalse =>
    split
    · exact .fail _
    · exact .pure _
  case isTrue =>
    have low : Keeps (do
        let low ← unit start
        if isLowSurrogate low then
          return Char.ofNat (0x10000 + (high - 0xD800) * 0x400 + (low - 0xDC00))
        else Forward.fail (CursorError.invalidEscape start)) := by
      refine (keeps_unit start).bind fun low => ?_
      split
      · exact .pure _
      · exact .fail _
    refine .look fun source r hr => ?_
    split
    case isFalse => exact .error hr
    case isTrue hp =>
      have hn : 2 ≤ r.ahead.length := (List.isPrefixOf_iff_prefix.mp hp).length_le
      exact low source (hr.drop hn)

theorem keeps_escape : Keeps escape := by
  refine (Keeps.view _).bind fun start => keeps_next.bind fun _ => keeps_next.bind fun b => ?_
  cases shortEscape? b
  case some => exact .pure _
  case none =>
    dsimp only
    split
    · exact keeps_unicode start
    · exact .fail _

end Scan

def TokenKind.IsNumber (k : TokenKind) : Prop :=
  k = .integer ∨ k = .float

instance (k : TokenKind) : Decidable k.IsNumber :=
  inferInstanceAs (Decidable (_ ∨ _))

namespace TextCursor

variable {start low low' : Nat} {c c₀ : TextCursor}

-- A cursor on a token that starts there. If the token is a number, a later failure may have moved
-- the start on, and then behind the end of the number.
structure Rests (start : Nat) (c : TextCursor) : Prop where
  reader   : c.reader.Over c.source
  start_le : c.start ≤ c.reader.offset
  end_le   : c.numberEnd ≤ c.reader.offset
  number   : c.kind.IsNumber → start ≤ c.numberEnd ∧ (c.start = start ∨ c.numberEnd < c.start) ∧
    (c.expect = .afterValue ∨ c.expect = .done)

-- The cursor on its way from a token to the next one, at least at some offset. All that it says of
-- the token is the same, except the start if that has been moved on.
structure Since (c₀ : TextCursor) (low : Nat) (c : TextCursor) : Prop where
  source    : c.source = c₀.source
  reader    : c.reader.Over c.source
  low       : low ≤ c.reader.offset
  kind      : c.kind = c₀.kind
  expect    : c.expect = c₀.expect
  numberEnd : c.numberEnd = c₀.numberEnd
  start_le  : c.start ≤ c.reader.offset
  start     : c.start = c₀.start ∨ (c₀.kind.IsNumber → c₀.numberEnd < c.start)

-- The cursor on the next token.
structure Arrived (c₀ c : TextCursor) : Prop where
  source : c.source = c₀.source
  rests  : c.Rests c.start

theorem Rests.since (h : c.Rests start) : c.Since c.numberEnd c where
  source    := rfl
  reader    := h.reader
  low       := h.end_le
  kind      := rfl
  expect    := rfl
  numberEnd := rfl
  start_le  := h.start_le
  start     := .inl rfl

theorem Since.imp (h : c₀.Since low c) (hl : low' ≤ low) : c₀.Since low' c :=
  { h with low := Nat.le_trans hl h.low }

-- A cursor that could not move on is still on its token.
theorem Since.rests (h : c₀.Since c₀.numberEnd c) (h₀ : c₀.Rests start) : c.Rests start where
  reader   := h.reader
  start_le := h.start_le
  end_le   := h.numberEnd ▸ h.low
  number hk := by
    have hk := h.kind ▸ hk
    have ⟨hs, ho, he⟩ := h₀.number hk
    rw [h.numberEnd, h.expect]
    refine ⟨hs, ?_, he⟩
    rcases h.start with heq | hlt
    · exact heq ▸ ho
    · exact .inr (hlt hk)

-- Steps that read only.
def Quiet {α : Type} (x : Step α) : Prop :=
  ∀ c₀ low, x.Meets (Since c₀ low) (fun _ => Since c₀ low) fun _ => Since c₀ low

namespace Quiet

variable {α β : Type} {x : Step α} {f : α → Step β}

theorem pure (a : α) : Quiet (pure a) :=
  fun _ _ => .pure id

theorem fail (e : CursorError) : Quiet (Forward.fail e : Step α) :=
  fun _ _ => .fail id

theorem bind (hx : Quiet x) (hf : ∀ a, Quiet (f a)) : Quiet (x >>= f) :=
  fun c₀ low => (hx c₀ low).bind fun a => hf a c₀ low

theorem onReader {x : Scan α} (hx : x.Keeps) : Quiet (onReader x) := by
  intro c₀ low c hc
  have le := x.run_le c.reader
  have sat := hx c.source hc.reader
  simp only [TextCursor.onReader]
  generalize x.run c.reader = o at le sat
  have since {r : Reader} (hr : r.Over c.source) (hl : left r ≤ left c.reader) :
      c₀.Since low { c with reader := r } := by
    have ho := hc.reader.offset_le hr hl
    exact { hc with
      reader := hr, low := Nat.le_trans hc.low ho, start_le := Nat.le_trans hc.start_le ho }
  cases sat
  case ok hr    => exact .ok (since hr le)
  case error hr => exact .error (since hr le)

theorem scratch {g : TextCursor → String} {h} :
    Quiet (change (fun c => { c with scratch := g c }) h) :=
  fun _ _ => .change fun hc => { hc with }

theorem loop {next : Step Unit} {reads : next.Reads} {step : α → Step (α ⊕ β)}
    (hnext : Quiet next) (hstep : ∀ a, Quiet (step a)) (a : α) :
    Quiet (loop next reads step a) := by
  refine fun c₀ low => .loop (J := fun _ => Since c₀ low) (M := fun _ => Since c₀ low)
    (fun a => (hstep a c₀ low).imp id (fun {next _} h => ?_) id) (fun _ => hnext c₀ low) a
  cases next <;> exact h

end Quiet

theorem peek_quiet : Quiet peek := .onReader (.view _)

theorem next_quiet : Quiet next := .onReader Scan.keeps_next

theorem skipBlank_quiet : Quiet skipBlank := .onReader (Scan.keeps_skipWhile _)

theorem unexpected_quiet {α : Type} (wanted : Wanted) : Quiet (unexpected (α := α) wanted) :=
  .onReader (Scan.keeps_unexpected _)

theorem stringEscape_quiet : Quiet stringEscape :=
  (Quiet.onReader Scan.keeps_escape).bind fun _ => .scratch

theorem stringPart_quiet (start : Nat) (u : Unit) : Quiet (stringPart start u) := by
  refine (Quiet.onReader (Scan.keeps_takeWhile _)).bind fun plain => ?_
  cases Utf8.decode? plain
  case none => exact .fail _
  case some =>
    refine Quiet.bind .scratch fun _ => peek_quiet.bind fun b => ?_
    split
    · exact next_quiet.bind fun _ => .pure _
    split
    · exact .pure _
    · exact unexpected_quiet _

theorem readString_quiet : Quiet readString :=
  (Quiet.onReader (.view _)).bind fun start => next_quiet.bind fun _ =>
    Quiet.bind .scratch fun _ => .loop stringEscape_quiet (stringPart_quiet start) ()

-- The step comes to the next token, or it fails on the way.
def Comes (c₀ : TextCursor) (low : Nat) (x : Step Unit) : Prop :=
  x.Meets (Since c₀ low) (fun _ => Arrived c₀) fun _ => Since c₀ low

theorem Comes.after {α : Type} {x : Step α} {f : α → Step Unit} (hx : Quiet x)
    (hf : ∀ a, Comes c₀ low (f a)) : Comes c₀ low (x >>= f) :=
  (hx c₀ low).bind hf

theorem Comes.fail (e : CursorError) : Comes c₀ low (Forward.fail e) :=
  fun _ hc => .error hc

theorem Comes.unexpected (wanted : Wanted) : Comes c₀ low (unexpected wanted) :=
  fun _ hc => .error hc

section Tokens

variable (hn : c₀.numberEnd ≤ low)
include hn

-- The next token is no number.
theorem Since.arrived {kind : TokenKind} {expect : Expect} {stack : List Container}
    (hc : c₀.Since low c) (hk : ¬kind.IsNumber) :
    c₀.Arrived { c with kind := kind, expect := expect, stack := stack } where
  source := hc.source
  rests  := {
    reader   := hc.reader
    start_le := hc.start_le
    end_le   := hc.numberEnd ▸ Nat.le_trans hn hc.low
    number   := fun h => absurd h hk
  }

theorem openContainer_comes (container : Container) {kind : TokenKind} (expect : Expect)
    (hk : ¬kind.IsNumber) : Comes c₀ low (openContainer container kind expect) :=
  .after next_quiet fun _ _ hc => .ok (hc.arrived hn hk)

theorem scalar_comes {kind : TokenKind} (hk : ¬kind.IsNumber) :
    Comes c₀ low (setKind kind >>= fun _ => afterValue) :=
  fun _ hc => .ok (hc.arrived hn hk)

theorem readLiteral_comes (word : String) {kind : TokenKind} (hk : ¬kind.IsNumber) :
    Comes c₀ low (readLiteral word kind) :=
  .after (.onReader (Scan.keeps_literal _)) fun _ => scalar_comes hn hk

-- The byte of the end is there, so the cursor does not stop between its start and it.
theorem closeContainer_comes {kind : TokenKind} (hk : ¬kind.IsNumber) :
    (closeContainer kind).Meets (fun c => c₀.Since low c ∧ c.reader.ahead ≠ [])
      (fun _ => Arrived c₀) fun _ => Since c₀ low := by
  rintro ⟨source, ⟨o, ahead⟩, _, _, _, _, _, _, _⟩ ⟨hc, ha⟩
  cases ahead
  case nil => exact absurd rfl ha
  case cons b rest =>
    have behind : (⟨o + 1, rest⟩ : Reader).Over source := hc.reader.drop (n := 1) (by simp)
    refine .ok ⟨hc.source, behind, Nat.le_succ _, ?_, fun h => absurd h hk⟩
    exact hc.numberEnd ▸ Nat.le_trans hn (Nat.le_succ_of_le hc.low)

omit hn in
theorem readNumber_comes : Comes c₀ low readNumber := by
  refine .after (.onReader Scan.keeps_number) fun kind c hc => ?_
  refine .ok
    ⟨hc.source, hc.reader, hc.start_le, Nat.le_refl _, fun _ => ⟨hc.start_le, .inl rfl, ?_⟩⟩
  show (if c.stack.isEmpty then Expect.done else .afterValue) = _ ∨ (if _ then _ else _) = _
  split
  · exact .inr rfl
  · exact .inl rfl

variable (hl : c₀.kind.IsNumber → c₀.numberEnd < low)
include hl

omit hn in
theorem markStart_meets :
    markStart.Meets (Since c₀ low) (fun _ => Since c₀ low) fun _ => Since c₀ low := by
  refine .change fun {c} hc => { hc with start_le := Nat.le_refl _, start := .inr fun hk => ?_ }
  exact Nat.lt_of_lt_of_le (hl hk) hc.low

theorem readValue_comes : Comes c₀ low readValue := by
  refine (markStart_meets hl).bind fun _ => Comes.after peek_quiet fun b => ?_
  split
  case isTrue => exact openContainer_comes hn _ _ (by decide)
  split
  case isTrue => exact openContainer_comes hn _ _ (by decide)
  split
  case isTrue => exact .after readString_quiet fun _ => scalar_comes hn (by decide)
  split
  case isTrue => exact readNumber_comes
  split
  case isTrue => exact readLiteral_comes hn _ (by decide)
  split
  case isTrue => exact readLiteral_comes hn _ (by decide)
  split
  case isTrue  => exact readLiteral_comes hn _ (by decide)
  case isFalse => exact .unexpected _

theorem readKey_comes : Comes c₀ low readKey := by
  refine .after peek_quiet fun b => ?_
  split
  case isFalse => exact .unexpected _
  case isTrue =>
    refine (markStart_meets hl).bind fun _ => Comes.after readString_quiet fun _ => ?_
    refine .after skipBlank_quiet fun _ => .after peek_quiet fun b => ?_
    split
    case isFalse => exact .unexpected _
    case isTrue =>
      have hk : ¬TokenKind.fieldName.IsNumber := by decide
      exact .after next_quiet fun _ _ hc => .ok (hc.arrived hn hk)

end Tokens

-- What follows a byte that is there starts behind it.
theorem next_since : next.Meets (Since c₀ low) (fun _ => Since c₀ (low + 1))
    fun _ => Since c₀ low := by
  intro c hc
  have sat := next_quiet c₀ low hc
  generalize hr : next.run c = o at sat
  cases sat
  case error hc' => exact .error hc'
  case ok b c' hc' =>
    have ⟨r, ha, he⟩ := next_ok hr
    refine .ok { hc' with low := ?_ }
    have := hc.reader.length
    have := hc'.reader.length
    have := hc.low
    subst he
    simp only [ha, List.length_cons] at *
    omega

-- The next token of a container, behind a comma.
theorem comma_comes {x : Step Unit} (hx : Comes c₀ (low + 1) x) :
    Comes c₀ low (next >>= fun _ => skipBlank >>= fun _ => x) := by
  refine next_since.bind fun _ => ?_
  have comes := Comes.after skipBlank_quiet fun _ => hx
  exact comes.imp id id fun hc => hc.imp (Nat.le_succ low)

-- A container ends where its last byte was seen.
theorem ends_comes {kind : TokenKind} {b : UInt8} {x : Step Unit} (hk : ¬kind.IsNumber)
    (hn : c₀.numberEnd ≤ low) (hx : Comes c₀ low x) (hc : c₀.Since low c) :
    ((if c.reader.ahead.head? = some b then closeContainer kind else x).run c).Satisfies
      (fun _ => Arrived c₀) fun _ => Since c₀ low := by
  split
  case isTrue hb => exact closeContainer_comes hn hk ⟨hc, fun ha => by simp [ha] at hb⟩
  case isFalse   => exact hx hc

theorem nextMember_comes : Comes c₀ c₀.numberEnd nextMember := by
  intro c hc
  rw [nextMember, run_bind_of_ok (run_peek c)]
  split
  case isTrue  => exact comma_comes (readKey_comes (Nat.le_succ _) fun _ => Nat.lt_succ_self _) hc
  case isFalse => exact ends_comes (by decide) (Nat.le_refl _) (.unexpected _) hc

theorem nextItem_comes : Comes c₀ c₀.numberEnd nextItem := by
  intro c hc
  rw [nextItem, run_bind_of_ok (run_peek c)]
  split
  case isTrue  => exact comma_comes (readValue_comes (Nat.le_succ _) fun _ => Nat.lt_succ_self _) hc
  case isFalse => exact ends_comes (by decide) (Nat.le_refl _) (.unexpected _) hc

-- Behind a number, a comma comes before the start of the next token. Elsewhere the start may be
-- anywhere.
theorem readNext_comes (h : c₀.Rests start) :
    Comes c₀ c₀.numberEnd (readNext c₀.expect c₀.stack) := by
  have other (he : c₀.expect ≠ .afterValue ∧ c₀.expect ≠ .done) (hk : c₀.kind.IsNumber) :
      c₀.numberEnd < c₀.numberEnd :=
    ((h.number hk).2.2.elim he.1 he.2).elim
  cases he : c₀.expect
  case value => exact readValue_comes (Nat.le_refl _) (other (by simp [he]))
  case valueOrEnd =>
    intro c hc
    rw [readNext, run_bind_of_ok (run_peek c)]
    have value := readValue_comes (Nat.le_refl _) (other (by simp [he]))
    exact ends_comes (by decide) (Nat.le_refl _) value hc
  case keyOrEnd =>
    intro c hc
    rw [readNext, run_bind_of_ok (run_peek c)]
    have key := readKey_comes (Nat.le_refl _) (other (by simp [he]))
    exact ends_comes (by decide) (Nat.le_refl _) key hc
  case afterValue =>
    cases c₀.stack
    case nil => exact .fail _
    case cons container _ =>
      cases container
      case object => exact nextMember_comes
      case array  => exact nextItem_comes
  case done => exact .fail _

theorem advance_comes (h : c₀.Rests start) :
    (advance.run c₀).Satisfies (fun _ => Arrived c₀) fun _ => Since c₀ c₀.numberEnd := by
  rw [advance, run_bind_of_ok (run_look c₀)]
  split
  case isTrue  => exact .error h.since
  case isFalse =>
    have comes := Comes.after skipBlank_quiet fun _ => readNext_comes h
    exact comes h.since

theorem finish_quiet : Quiet finish := by
  intro c₀ low c hc
  rw [finish, run_bind_of_ok (run_look c)]
  split
  case isFalse => exact .error hc
  case isTrue =>
    refine (skipBlank_quiet.bind fun _ => Quiet.bind (.onReader (.view _)) fun r => ?_) c₀ low hc
    split
    · exact .pure _
    · exact .fail _

end TextCursor

namespace Watched

-- A cursor over a source, on the last of the tokens that it came to.
def Rests (source : List UInt8) (w : Watched TextCursor) : Prop :=
  w.cursor.source = source ∧ ∃ t ∈ w.trail.getLast?, w.cursor.Rests t.start

variable {source : List UInt8}

theorem advance_rests : (Cursor.advance (σ := Watched TextCursor)).Meets (Rests source)
    (fun _ => Rests source) fun _ => Rests source := by
  rintro w ⟨hs, t, ht, h⟩
  have comes := TextCursor.advance_comes h
  show Outcome.Satisfies _ _ (advance.run w)
  simp only [advance]
  generalize hr : Cursor.advance.run w.cursor = o
  rw [show TextCursor.advance.run w.cursor = o from hr] at comes
  cases comes
  case error e c hc => exact .error ⟨hc.source.trans hs, t, ht, hc.rests h⟩
  case ok u c hc    => exact .ok ⟨hc.source.trans hs, c, by simp, hc.rests⟩

theorem skipValue_rests : (Cursor.skipValue (σ := Watched TextCursor)).Meets (Rests source)
    (fun _ => Rests source) fun _ => Rests source :=
  .skipValue_of_advance advance_rests

end Watched

theorem Call.onWatched_rests {source : List UInt8} {w : Watched TextCursor} (h : w.Rests source)
    (call : Call) : (call.onWatched w).Rests source := by
  cases call
  case advance   => exact Watched.advance_rests.state h
  case skipValue => exact Watched.skipValue_rests.state h
  case finish =>
    have ⟨hs, t, ht, hr⟩ := h
    have since := (TextCursor.finish_quiet w.cursor w.cursor.numberEnd).state hr.since
    exact ⟨since.source.trans hs, t, ht, since.rests hr⟩
  case cancel =>
    have ⟨hs, t, ht, hr⟩ := h
    exact ⟨hs, t, ht, { hr with }⟩

theorem Call.foldl_onWatched_rests {source : List UInt8} {w : Watched TextCursor}
    (h : w.Rests source) (calls : List Call) : (calls.foldl onWatched w).Rests source := by
  induction calls generalizing w
  case nil                => exact h
  case cons call calls ih => exact ih (call.onWatched_rests h)

namespace TextCursor

variable {source : List UInt8} {c : TextCursor}

theorem rests_initial (source : List UInt8) : (initial source).Rests 0 where
  reader   := ⟨Nat.zero_le _, rfl⟩
  start_le := Nat.le_refl _
  end_le   := Nat.le_refl _
  number   := nofun

theorem rests_of_ofBytes (h : ofBytes source = .ok c) : c.source = source ∧ c.Rests c.start := by
  have comes := advance_comes (rests_initial source)
  rw [ofBytes] at h
  generalize advance.run (initial source) = o at h comes
  cases comes
  case error => cases h
  case ok hc =>
    cases h
    exact ⟨hc.source, hc.rests⟩

-- An accessor does not find the number that the cursor is on.
def Loses (c : TextCursor) : Prop :=
  ∃ start stop, c.int = .error (.lexemeLost start stop) ∨
    c.numberText = .error (.lexemeLost start stop) ∨ c.float = .error (.lexemeLost start stop)

section Loses

variable {a b : Nat}

theorem isNumber_of_numberText (h : c.numberText = .error (.lexemeLost a b)) :
    c.kind.IsNumber ∧ ¬c.start ≤ c.numberEnd := by
  simp only [numberText, lexeme] at h
  split at h <;> try cases h
  case isTrue hk =>
    split at h <;> cases h
    case isFalse hlt => exact ⟨hk, hlt⟩

theorem isNumber_of_int (h : c.int = .error (.lexemeLost a b)) :
    c.kind.IsNumber ∧ ¬c.start ≤ c.numberEnd := by
  rcases error_of_bind_error h with h | ⟨_, hk, h⟩
  case inl =>
    simp only [CursorError.expectKind] at h
    split at h <;> cases h
  case inr =>
    simp only [CursorError.expectKind] at hk
    split at hk <;> cases hk
    case isTrue hk =>
      rcases error_of_bind_error h with h | ⟨s, _, h⟩
      case inl => exact isNumber_of_numberText ((if_pos (.inl hk)).trans h)
      case inr => cases hr : readInt64? s <;> rw [hr] at h <;> cases h

theorem isNumber_of_float (h : c.float = .error (.lexemeLost a b)) :
    c.kind.IsNumber ∧ ¬c.start ≤ c.numberEnd := by
  rcases error_of_bind_error h with h | ⟨s, _, h⟩
  case inl => exact isNumber_of_numberText h
  case inr =>
    split at h
    case h_1 => cases h
    case h_2 => split at h <;> cases h

theorem loses_iff : c.Loses ↔ c.kind.IsNumber ∧ ¬c.start ≤ c.numberEnd := by
  constructor
  case mp =>
    rintro ⟨a, b, h | h | h⟩
    · exact isNumber_of_int h
    · exact isNumber_of_numberText h
    · exact isNumber_of_float h
  case mpr =>
    rintro ⟨hk, hlt⟩
    exact ⟨c.start, c.numberEnd, .inr (.inl ((if_pos hk).trans (if_neg hlt)))⟩

end Loses

-- All offsets that a cursor uses are inside its source, where `t` is how it was when it came to its
-- token. The bounds of a number are in order as long as the start is still that of the number.
structure InRange (source : List UInt8) (t c : TextCursor) : Prop where
  same      : c.source = source
  reader    : c.reader.Over source
  start     : c.start ≤ source.length
  numberEnd : c.numberEnd ≤ source.length
  order     : c.kind.IsNumber → (c.start ≤ c.numberEnd ↔ c.start = t.start)
  loses     : c.Loses ↔ c.kind.IsNumber ∧ c.start ≠ t.start

theorem Rests.inRange {t : TextCursor} (hs : c.source = source) (h : c.Rests t.start) :
    InRange source t c := by
  have reader := hs ▸ h.reader
  have order (hk : c.kind.IsNumber) : c.start ≤ c.numberEnd ↔ c.start = t.start := by
    have ⟨hle, ho, _⟩ := h.number hk
    omega
  exact {
    same      := hs
    reader    := reader
    start     := Nat.le_trans h.start_le reader.offset
    numberEnd := Nat.le_trans h.end_le reader.offset
    order     := order
    loses     := by
      rw [loses_iff]
      exact and_congr_right fun hk => not_congr (order hk)
  }

-- Whatever the bytes are and whichever calls are made on a cursor, be it that some of them fail,
-- its offsets are in range, unless the start of a number has been moved on by an advance that
-- failed.
theorem inRange_of_calls (h : ofBytes source = .ok c) (calls : List Call) :
    let w := calls.foldl Call.onWatched ⟨c, [c]⟩
    w.cursor = calls.foldl Call.on c ∧ ∃ t ∈ w.trail.getLast?, InRange source t w.cursor := by
  intro w
  have ⟨hs, first⟩ := rests_of_ofBytes h
  have start : Watched.Rests source ⟨c, [c]⟩ := ⟨hs, c, by simp, first⟩
  have ⟨hs, t, ht, rests⟩ := Call.foldl_onWatched_rests start calls
  exact ⟨Call.cursor_foldl_onWatched _ calls, t, ht, rests.inRange hs⟩

-- Behind a number, an advance fails at the start of an item and leaves the start there.
theorem inRange_of_calls_item :
    let source := Json.plain "[1,x".toList
    let c : TextCursor := {
      source, reader := ⟨1, Json.plain "1,x".toList⟩, kind := .arrayStart, start := 0,
      scratch := "", numberEnd := 0, stack := [.array], expect := .valueOrEnd,
      isCancelled := false }
    let w := [Call.advance, .advance].foldl Call.onWatched ⟨c, [c]⟩
    ofBytes source = .ok c ∧ w.trail.getLast?.map (·.start) = some 1 ∧ w.cursor.start = 3 ∧
      ∃ t ∈ w.trail.getLast?, InRange source t w.cursor := by
  intro source c w
  have first : ofBytes source = .ok c := by rfl
  exact ⟨first, by decide +kernel, by decide +kernel, (inRange_of_calls first _).2⟩

-- The integer is there when the cursor comes to it. After an advance that fails at the item behind
-- it, the cursor is still on the integer and looks for it from offset 3 to offset 2.
theorem int_lexemeLost :
    ∃ c, ofBytes (Json.plain "[1,x".toList) = .ok c ∧
      ([Call.advance].foldl Call.on c).int = .ok 1 ∧
      let lost := [Call.advance, .advance].foldl Call.on c
      lost.kind = .integer ∧ ¬lost.start ≤ lost.numberEnd ∧
        lost.int = .error (.lexemeLost 3 2) := by
  refine ⟨_, rfl, ?_⟩
  decide +kernel

end TextCursor
end RecordDecoding
