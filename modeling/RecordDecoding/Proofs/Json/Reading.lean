import RecordDecoding.Proofs.Json.Due
import RecordDecoding.Proofs.Json.Strings

namespace RecordDecoding.TextCursor

open Forward Json

-- The cursor sits on the lexeme, and its accessors give what the lexeme holds.
def Shows (c : TextCursor) : Lexeme → Prop
  | .objectStart => c.kind = .objectStart
  | .objectEnd   => c.kind = .objectEnd
  | .name s      => c.kind = .fieldName ∧ c.fieldName = .ok (.fresh s)
  | .string s    => c.kind = .string ∧ c.text = .ok s
  -- A number is an integer if its literal has neither a fraction nor an exponent.
  | .number s    => c.numberText = .ok s ∧
    (c.kind = .integer ∧ Numeral.IsInteger s.toList ∨ c.kind = .float ∧ ¬Numeral.IsInteger s.toList)
  | .bool b      => c.kind = if b then .boolTrue else .boolFalse
  | .null        => c.kind = .null
  | .arrayStart  => c.kind = .arrayStart
  | .arrayEnd    => c.kind = .arrayEnd

-- A cursor that is not cancelled and knows where in its source it is.
structure InText (c : TextCursor) : Prop where
  active : c.isCancelled = false
  ahead : c.reader.ahead = c.source.drop c.reader.offset

-- A cursor with lexemes ahead of it.
structure Follows (c : TextCursor) (ls : List Lexeme) : Prop extends InText c where
  due : Due c.expect c.stack c.reader.ahead ls

-- A step onto the first of some lexemes.
def Yields (x : Step Unit) (c : TextCursor) : List Lexeme → Prop
  | []      => False
  | l :: ls => ∃ c', x.run c = .ok () c' ∧ c'.Shows l ∧ c'.Follows ls

variable {c c' : TextCursor} {o : Nat} {b : UInt8} {bytes rest : List UInt8} {l : Lexeme}
  {ls : List Lexeme} {j : Json} {stack : List Container}

theorem InText.move (h : c.InText) (bytes : List UInt8) (hc : c.reader = ⟨o, bytes ++ rest⟩) :
    rest = c.source.drop (o + bytes.length) := by
  have ha := h.ahead
  rw [hc] at ha
  rw [← List.drop_drop, ← ha, List.drop_left]

theorem Yields.bind {α : Type} {x : Step α} {f : α → Step Unit} {a : α} (hx : x.run c = .ok a c')
    (h : Yields (f a) c' ls) : Yields (x >>= f) c ls := by
  cases ls
  case nil => exact h
  case cons =>
    have ⟨c₂, hr, h⟩ := h
    exact ⟨c₂, by rw [run_bind_of_ok hx, hr], h⟩

-- What comes after a value does not go on with it.
theorem stops_after (h : After stack rest ls) : Scan.Stops Scan.goesOn rest := by
  have blank : ∀ b, Ascii.isBlank b → Scan.goesOn b = false := by
    intro b hb
    rcases Scan.eq_of_isBlank hb with rfl | rfl | rfl | rfl <;> rfl
  cases h
  case root hb =>
    intro b h
    exact blank b (hb b (List.mem_of_mem_head? h))
  all_goals exact Scan.stops_blank ‹_› blank rfl

theorem run_skipBlank {blank : List UInt8} (hb : Blank blank) (hr : Scan.Stops Ascii.isBlank rest)
    (hc : c.reader = ⟨o, blank ++ rest⟩) :
    skipBlank.run c = .ok () { c with reader := ⟨o + blank.length, rest⟩ } :=
  run_onReader (hc ▸ Scan.run_skipWhile hb hr)

section Values

theorem openContainer_yields {container : Container} {kind : TokenKind} {expect : Expect}
    (h : c.InText) (hc : c.reader = ⟨o, b :: rest⟩)
    (hs : ∀ {c' : TextCursor}, c'.kind = kind → c'.Shows l)
    (hd : Due expect (container :: c.stack) rest ls) :
    Yields (openContainer container kind expect) c (l :: ls) := by
  refine ⟨_, run_bind_of_ok (run_next hc), hs rfl, ⟨h.active, ?_⟩, hd⟩
  exact h.move [b] hc

theorem openArray_yields {items : List Json} {text : List UInt8} (h : c.InText)
    (hv : ValueText (.array items) (ascii '[' :: (text ++ [ascii ']'])))
    (hc : c.reader = ⟨o, ascii '[' :: (text ++ [ascii ']']) ++ rest⟩) (ha : After c.stack rest ls) :
    Yields (openContainer .array .arrayStart .valueOrEnd) c ((Json.array items).lexemes ++ ls) := by
  have hc : c.reader = ⟨o, ascii '[' :: (text ++ ascii ']' :: rest)⟩ := by simpa using hc
  have due := due_array_iff.mpr ⟨items, text, rest, ls, hv, rfl, rfl, ha⟩
  rw [lexemes, List.cons_append, List.cons_append, List.append_assoc, List.singleton_append]
  exact openContainer_yields h hc id due

theorem openObject_yields {members : List (String × Json)} {text : List UInt8} (h : c.InText)
    (hv : ValueText (.object members) (ascii '\x7b' :: (text ++ [ascii '\x7d'])))
    (hc : c.reader = ⟨o, ascii '\x7b' :: (text ++ [ascii '\x7d']) ++ rest⟩)
    (ha : After c.stack rest ls) :
    Yields (openContainer .object .objectStart .keyOrEnd) c
      ((Json.object members).lexemes ++ ls) := by
  have hc : c.reader = ⟨o, ascii '\x7b' :: (text ++ ascii '\x7d' :: rest)⟩ := by simpa using hc
  have due := due_object_iff.mpr ⟨members, text, rest, ls, hv, rfl, rfl, ha⟩
  rw [lexemes, List.cons_append, List.cons_append, List.append_assoc, List.singleton_append]
  exact openContainer_yields h hc id due

theorem closeContainer_yields {container : Container} {stack : List Container} {kind : TokenKind}
    (h : c.InText) (hc : c.reader = ⟨o, b :: rest⟩) (hst : c.stack = container :: stack)
    (hs : ∀ {c' : TextCursor}, c'.kind = kind → c'.Shows l) (ha : After stack rest ls) :
    Yields (closeContainer kind) c (l :: ls) := by
  refine .bind (run_change ..) (.bind (run_next hc) ⟨_, rfl, hs rfl, ⟨h.active, ?_⟩, ?_⟩)
  · exact h.move [b] hc
  · simpa [hst] using due_after_iff.mpr ha

-- What comes at the end of every scalar.
theorem scalar_yields {kind : TokenKind} (h : c.InText) (ha : After c.stack c.reader.ahead ls)
    (hs : ∀ expect, Shows { c with kind, expect } l) :
    Yields (setKind kind >>= fun _ => afterValue) c (l :: ls) :=
  ⟨_, rfl, hs _, ⟨h.active, h.ahead⟩, due_after_iff.mpr ha⟩

theorem readLiteral_yields {word : String} {kind : TokenKind} (h : c.InText)
    (hw : word.toList ≠ []) (hc : c.reader = ⟨o, plain word.toList ++ rest⟩)
    (hs : ∀ {c' : TextCursor}, c'.kind = kind → c'.Shows l) (ha : After c.stack rest ls) :
    Yields (readLiteral word kind) c (l :: ls) := by
  have run : (onReader (Scan.literal (plain word.toList))).run c = .ok ()
      { c with reader := ⟨o + (plain word.toList).length, rest⟩ } := by
    apply run_onReader
    rw [hc]
    exact Scan.run_literal (by simpa [plain] using hw)
  exact .bind run (scalar_yields ⟨h.active, h.move _ hc⟩ ha fun _ => hs rfl)

theorem lexeme_eq {literal : String} (hn : Numeral.IsNumber literal.toList)
    (hs : c.source.drop c.start = plain literal.toList ++ rest)
    (he : c.numberEnd = c.start + literal.toList.length) : c.lexeme = .ok literal := by
  have lt : ∀ c ∈ literal.toList, c.toNat < 256 := fun c hc => Nat.lt_trans (hn.lt c hc) (by decide)
  have take : (plain literal.toList ++ rest).take literal.toList.length = plain literal.toList :=
    List.take_left' (length_plain _)
  rw [lexeme, he, if_pos (Nat.le_add_right ..), Nat.add_sub_cancel_left, hs, take, plain,
    Ascii.text_map_ascii lt, String.ofList_toList]

theorem readNumber_yields {literal : String} (h : c.InText) (hs : c.start = o)
    (hn : Numeral.IsNumber literal.toList) (hc : c.reader = ⟨o, plain literal.toList ++ rest⟩)
    (hr : Scan.Stops Scan.goesOn rest) (ha : After c.stack rest ls) :
    Yields readNumber c (.number literal :: ls) := by
  have ⟨kind, run, hk⟩ := Scan.run_number_text (o := o) hn hr
  have ahead := h.move _ hc
  rw [length_plain] at ahead
  refine .bind (run_onReader (hc ▸ run)) (.bind (run_change ..)
    (scalar_yields ⟨h.active, ahead⟩ ha fun expect => ⟨?_, hk⟩))
  have isNumber : kind = .integer ∨ kind = .float := hk.imp And.left And.left
  have drop : c.source.drop c.start = plain literal.toList ++ rest := by
    have ha := h.ahead
    rw [hc] at ha
    rw [hs]
    exact ha.symm
  exact (if_pos isNumber).trans (lexeme_eq hn drop (congrArg (· + _) hs.symm))

-- A value by its first byte.
def readValueFrom (b : Option UInt8) : Step Unit :=
  if b = some (ascii '\x7b') then openContainer .object .objectStart .keyOrEnd
  else if b = some (ascii '[') then openContainer .array .arrayStart .valueOrEnd
  else if b = some (ascii '"') then do
    readString
    setKind .string
    afterValue
  else if b = some (ascii '-') ∨ b.any Ascii.isDigit then readNumber
  else if b = some (ascii 't') then readLiteral "true" .boolTrue
  else if b = some (ascii 'f') then readLiteral "false" .boolFalse
  else if b = some (ascii 'n') then readLiteral "null" .null
  else unexpected .value

theorem run_readValue (c : TextCursor) : readValue.run c =
    (readValueFrom c.reader.ahead.head?).run { c with start := c.reader.offset } := rfl

theorem readValueFrom_number (hb : b = ascii '-' ∨ Ascii.isDigit b) :
    readValueFrom (some b) = readNumber := by
  have ne {d : UInt8} (hd : ¬(d = ascii '-' ∨ Ascii.isDigit d)) : some b ≠ some d :=
    fun h => hd (Option.some.inj h ▸ hb)
  rw [readValueFrom, if_neg (ne (by decide)), if_neg (ne (by decide)), if_neg (ne (by decide)),
    if_pos (by simpa using hb)]

theorem readValue_yields (h : c.InText) (hv : ValueText j bytes)
    (hc : c.reader = ⟨o, bytes ++ rest⟩) (ha : After c.stack rest ls) :
    Yields readValue c (j.lexemes ++ ls) := by
  suffices Yields (readValueFrom (bytes ++ rest).head?) { c with start := o } (j.lexemes ++ ls) by
    generalize j.lexemes ++ ls = ls' at this
    cases ls'
    case nil => exact this
    case cons =>
      have ⟨c', hr, h⟩ := this
      have ha : c.reader.ahead = bytes ++ rest := by rw [hc]
      have ho : c.reader.offset = o := by rw [hc]
      exact ⟨c', by rw [run_readValue, ha, ho, hr], h⟩
  have h : InText { c with start := o } := ⟨h.active, h.ahead⟩
  cases hv
  case null          => exact readLiteral_yields h (by decide) hc id ha
  case true          => exact readLiteral_yields h (by decide) hc id ha
  case false         => exact readLiteral_yields h (by decide) hc id ha
  case number literal hn =>
    have number := readNumber_yields h rfl hn hc (stops_after ha) ha
    have ⟨b, more, hb, hd⟩ := Scan.plain_number hn
    rw [← readValueFrom_number hd] at number
    simpa [hb, lexemes] using number
  case string s hs =>
    have read := run_readString (c := { c with start := o }) hs hc
    cases hs
    refine .bind read (scalar_yields ⟨h.active, h.move _ hc⟩ ha fun _ => ⟨rfl, rfl⟩)
  case emptyArray text hb => exact openArray_yields h (.emptyArray hb) hc ha
  case array items text hi => exact openArray_yields h (.array hi) hc ha
  case emptyObject text hb => exact openObject_yields h (.emptyObject hb) hc ha
  case object members text hm => exact openObject_yields h (.object hm) hc ha

-- A value starts with no blank, and not as an array ends.
theorem valueText_first (h : ValueText j bytes) :
    ∃ b more, bytes = b :: more ∧ Ascii.isBlank b = false ∧ b ≠ ascii ']' := by
  cases h
  case number literal hn =>
    have ⟨b, more, hb, hd⟩ := Scan.plain_number hn
    refine ⟨b, more, hb, ?_, ?_⟩
    · cases h : Ascii.isBlank b
      case false => rfl
      case true  =>
        rcases Scan.eq_of_isBlank h with rfl | rfl | rfl | rfl <;> exact absurd hd (by decide)
    · rintro rfl
      exact absurd hd (by decide)
  case string hs =>
    cases hs
    exact ⟨_, _, rfl, rfl, by decide⟩
  all_goals exact ⟨_, _, rfl, rfl, by decide⟩

theorem stops_value (h : ValueText j bytes) : Scan.Stops Ascii.isBlank (bytes ++ rest) := by
  have ⟨b, more, hb, hs, _⟩ := valueText_first h
  subst hb
  exact .cons hs

end Values

section Members

theorem readKey_yields {name : String} {text blank : List UInt8} (h : c.InText)
    (hs : StringText name text) (hb : Blank blank) (hd : Due .value c.stack rest ls)
    (hc : c.reader = ⟨o, text ++ (blank ++ ascii ':' :: rest)⟩) :
    Yields readKey c (.name name :: ls) := by
  have head : c.reader.ahead.head? = some (ascii '"') := by
    rw [hc]
    cases hs
    rfl
  have ahead : rest = c.source.drop (o + (text ++ blank ++ [ascii ':']).length) :=
    h.move _ (by simpa using hc)
  refine .bind (run_peek c) ?_
  rw [if_pos head]
  refine .bind (run_change ..) (.bind (run_readString hs hc) ?_)
  refine .bind (run_skipBlank hb (.cons rfl) rfl) (.bind (run_peek _) (.bind (run_next rfl) ?_))
  refine ⟨_, rfl, ⟨rfl, rfl⟩, ⟨h.active, ?_⟩, hd⟩
  simpa [Nat.add_assoc] using ahead

-- A member is read from its opening quote on.
theorem member_yields {name : String} (hm : MemberText name j bytes)
    (ha : After (.object :: stack) rest ls) :
    ∃ blank more, Blank blank ∧ bytes ++ rest = blank ++ ascii '"' :: more ∧
      ∀ {c : TextCursor} {o : Nat}, c.InText → c.stack = .object :: stack →
        c.reader = ⟨o, ascii '"' :: more⟩ → Yields readKey c (.name name :: (j.lexemes ++ ls)) := by
  cases hm
  case of blank text blank' blank'' value hb hb' hb'' hs hv =>
    have ⟨more, ht⟩ : ∃ more, text = ascii '"' :: more := by
      cases hs
      exact ⟨_, rfl⟩
    refine ⟨blank, more ++ (blank' ++ ascii ':' :: (blank'' ++ (value ++ rest))), hb, ?_, ?_⟩
    · simp [ht]
    · intro c o h hst hc
      have due : Due .value c.stack (blank'' ++ (value ++ rest)) (j.lexemes ++ ls) :=
        .value hb'' hv (hst ▸ ha)
      exact readKey_yields h hs hb' due (by simpa [ht] using hc)

theorem nextMember_yields {name : String} (h : c.InText) (hst : c.stack = .object :: stack)
    (hm : MemberText name j bytes) (hc : c.reader = ⟨o, ascii ',' :: (bytes ++ rest)⟩)
    (ha : After (.object :: stack) rest ls) :
    Yields nextMember c (.name name :: (j.lexemes ++ ls)) := by
  have ⟨blank, more, hb, hbytes, yields⟩ := member_yields hm ha
  rw [hbytes] at hc
  refine .bind (run_peek c) ?_
  rw [if_pos (by rw [hc]; rfl)]
  refine .bind (run_next hc) (.bind (run_skipBlank hb (.cons rfl) rfl) ?_)
  have h : InText { c with reader := ⟨o + 1, blank ++ ascii '"' :: more⟩ } :=
    ⟨h.active, h.move [ascii ','] hc⟩
  exact yields ⟨h.active, h.move _ rfl⟩ hst rfl

theorem nextItem_yields {blank : List UInt8} (h : c.InText) (hst : c.stack = .array :: stack)
    (hb : Blank blank) (hv : ValueText j bytes)
    (hc : c.reader = ⟨o, ascii ',' :: (blank ++ (bytes ++ rest))⟩)
    (ha : After (.array :: stack) rest ls) : Yields nextItem c (j.lexemes ++ ls) := by
  refine .bind (run_peek c) ?_
  rw [if_pos (by rw [hc]; rfl)]
  refine .bind (run_next hc) (.bind (run_skipBlank hb (stops_value hv) rfl) ?_)
  have h : InText { c with reader := ⟨o + 1, blank ++ (bytes ++ rest)⟩ } :=
    ⟨h.active, h.move [ascii ','] hc⟩
  exact readValue_yields ⟨h.active, h.move _ rfl⟩ hv rfl (hst ▸ ha)

end Members

-- The steps after a value, with an item or a member or an end next.
theorem closeArray_yields (h : c.InText) (hst : c.stack = .array :: stack)
    (hc : c.reader = ⟨o, ascii ']' :: rest⟩) (ha : After stack rest ls) :
    Yields nextItem c (.arrayEnd :: ls) := by
  refine .bind (run_peek c) ?_
  rw [hc]
  exact closeContainer_yields h hc hst id ha

theorem closeObject_yields (h : c.InText) (hst : c.stack = .object :: stack)
    (hc : c.reader = ⟨o, ascii '\x7d' :: rest⟩) (ha : After stack rest ls) :
    Yields nextMember c (.objectEnd :: ls) := by
  refine .bind (run_peek c) ?_
  rw [hc]
  exact closeContainer_yields h hc hst id ha

-- One more token. The cases are those of what the cursor expects.
theorem advance_yields (h : c.Follows ls) (hd : c.isComplete = false) : Yields advance c ls := by
  have due := h.due
  have active : c.isCancelled = false := h.active
  refine .bind (run_look c) ?_
  rw [active, if_neg (by decide)]
  have skip {blank rest : List UInt8} (hb : Blank blank) (hr : Scan.Stops Ascii.isBlank rest)
      (ha : c.reader.ahead = blank ++ rest) {x : Step Unit}
      (hx : ∀ {c' : TextCursor} {o : Nat}, c'.InText → c'.stack = c.stack → c'.reader = ⟨o, rest⟩ →
        Yields x c' ls) :
      Yields (skipBlank >>= fun _ => x) c ls := by
    have hc : c.reader = ⟨c.reader.offset, blank ++ rest⟩ := by rw [← ha]
    exact .bind (run_skipBlank hb hr hc) (hx ⟨h.active, h.move _ hc⟩ rfl rfl)
  rw [isComplete, decide_eq_false_iff_not] at hd
  generalize he : c.expect = expect, hst : c.stack = stack, hahead : c.reader.ahead = ahead at *
  cases due
  case value hb hv ha =>
    exact skip hb (stops_value hv) rfl fun h hst hc => readValue_yields h hv hc (hst ▸ ha)
  case firstItem hb hv ha =>
    refine skip hb (stops_value hv) rfl fun {c' _} h hst hc => .bind (run_peek c') ?_
    have ⟨b, more, hb, _, hne⟩ := valueText_first hv
    rw [hc, hb, List.cons_append, List.head?_cons, if_neg (by simpa using hne)]
    exact readValue_yields h hv hc (hst ▸ ha)
  case emptyArray hb ha =>
    refine skip hb (.cons rfl) rfl fun {c' _} h hst hc => .bind (run_peek c') ?_
    rw [hc]
    exact closeContainer_yields h hc hst id ha
  case firstMember hm ha =>
    have ⟨blank, more, hb, ht, yields⟩ := member_yields hm ha
    refine skip hb (.cons rfl) ht fun {c' _} h hst hc => .bind (run_peek c') ?_
    rw [hc]
    exact yields h hst hc
  case emptyObject hb ha =>
    refine skip hb (.cons rfl) rfl fun {c' _} h hst hc => .bind (run_peek c') ?_
    rw [hc]
    exact closeContainer_yields h hc hst id ha
  case afterValue ha =>
    cases ha
    case arrayEnd hb ha =>
      exact skip hb (.cons rfl) rfl fun h hst hc => closeArray_yields h hst hc ha
    case nextItem hb hb' hv ha =>
      exact skip hb (.cons rfl) rfl fun h hst hc => nextItem_yields h hst hb' hv hc ha
    case objectEnd hb ha =>
      exact skip hb (.cons rfl) rfl fun h hst hc => closeObject_yields h hst hc ha
    case nextMember hb hm ha =>
      exact skip hb (.cons rfl) rfl fun h hst hc => nextMember_yields h hst hm hc ha
  case done => exact absurd rfl hd

theorem Follows.of_complete (h : c.Follows ls) (hc : c.isComplete) :
    ls = [] ∧ Blank c.reader.ahead := by
  have due := h.due
  rw [isComplete, decide_eq_true_eq] at hc
  rw [hc] at due
  generalize c.stack = stack at due
  cases due
  case done hb => exact ⟨rfl, hb⟩

theorem Follows.isComplete (h : c.Follows []) : c.isComplete := by
  cases hc : c.isComplete
  case true  => rfl
  case false => exact absurd (advance_yields h hc) id

theorem Follows.not_complete (h : c.Follows (l :: ls)) : c.isComplete = false := by
  cases hc : c.isComplete
  case true  => cases (h.of_complete hc).1
  case false => rfl

-- Blanks that are left behind the root are skipped.
theorem Follows.run_skipBlank (h : c.Follows ls) (hc : c.isComplete) : ∃ offset,
    skipBlank.run c = .ok () { c with reader := ⟨offset, []⟩ } ∧
      Follows { c with reader := ⟨offset, []⟩ } [] := by
  have ⟨hl, blank⟩ := h.of_complete hc
  subst hl
  have ahead : c.reader = ⟨c.reader.offset, c.reader.ahead ++ []⟩ := by rw [List.append_nil]
  refine ⟨_, TextCursor.run_skipBlank blank nofun ahead, ⟨h.active, h.move _ ahead⟩, ?_⟩
  have due := h.due
  have complete : c.expect = .done := of_decide_eq_true hc
  show Due c.expect c.stack [] []
  rw [complete] at due ⊢
  generalize c.stack = stack at due
  cases due
  case done => exact .done nofun

theorem Follows.finish (h : c.Follows ls) (hc : c.isComplete) : ∃ c', finish.run c = .ok () c' := by
  have ⟨offset, skip, _⟩ := h.run_skipBlank hc
  refine ⟨{ c with reader := ⟨offset, []⟩ }, ?_⟩
  rw [TextCursor.finish, run_bind_of_ok (run_look c), if_pos hc, run_bind_of_ok skip]
  rfl

-- There is no token after the last one.
theorem Follows.exhausted (h : c.Follows []) (hs : c.Shows l) :
    ∃ c', advance.run c = .error .exhausted c' ∧ c'.Shows l ∧ c'.Follows [] := by
  have active : ¬c.isCancelled := by simp [h.active]
  have complete : c.expect = .done := of_decide_eq_true h.isComplete
  have ⟨offset, skip, follows⟩ := h.run_skipBlank h.isComplete
  refine ⟨{ c with reader := ⟨offset, []⟩ }, ?_, ?_, follows⟩
  · rw [advance, run_bind_of_ok (run_look c), if_neg active, run_bind_of_ok skip, complete]
    rfl
  · cases l <;> exact hs

-- How many lexemes follow is for the cursor to say.
theorem Follows.length_eq {ls' : List Lexeme} (h : c.Follows ls) (h' : c.Follows ls') :
    ls.length = ls'.length := by
  induction ls generalizing c ls'
  case nil => rw [(h'.of_complete h.isComplete).1]
  case cons l ls ih =>
    cases ls'
    case nil => cases (h.of_complete h'.isComplete).1
    case cons =>
      have ⟨_, hr, _, h⟩ := advance_yields h h.not_complete
      have ⟨_, hr', _, h'⟩ := advance_yields h' h'.not_complete
      cases hr.symm.trans hr'
      exact congrArg (· + 1) (ih h h')

-- The rest of a text before its first lexeme.
theorem follows_initial (h : IsText j bytes) : (initial bytes).Follows j.lexemes :=
  ⟨⟨rfl, rfl⟩, due_text_iff.mpr ⟨j, h, rfl⟩⟩

theorem run_collect (seen : List TextCursor) (c : TextCursor) : (all.collect seen).run c =
    .ok (if c.isComplete then .inr (c :: seen).reverse else .inl (c :: seen)) c := rfl

-- The cursor on the token at hand, and on each one after it. There is one just if there is another
-- lexeme.
theorem collect_follows (h : c.Follows ls) (hs : c.Shows l) (seen : List TextCursor) :
    ∃ cursors c', (loop advance advance_reads all.collect seen).run c =
        .ok (seen.reverse ++ cursors) c' ∧
      List.Forall₂ Shows cursors (l :: ls) ∧ c'.Follows [] ∧ c'.isComplete := by
  induction ls generalizing c l seen
  case nil =>
    refine ⟨[c], c, ?_, .cons hs .nil, h, h.isComplete⟩
    rw [run_loop, run_collect, if_pos h.isComplete, List.reverse_cons]
  case cons l' ls ih =>
    have ⟨c₁, hr, hs₁, h₁⟩ := advance_yields h h.not_complete
    have ⟨cursors, c', hl, hf, hc'⟩ := ih h₁ hs₁ (c :: seen)
    refine ⟨c :: cursors, c', ?_, .cons hs hf, hc'⟩
    rw [run_loop, run_collect, h.not_complete, if_neg Bool.false_ne_true]
    simp only [hr, hl, List.reverse_cons, List.append_assoc, List.singleton_append]

theorem all_eq_ok_iff {cursors : List TextCursor} : all bytes = .ok cursors ↔
    ∃ c c₁ c₂, advance.run (initial bytes) = .ok () c ∧
      (loop advance advance_reads all.collect []).run c = .ok cursors c₁ ∧
      finish.run c₁ = .ok () c₂ := by
  constructor
  case mp =>
    intro h
    obtain ⟨c, ho, h⟩ := ok_of_bind_ok h
    rw [ofBytes] at ho
    split at ho
    case h_2 => cases ho
    case h_1 hadvance =>
      cases ho
      split at h
      case h_2 => cases h
      case h_1 c₂ hr =>
        cases h
        obtain ⟨_, c₁, hloop, hr⟩ := exists_of_bind_ok hr
        obtain ⟨_, c₂, hfinish, hr⟩ := exists_of_bind_ok hr
        cases hr
        exact ⟨c, c₁, c₂, hadvance, hloop, hfinish⟩
  case mpr =>
    rintro ⟨c, c₁, c₂, hadvance, hloop, hfinish⟩
    have read : all.readAll.run c = .ok cursors c₂ := by
      rw [all.readAll, run_bind_of_ok hloop, run_bind_of_ok hfinish, run_pure]
    simp only [all, ofBytes, hadvance, Bind.bind, Except.bind, read]
    rfl

-- Whatever way a value is written, a cursor reads the lexemes of it and then nothing.
theorem all_shows_lexemes (h : IsText j bytes) :
    ∃ cursors, all bytes = .ok cursors ∧ List.Forall₂ Shows cursors j.lexemes := by
  have start : (initial bytes).Follows j.lexemes :=
    ⟨⟨rfl, rfl⟩, due_text_iff.mpr ⟨j, h, rfl⟩⟩
  have first := advance_yields start rfl
  generalize j.lexemes = ls at first
  cases ls
  case nil => cases first
  case cons l ls =>
    have ⟨c, hr, hs, h⟩ := first
    have ⟨cursors, c', hl, hf, h', hc'⟩ := collect_follows h hs []
    have ⟨_, he⟩ := h'.finish hc'
    exact ⟨cursors, all_eq_ok_iff.mpr ⟨c, c', _, hr, hl, he⟩, hf⟩

theorem all_shows_lexemes_escaped :
    IsText (.object [("A", .null)]) (plain "\x7b\"\\u0041\" : null\x7d".toList) ∧
      ∃ cursors, all (plain "\x7b\"\\u0041\" : null\x7d".toList) = .ok cursors ∧
        List.Forall₂ Shows cursors [.objectStart, .name "A", .null, .objectEnd] := by
  have escape : EscapeText 'A' (plain "\\u0041".toList) := .unit ⟨'0', '0', '4', '1', rfl, rfl⟩
  have chars : CharsText ['A'] (plain "\\u0041".toList) := .cons (.escape escape) .nil
  have name : StringText "A" (plain "\"\\u0041\"".toList) :=
    .quoted (s := "A") chars
  have blank : Blank [ascii ' '] := by
    intro b hb
    rw [List.mem_singleton.mp hb]
    rfl
  have none : Blank [] := fun _ hb => nomatch hb
  have text : IsText (.object [("A", .null)]) (plain "\x7b\"\\u0041\" : null\x7d".toList) :=
    ⟨[], _, [], none, .object (.one (.of none name blank blank .null) none), none, rfl⟩
  exact ⟨text, all_shows_lexemes text⟩

end RecordDecoding.TextCursor
