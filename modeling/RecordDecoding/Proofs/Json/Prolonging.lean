import RecordDecoding.Proofs.Json.Bounds
import RecordDecoding.Proofs.Json.Walking

namespace RecordDecoding

open Forward

namespace Forward

variable {ε σ α β : Type} [Readable σ]

-- Whenever a step succeeds and ends in a state of some sort, it does not notice the change of
-- states.
def Ignores (g : σ → σ) (C : σ → Prop) (x : Forward ε σ α) : Prop :=
  ∀ ⦃s a s'⦄, x.run s = .ok a s' → C s' → x.run (g s) = .ok a (g s')

-- There is something left to read.
def More (s : σ) : Prop :=
  0 < left s

theorem More.of_run_ok {x : Forward ε σ α} {s s' : σ} {a : α} (h : More s')
    (hr : x.run s = .ok a s') : More s :=
  Nat.lt_of_lt_of_le h (left_le_of_run_ok hr)

theorem Reads.more {x : Forward ε σ α} (hx : x.Reads) {s s' : σ} {a : α}
    (hr : x.run s = .ok a s') : More s :=
  Nat.zero_lt_of_lt (hx hr)

namespace Ignores

variable {g : σ → σ} {B C : σ → Prop} {x : Forward ε σ α} {f : α → Forward ε σ β}

theorem imp (h : Ignores g B x) (hc : ∀ {s}, C s → B s) : Ignores g C x :=
  fun _ _ _ hr hs => h hr (hc hs)

theorem pure (a : α) : Ignores g C (pure a : Forward ε σ α) := by
  intro _ _ _ h _
  cases h
  rfl

theorem fail (e : ε) : Ignores g C (Forward.fail e : Forward ε σ α) :=
  nofun

theorem view {v : σ → α} (h : ∀ s, C s → v (g s) = v s) :
    Ignores g C (Forward.view v : Forward ε σ α) := by
  intro s _ _ hr hs
  cases hr
  rw [run_view, h s hs]

theorem change {f : σ → σ} {hf} (h : ∀ s, C (f s) → f (g s) = g (f s)) :
    Ignores g C (Forward.change f hf : Forward ε σ Unit) := by
  intro s _ _ hr hs
  cases hr
  rw [run_change, h s hs]

theorem bind (hx : Ignores g B x) (hf : ∀ a, Ignores g C (f a))
    (hb : ∀ {s₀ a s b s'}, x.run s₀ = .ok a s → (f a).run s = .ok b s' → C s' → B s) :
    Ignores g C (x >>= f) := by
  intro _ _ _ hr hs
  have ⟨a, s₁, hr₁, hr₂⟩ := exists_of_bind_ok hr
  rw [run_bind_of_ok (hx hr₁ (hb hr₁ hr₂ hs))]
  exact hf a hr₂ hs

-- A step that never notices may come first.
theorem after (hx : Ignores g (fun _ => True) x) (hf : ∀ a, Ignores g C (f a)) :
    Ignores g C (x >>= f) :=
  bind hx hf fun _ _ _ => trivial

-- What is left behind the second step is left behind the first one.
theorem more (hx : Ignores g More x) (hf : ∀ a, Ignores g More (f a)) :
    Ignores g More (x >>= f) :=
  bind hx hf fun _ hr hs => hs.of_run_ok hr

-- What the second step reads is left behind the first one.
theorem reads (hx : Ignores g More x) (reads : ∀ a, (f a).Reads) (hf : ∀ a, Ignores g C (f a)) :
    Ignores g C (x >>= f) :=
  bind hx hf fun _ hr _ => (reads _).more hr

theorem loop {γ : Type} {next : Forward ε σ Unit} {reads : next.Reads}
    {step : γ → Forward ε σ (γ ⊕ α)} (hstep : ∀ b, Ignores g (fun _ => True) (step b))
    (hnext : Ignores g (fun _ => True) next) (b : γ) :
    Ignores g C (Forward.loop next reads step b) := by
  intro s a s' h _
  refine loop_ok (P := fun b s c s' => (Forward.loop next reads step b).run (g s) = .ok c (g s'))
    ?stop ?more h
  case stop =>
    intro b s c s' hs
    rw [run_loop, hstep b hs trivial]
  case more =>
    intro b s b' s₁ s₂ c s' hs hn ih
    rw [run_loop, hstep b hs trivial]
    dsimp only
    rw [hnext hn trivial]
    exact ih

end Ignores
end Forward

-- A reader with more bytes behind what is ahead.
def Reader.append (tail : List UInt8) (r : Reader) : Reader :=
  ⟨r.offset, r.ahead ++ tail⟩

namespace Scan

variable {α : Type} (tail : List UInt8)

-- A scanner does not notice more bytes if it left some.
abbrev Prolongs (x : Scan α) : Prop :=
  Ignores (Reader.append tail) More x

-- A scanner does not notice more bytes whatever it left.
abbrev Firm (x : Scan α) : Prop :=
  Ignores (Reader.append tail) (fun _ => True) x

variable {tail}

theorem exists_cons_of_more {r : Reader} (h : More r) : ∃ b bytes, r.ahead = b :: bytes :=
  List.exists_cons_of_length_pos h

theorem more_of_ahead {r : Reader} {b : UInt8} {bytes : List UInt8} (h : r.ahead = b :: bytes) :
    More r := by
  show 0 < r.ahead.length
  rw [h]
  exact Nat.zero_lt_succ _

-- The bytes of some sort, and a byte that ends them.
theorem exists_stop {r : Reader} {p : UInt8 → Bool} (h : More (r.dropWhile p)) :
    ∃ bytes b rest, (∀ b ∈ bytes, p b) ∧ p b = false ∧ r.ahead = bytes ++ b :: rest := by
  have ⟨b, rest, (hd : r.ahead.dropWhile p = _)⟩ := exists_cons_of_more h
  have hb := List.head?_dropWhile_not p r.ahead
  rw [hd] at hb
  refine ⟨r.ahead.takeWhile p, b, rest, fun b => List.mem_takeWhile_imp, by simpa using hb, ?_⟩
  rw [← hd, List.takeWhile_append_dropWhile]

theorem takeWhile_append {r : Reader} {p : UInt8 → Bool} (h : More (r.dropWhile p)) :
    (r.append tail).ahead.takeWhile p = r.ahead.takeWhile p := by
  have ⟨bytes, b, rest, hp, hb, ha⟩ := exists_stop h
  rw [Reader.append, ha, List.append_assoc, List.cons_append, takeWhile_append_stops hp (.cons hb),
    takeWhile_append_stops hp (.cons hb)]

theorem dropWhile_append {r : Reader} {p : UInt8 → Bool} (h : More (r.dropWhile p)) :
    (r.append tail).dropWhile p = (r.dropWhile p).append tail := by
  have ⟨bytes, b, rest, hp, hb, ha⟩ := exists_stop h
  rw [Reader.dropWhile, takeWhile_append h, Reader.append, Reader.dropWhile, Reader.append, ha,
    List.append_assoc, List.cons_append, dropWhile_append_stops hp (.cons hb),
    dropWhile_append_stops hp (.cons hb), List.cons_append]

theorem prolongs_peek : Prolongs tail peek := by
  refine .view fun r hr => ?_
  have ⟨b, bytes, ha⟩ := exists_cons_of_more hr
  rw [Reader.append, ha]
  rfl

theorem prolongs_skip (n : Nat) : Prolongs tail (skip n) := by
  refine .change fun r hr => ?_
  have le : n ≤ r.ahead.length := by
    have hr : 0 < (r.ahead.drop n).length := hr
    rw [List.length_drop] at hr
    omega
  rw [Reader.drop, Reader.append, List.drop_append_of_le_length le]
  rfl

theorem prolongs_skipWhile (p : UInt8 → Bool) : Prolongs tail (skipWhile p) :=
  .change fun _ => dropWhile_append

theorem firm_next : Firm tail next := by
  rintro ⟨o, ahead⟩ b r hr _
  cases ahead
  case nil  => cases hr
  case cons => cases hr; rfl

theorem firm_offset : Firm tail offset :=
  .view fun _ _ => rfl

theorem prolongs_skipDigits : Prolongs tail skipDigits :=
  .after firm_next fun _ => prolongs_skipWhile _

theorem prolongs_skipDigits? (offset : Nat) : Prolongs tail (skipDigits? offset) := by
  refine .more prolongs_peek fun b => ?_
  cases b
  case none => exact .fail _
  case some =>
    dsimp only
    split
    · exact prolongs_skipDigits
    · exact .fail _

theorem prolongs_wholePart (offset : Nat) : Prolongs tail (wholePart offset) := by
  refine .more prolongs_peek fun b => ?_
  cases b
  case none => exact .fail _
  case some =>
    dsimp only
    split
    · exact .after firm_next fun _ => .pure _
    split
    · exact prolongs_skipDigits
    · exact .fail _

theorem prolongs_fraction (offset : Nat) : Prolongs tail (fraction offset) := by
  refine .more prolongs_peek fun b => ?_
  split
  · exact .more (prolongs_skip 1) fun _ => .more (prolongs_skipDigits? _) fun _ => .pure _
  · exact .pure _

theorem prolongs_exponent (offset : Nat) : Prolongs tail (exponent offset) := by
  have digits : Prolongs tail (do skipDigits? offset; return true) :=
    .more (prolongs_skipDigits? _) fun _ => .pure _
  refine .more prolongs_peek fun b => ?_
  split
  case isFalse => exact .pure _
  case isTrue =>
    refine .more (prolongs_skip 1) fun _ => .more prolongs_peek fun sign => ?_
    split
    · exact .more (prolongs_skip 1) fun _ => digits
    · exact digits

theorem prolongs_number : Prolongs tail number := by
  have parts (start : Nat) : Prolongs tail (do
      wholePart start
      let hasFraction ← fraction start
      let hasExponent ← exponent start
      return if hasFraction || hasExponent then TokenKind.float else .integer) :=
    .more (prolongs_wholePart _) fun _ => .more (prolongs_fraction _) fun _ =>
      .more (prolongs_exponent _) fun _ => .pure _
  refine .after firm_offset fun start => .more prolongs_peek fun b => ?_
  split
  · exact .more (prolongs_skip 1) fun _ => parts start
  · exact parts start

-- What could go on with a number is not there.
theorem firm_number (stops : Stops goesOn tail) : Firm tail number := by
  rintro ⟨o, ahead⟩ kind ⟨o', rest⟩ hr _
  have ⟨cs, hn, (ha : ahead = _)⟩ := number_ok hr
  cases rest
  case cons => exact prolongs_number hr (Nat.zero_lt_succ _)
  case nil =>
    subst ha
    have none : Stops goesOn [] := nofun
    have ⟨kind₁, run₁, hk₁⟩ := run_number_text (o := o) hn none
    have ⟨kind₂, run₂, hk₂⟩ := run_number_text (o := o) hn stops
    have same : kind₂ = kind₁ := by
      rcases hk₁ with ⟨rfl, hi⟩ | ⟨rfl, hi⟩ <;> rcases hk₂ with ⟨rfl, hi'⟩ | ⟨rfl, hi'⟩
      · rfl
      · exact absurd hi hi'
      · exact absurd hi' hi
      · rfl
    cases run₁.symm.trans hr
    rw [Reader.append, List.append_nil, run₂, same]
    rfl

theorem firm_literal (word : List UInt8) : Firm tail (literal word) := by
  rintro ⟨o, ahead⟩ _ r hr _
  simp only [literal, run_bind, run_look] at hr ⊢
  split at hr
  case isFalse => split at hr <;> cases hr
  case isTrue hp =>
    obtain ⟨more, rfl⟩ := List.isPrefixOf_iff_prefix.mp hp
    have long : word.isPrefixOf (Reader.append tail ⟨o, word ++ more⟩).ahead :=
      List.isPrefixOf_iff_prefix.mpr ⟨more ++ tail, (List.append_assoc ..).symm⟩
    rw [if_pos long]
    cases word
    case nil =>
      cases more <;> cases hr
      rfl
    case cons b word =>
      cases hr
      simp [Reader.append, Reader.drop, skip, next]

theorem firm_unit (start : Nat) : Firm tail (unit start) := by
  rintro ⟨o, ahead⟩ n r hr _
  simp only [unit, run_bind, run_look] at hr ⊢
  split at hr
  case h_2 => cases hr
  case h_1 =>
    dsimp only [Reader.append, List.cons_append]
    split at hr
    case h_2 => cases hr
    case h_1 =>
      cases hr
      rfl

theorem firm_unicode (start : Nat) : Firm tail (unicode start) := by
  refine .after (firm_unit start) fun high => ?_
  split
  case isFalse =>
    split
    · exact .fail _
    · exact .pure _
  case isTrue =>
    have low : Firm tail (do
        let low ← unit start
        if isLowSurrogate low then
          return Char.ofNat (0x10000 + (high - 0xD800) * 0x400 + (low - 0xDC00))
        else Forward.fail (CursorError.invalidEscape start)) := by
      refine .after (firm_unit start) fun low => ?_
      split
      · exact .pure _
      · exact .fail _
    rintro ⟨o, ahead⟩ n r hr _
    rw [run_bind_of_ok (run_look _)] at hr ⊢
    split at hr
    case isFalse => cases hr
    case isTrue hp =>
      have ⟨more, (ha : _ = ahead)⟩ := List.isPrefixOf_iff_prefix.mp hp
      subst ha
      exact low hr trivial

theorem firm_escape : Firm tail escape := by
  refine .after firm_offset fun start => .after firm_next fun _ => .after firm_next fun b => ?_
  cases shortEscape? b
  case some => exact .pure _
  case none =>
    dsimp only
    split
    · exact firm_unicode start
    · exact .fail _

end Scan

namespace TextCursor

-- A cursor over a text with more bytes at the end.
def append (tail : List UInt8) (c : TextCursor) : TextCursor :=
  { c with source := c.source ++ tail, reader := c.reader.append tail }

-- More bytes do not change the token that the cursor is on.
def Settled (c : TextCursor) : Prop :=
  More c ∨ ¬c.kind.IsNumber

variable (tail : List UInt8)

-- A step does not notice more bytes if it leaves the cursor on a token that they do not change.
abbrev Prolongs (x : Step Unit) : Prop :=
  Ignores (append tail) Settled x

-- A step does not notice more bytes whatever it left.
abbrev Firm {α : Type} (x : Step α) : Prop :=
  Ignores (append tail) (fun _ => True) x

variable {tail} {c c' : TextCursor}

theorem Firm.ignores {x : Step Unit} {C : TextCursor → Prop} (hx : Firm tail x) :
    Ignores (append tail) C x :=
  hx.imp fun _ => trivial

theorem ignores_onReader {α : Type} {x : Scan α} {B : Reader → Prop}
    (hx : Ignores (Reader.append tail) B x) : Ignores (append tail) (B ·.reader) (onReader x) := by
  intro c a c' hr hc
  have ⟨r, hr', he⟩ := onReader_ok hr
  subst he
  exact run_onReader (c := c.append tail) (hx hr' hc)

theorem ignores_peek : Ignores (append tail) More peek :=
  ignores_onReader Scan.prolongs_peek

theorem ignores_skipBlank : Ignores (append tail) More skipBlank :=
  ignores_onReader (Scan.prolongs_skipWhile _)

theorem firm_next : Firm tail next :=
  ignores_onReader Scan.firm_next

theorem firm_unexpected {α : Type} {C : TextCursor → Prop} (wanted : Wanted) :
    Ignores (append tail) C (unexpected wanted : Step α) := by
  intro c _ _ hr _
  have fails : (unexpected wanted : Step α).run c = .error (c.reader.unexpected wanted) c := rfl
  rw [fails] at hr
  cases hr

-- A step that goes by the next byte, and fails if there is none.
theorem ignores_peek_some {α : Type} {C : TextCursor → Prop} {f : Option UInt8 → Step α}
    (none : ∀ c, ∃ e c', (f none).run c = .error e c')
    (some : ∀ b, Ignores (append tail) C (f (some b))) : Ignores (append tail) C (peek >>= f) := by
  intro c a c' hr hc
  rw [run_bind_of_ok (run_peek c)] at hr
  cases ha : c.reader.ahead
  case nil =>
    have ⟨_, _, he⟩ := none c
    rw [ha, List.head?_nil, he] at hr
    cases hr
  case cons b rest =>
    rw [ha] at hr
    have next : (append tail c).reader.ahead = b :: (rest ++ tail) := by
      rw [append, Reader.append, ha, List.cons_append]
    rw [run_bind_of_ok (run_peek _), next]
    exact some b hr hc

theorem firm_scalar (kind : TokenKind) : Firm tail (setKind kind >>= fun _ => afterValue) :=
  .after (.change fun _ _ => rfl) fun _ => .change fun _ _ => rfl

theorem firm_openContainer (container : Container) (kind : TokenKind) (expect : Expect) :
    Firm tail (openContainer container kind expect) :=
  .after firm_next fun _ => .after (.change fun _ _ => rfl) fun _ =>
    .after (.change fun _ _ => rfl) fun _ => .change fun _ _ => rfl

theorem firm_closeContainer (kind : TokenKind) : Firm tail (closeContainer kind) :=
  .after (.change fun _ _ => rfl) fun _ => .after firm_next fun _ =>
    .after (.change fun _ _ => rfl) fun _ => firm_scalar kind

theorem firm_readLiteral (word : String) (kind : TokenKind) : Firm tail (readLiteral word kind) :=
  .after (ignores_onReader (Scan.firm_literal _)) fun _ => firm_scalar kind

theorem firm_stringEscape : Firm tail stringEscape :=
  .after (ignores_onReader Scan.firm_escape) fun _ => .change fun _ _ => rfl

theorem firm_stringPartEnd : Firm tail stringPartEnd := by
  refine ignores_peek_some (fun _ => ⟨_, _, rfl⟩) fun b => ?_
  split
  · exact .after firm_next fun _ => .pure _
  split
  · exact .pure _
  · exact firm_unexpected _

theorem firm_stringPart (start : Nat) (u : Unit) : Firm tail (stringPart start u) := by
  intro c x c' hr _
  rw [run_stringPart] at hr ⊢
  split at hr
  case h_1 => cases hr
  case h_2 s hs =>
    -- The byte that ends the part was seen, so it ends the part in the longer text as well.
    have more : More (c.reader.dropWhile Scan.isPlain) := by
      rcases stringPartEnd_ok hr with ⟨_, _, ha, _⟩ | ⟨_, ha, _⟩
      · exact Scan.more_of_ahead ha
      · have ⟨_, ha⟩ := List.head?_eq_some_iff.mp ha
        exact Scan.more_of_ahead ha
    rw [show (append tail c).reader = c.reader.append tail from rfl, Scan.takeWhile_append more, hs,
      Scan.dropWhile_append more]
    exact firm_stringPartEnd hr trivial

theorem firm_readString : Firm tail readString :=
  .after (ignores_onReader Scan.firm_offset) fun start => .after firm_next fun _ =>
    .after (.change fun _ _ => rfl) fun _ => .loop (firm_stringPart start) firm_stringEscape ()

theorem firm_readKey : Firm tail readKey := by
  refine ignores_peek_some (fun _ => ⟨_, _, rfl⟩) fun b => ?_
  split
  case isFalse => exact firm_unexpected _
  case isTrue =>
    refine .after (.change fun _ _ => rfl) fun _ => .after firm_readString fun _ => ?_
    refine .reads ignores_skipBlank (fun _ => Reads.bind_right _ fun b => ?_) fun _ => ?_
    · split
      · exact Reads.bind_left next_reads _
      · exact unexpected_reads _
    · refine ignores_peek_some (fun _ => ⟨_, _, rfl⟩) fun b => ?_
      split
      case isFalse => exact firm_unexpected _
      case isTrue =>
        exact .after firm_next fun _ => .after (.change fun _ _ => rfl) fun _ =>
          .change fun _ _ => rfl

theorem prolongs_readNumber : Prolongs tail readNumber := by
  refine .bind (ignores_onReader Scan.prolongs_number) (fun kind => ?_) fun hk hr hc => ?_
  · refine Ignores.after (.change ?_) fun _ => (firm_scalar kind).ignores
    exact fun _ _ => rfl
  · cases hr
    refine hc.resolve_right fun hn => hn ?_
    exact number_answers hk

theorem firm_nextMember : Firm tail nextMember := by
  refine ignores_peek_some (fun _ => ⟨_, _, rfl⟩) fun b => ?_
  split
  case isTrue =>
    exact .after firm_next fun _ => .reads ignores_skipBlank (fun _ => readKey_reads) fun _ =>
      firm_readKey
  split
  case isTrue  => exact firm_closeContainer _
  case isFalse => exact firm_unexpected _

-- Steps to a next token, for what does not notice a change of number.
section Values

variable {C : TextCursor → Prop} (hn : Ignores (append tail) C readNumber)
include hn

theorem ignores_readValue : Ignores (append tail) C readValue := by
  refine .after (.change fun _ _ => rfl) fun _ => ?_
  refine ignores_peek_some (fun _ => ⟨_, _, rfl⟩) fun b => ?_
  split
  case isTrue => exact (firm_openContainer ..).ignores
  split
  case isTrue => exact (firm_openContainer ..).ignores
  split
  case isTrue => exact Firm.ignores (.after firm_readString fun _ => firm_scalar _)
  split
  case isTrue => exact hn
  split
  case isTrue => exact (firm_readLiteral ..).ignores
  split
  case isTrue => exact (firm_readLiteral ..).ignores
  split
  case isTrue  => exact (firm_readLiteral ..).ignores
  case isFalse => exact firm_unexpected _

theorem ignores_nextItem : Ignores (append tail) C nextItem := by
  refine ignores_peek_some (fun _ => ⟨_, _, rfl⟩) fun b => ?_
  split
  case isTrue =>
    exact .after firm_next fun _ => .reads ignores_skipBlank (fun _ => readValue_reads) fun _ =>
      ignores_readValue hn
  split
  case isTrue  => exact (firm_closeContainer _).ignores
  case isFalse => exact firm_unexpected _

theorem ignores_readNext (expect : Expect) (stack : List Container) :
    Ignores (append tail) C (readNext expect stack) := by
  unfold readNext
  split
  · exact .fail _
  · exact ignores_readValue hn
  · refine .reads ignores_peek (fun _ => ?_) fun _ => ?_ <;> split
    · exact closeContainer_reads _
    · exact readValue_reads
    · exact (firm_closeContainer _).ignores
    · exact ignores_readValue hn
  · refine .reads ignores_peek (fun _ => ?_) fun _ => ?_ <;> split
    · exact closeContainer_reads _
    · exact readKey_reads
    · exact (firm_closeContainer _).ignores
    · exact firm_readKey.ignores
  · exact firm_nextMember.ignores
  · exact ignores_nextItem hn
  · exact .fail _

theorem ignores_advance : Ignores (append tail) C advance := by
  intro c _ c' hr hc
  have step : Ignores (append tail) C (if c.isCancelled then Forward.fail .cancelled
      else skipBlank >>= fun _ => readNext c.expect c.stack) := by
    split
    · exact .fail _
    · exact .reads ignores_skipBlank (fun _ => readNext_reads _ _) fun _ => ignores_readNext hn _ _
  exact step (s := c) hr hc

end Values

theorem prolongs_advance : Prolongs tail advance :=
  ignores_advance prolongs_readNumber

theorem firm_readNumber (stops : Scan.Stops Scan.goesOn tail) : Firm tail readNumber := by
  refine .after (ignores_onReader (Scan.firm_number stops)) fun kind => ?_
  refine Ignores.after (.change ?_) fun _ => firm_scalar kind
  exact fun _ _ => rfl

theorem firm_advance (stops : Scan.Stops Scan.goesOn tail) : Firm tail advance :=
  ignores_advance (firm_readNumber stops)

-- What was walked over some bytes is walked over more of them.
theorem Trail.append_stops {stack : List Container} (h : Trail stack c c')
    (stops : Scan.Stops Scan.goesOn tail) : Trail stack (append tail c) (append tail c') := by
  induction h
  case refl         => exact .refl
  case tail step ih => exact ih.tail ⟨step.1, firm_advance stops step.2 trivial⟩

theorem Trail.append {stack : List Container} (h : Trail stack c c') (hc : Settled c') :
    Trail stack (append tail c) (append tail c') := by
  induction h
  case refl => exact .refl
  case tail step ih =>
    -- The last step had something to read, so the one before it left something.
    have more := advance_reads.more step.2
    exact (ih (.inl more)).tail ⟨step.1, prolongs_advance step.2 hc⟩

end TextCursor

end RecordDecoding
