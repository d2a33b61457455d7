import RecordDecoding.Proofs.Json.Brackets
import RecordDecoding.Proofs.Json.Endings
import RecordDecoding.Proofs.Json.Signs
import RecordDecoding.Proofs.Json.Standing

namespace RecordDecoding

open Forward Json

-- What is read does not move the end of the bytes.
theorem Scan.Keeps.stop {α : Type} {x : Scan α} (hx : x.Keeps) {r r' : Reader} {a : α}
    (h : x.run r = .ok a r') : r'.stop = r.stop := by
  have before : r.Over (List.replicate r.offset 0 ++ r.ahead) := ⟨by simp, by simp⟩
  have sat := hx _ before
  rw [h] at sat
  cases sat
  case ok behind => exact behind.length.trans before.length.symm

namespace TextCursor

-- The same bytes are read, and those that were read in between end behind a character.
structure Past (c c' : TextCursor) : Prop where
  source : c'.source = c.source
  stop   : c'.reader.stop = c.reader.stop
  active : c'.isCancelled = c.isCancelled
  bytes  : ∃ bytes, Ending.Whole bytes ∧ c.reader.ahead = bytes ++ c'.reader.ahead

namespace Past

variable {c c' c'' : TextCursor} {o : Nat} {bytes rest : List UInt8}

theorem aside (hs : c'.source = c.source) (hr : c'.reader = c.reader)
    (ha : c'.isCancelled = c.isCancelled) : c.Past c' where
  source := hs
  stop   := congrArg _ hr
  active := ha
  bytes  := ⟨[], .nil, by rw [hr, List.nil_append]⟩

theorem refl (c : TextCursor) : c.Past c := aside rfl rfl rfl

theorem trans (h : c.Past c') (h' : c'.Past c'') : c.Past c'' where
  source := h'.source.trans h.source
  stop   := h'.stop.trans h.stop
  active := h'.active.trans h.active
  bytes  := by
    have ⟨bytes, hw, ha⟩ := h.bytes
    have ⟨bytes', hw', ha'⟩ := h'.bytes
    exact ⟨bytes ++ bytes', hw.append hw', by rw [ha, ha', List.append_assoc]⟩

-- Only the reader moves on.
theorem reads (hc : c.reader = ⟨o, bytes ++ rest⟩) (whole : Ending.Whole bytes) :
    c.Past { c with reader := ⟨o + bytes.length, rest⟩ } where
  source := rfl
  stop   := by simp [hc, Reader.stop, Nat.add_assoc]
  active := rfl
  bytes  := ⟨bytes, whole, by rw [hc]⟩

-- All bytes of some sort that comes next.
theorem dropWhile (c : TextCursor) {p : UInt8 → Bool} (hp : ∀ b, p b → b ≠ ascii '\\') :
    c.Past { c with reader := c.reader.dropWhile p } := by
  have hc : c.reader =
      ⟨c.reader.offset, c.reader.ahead.takeWhile p ++ c.reader.ahead.dropWhile p⟩ := by
    rw [List.takeWhile_append_dropWhile]
  exact .reads hc (.of_ne fun b hb => hp b (List.mem_takeWhile_imp hb))

theorem ending (h : c.Past c') : Ending.of c.reader.ahead = Ending.of c'.reader.ahead := by
  have ⟨_, whole, ha⟩ := h.bytes
  rw [ha, whole.of_append]

theorem nil (h : c.Past c') (hc : c.reader.ahead = []) : c'.reader.ahead = [] := by
  have ⟨_, _, ha⟩ := h.bytes
  rw [hc] at ha
  exact (List.append_eq_nil_iff.mp ha.symm).2

end Past

-- Neither a blank nor what could go on with a number comes first.
def Apart (tail : List UInt8) : Prop :=
  ∃ b rest, tail = b :: rest ∧ Ascii.isBlank b = false ∧ Scan.goesOn b = false

theorem Apart.append {tail : List UInt8} (h : Apart tail) (more : List UInt8) :
    Apart (tail ++ more) := by
  obtain ⟨b, rest, rfl, hb⟩ := h
  exact ⟨b, rest ++ more, rfl, hb⟩

theorem Apart.stops {tail : List UInt8} (h : Apart tail) : Scan.Stops Scan.goesOn tail := by
  obtain ⟨b, rest, rfl, _, hb⟩ := h
  exact .cons hb

theorem Apart.stops_blank {tail : List UInt8} (h : Apart tail) : Scan.Stops Ascii.isBlank tail := by
  obtain ⟨b, rest, rfl, hb, _⟩ := h
  exact .cons hb

theorem append_nil (c : TextCursor) : append [] c = c := by
  simp [append, Reader.append]

theorem append_append (tail more : List UInt8) (c : TextCursor) :
    append (tail ++ more) c = append more (append tail c) := by
  simp [append, Reader.append]

variable {α β : Type}

-- The step fails for want of bytes behind the last one. It can be given some that are read to the
-- end, if it was not stopped in a unit that cannot be completed.
structure Wants (x : Step α) (c : TextCursor) (n : Nat) : Prop where
  stop : n = c.reader.stop
  completes {tail a c'} :
    x.run (append tail c) = .ok a c' → (Ending.of c.reader.ahead).Completes
  exists_tail : (Ending.of c.reader.ahead).Completes → ∃ tail a c',
    x.run (append tail c) = .ok a c' ∧ c'.reader.ahead = [] ∧ (c.reader.ahead = [] → Apart tail)

-- The step goes past what it reads. Where that is not enough, it wants more.
structure Mends (x : Step α) (c : TextCursor) : Prop where
  past {a c'} : x.run c = .ok a c' → c.Past c'
  wants {n c'} : x.run c = .error (.unexpectedEof n) c' → Wants x c n

-- The step complains at once if nothing is left.
def Starves (x : Step α) : Prop :=
  ∀ ⦃c⦄, c.reader.ahead = [] → ∃ c', x.run c = .error (.unexpectedEof c.reader.offset) c'

-- The step succeeds with just these bytes.
def Spends (tail : List UInt8) (x : Step α) : Prop :=
  ∀ (c : TextCursor) (o : Nat), ∃ a c',
    x.run { c with reader := ⟨o, tail⟩ } = .ok a c' ∧ c'.reader.ahead = []

variable {x y : Step α} {f : α → Step β}
  {c c₁ c' : TextCursor} {a : α} {b : UInt8} {n o : Nat} {bytes tail more : List UInt8}

theorem Spends.run (h : Spends tail x) (hc : c.reader.ahead = []) :
    ∃ a c', x.run (append tail c) = .ok a c' ∧ c'.reader.ahead = [] := by
  have same : append tail c =
      { append tail c with reader := ⟨c.reader.offset, tail⟩ } := by
    rw [append, Reader.append, hc]
    rfl
  exact same ▸ h (append tail c) c.reader.offset

-- More bytes do not go on with the blanks that are skipped.
theorem skipBlank_append (h : (c.reader.dropWhile Ascii.isBlank).ahead = [] →
    Scan.Stops Ascii.isBlank tail) : skipBlank.run (append tail c) =
      .ok () (append tail { c with reader := c.reader.dropWhile Ascii.isBlank }) := by
  cases hc : (c.reader.dropWhile Ascii.isBlank).ahead
  case cons => exact ignores_skipBlank rfl (Scan.more_of_ahead hc)
  case nil =>
    have blank : Blank c.reader.ahead := List.dropWhile_eq_nil_iff.mp hc
    have whole : c.reader.dropWhile Ascii.isBlank =
        ⟨c.reader.offset + c.reader.ahead.length, []⟩ := by
      rw [Reader.dropWhile, List.takeWhile_eq_self_iff.mpr blank]
      exact congrArg _ hc
    rw [whole]
    exact run_skipBlank blank (h hc) rfl

theorem unexpected_starves (wanted : Wanted) : Starves (unexpected wanted : Step α) := by
  intro c hc
  have run : (unexpected wanted : Step α).run c = .error (c.reader.unexpected wanted) c := rfl
  rw [Reader.unexpected, hc] at run
  exact ⟨c, run⟩

theorem Starves.peek {f : Option UInt8 → Step β} (h : Starves (f none)) :
    Starves (TextCursor.peek >>= f) := by
  intro c hc
  rw [run_bind_of_ok (run_peek c), hc, List.head?_nil]
  exact h hc

namespace Mends

theorem of_ok (hr : x.run c = .ok a c') (past : c.Past c') : Mends x c where
  past h := by
    cases hr.symm.trans h
    exact past
  wants h := nomatch hr.symm.trans h

theorem of_error {e : CursorError} (hr : x.run c = .error e c') (he : ∀ n, e ≠ .unexpectedEof n) :
    Mends x c where
  past h := nomatch hr.symm.trans h
  wants h := by
    cases hr.symm.trans h
    exact absurd rfl (he _)

-- Such as the rest of a step, behind what it reads in any case.
theorem step (run : ∀ tail, x.run (append tail c) = y.run (append tail c₁)) (past : c.Past c₁)
    (h : Mends y c₁) : Mends x c := by
  have run₀ : x.run c = y.run c₁ := by simpa only [append_nil] using run []
  refine ⟨fun hr => past.trans (h.past (run₀.symm.trans hr)), fun hr => ?_⟩
  have wants := h.wants (run₀.symm.trans hr)
  refine ⟨wants.stop.trans past.stop, fun hr => ?_, fun completes => ?_⟩
  · rw [past.ending]
    exact wants.completes ((run _).symm.trans hr)
  · rw [past.ending] at completes
    have ⟨tail, a, c', hr, hc', apart⟩ := wants.exists_tail completes
    exact ⟨tail, a, c', (run _).trans hr, hc', fun hc => apart (past.nil hc)⟩

theorem after (run : ∀ tail, x.run (append tail c) = .ok a (append tail c₁)) (past : c.Past c₁)
    (h : Mends (f a) c₁) : Mends (x >>= f) c :=
  .step (fun tail => run_bind_of_ok (run tail)) past h

theorem markStart {f : Unit → Step β} (h : Mends (f ()) { c with start := c.reader.offset }) :
    Mends (TextCursor.markStart >>= f) c := by
  have past : c.Past { c with start := c.reader.offset } := .aside rfl rfl rfl
  exact .after (fun _ => rfl) past h

-- What completes the first of two steps is followed by what the second one is given.
theorem bind (hx : Mends x c) (firm : ∀ tail, Firm tail x)
    (hf : ∀ {a c₁}, x.run c = .ok a c₁ → Mends (f a) c₁) (spends : ∀ a, Spends more (f a)) :
    Mends (x >>= f) c := by
  cases hr : x.run c
  case ok a c₁ => exact .after (fun tail => firm tail hr trivial) (hx.past hr) (hf hr)
  case error e c₁ =>
    have fails : (x >>= f).run c = .error e c₁ := by rw [run_bind, hr]
    refine ⟨fun h => (nomatch fails.symm.trans h), fun h => ?_⟩
    cases fails.symm.trans h
    have wants := hx.wants hr
    refine ⟨wants.stop, fun h => ?_, fun completes => ?_⟩
    · have ⟨_, _, h, _⟩ := exists_of_bind_ok h
      exact wants.completes h
    · have ⟨tail, a, c', h, hc', apart⟩ := wants.exists_tail completes
      have ⟨b, c'', h', hc''⟩ := (spends a).run hc'
      refine ⟨tail ++ more, b, c'', ?_, hc'', fun hc => (apart hc).append more⟩
      rw [append_append, run_bind_of_ok (firm more h trivial), h']

-- Nothing is left, and there are bytes with which the step succeeds.
theorem of_empty (hc : c.reader.ahead = []) (starves : Starves x) (apart : Apart tail)
    (spends : Spends tail x) : Mends x c where
  past h := by
    have ⟨_, hr⟩ := starves hc
    cases hr.symm.trans h
  wants h := by
    have ⟨_, hr⟩ := starves hc
    cases hr.symm.trans h
    have whole : Ending.Whole c.reader.ahead := hc ▸ .nil
    have ⟨a, c', run, hc'⟩ := spends.run hc
    refine ⟨?_, fun _ => whole.completes, fun _ => ⟨tail, a, c', run, hc', fun _ => apart⟩⟩
    rw [Reader.stop, hc]
    rfl

-- What goes by the next byte.
theorem peek {f : Option UInt8 → Step β} (none : Starves (f none)) (apart : Apart tail)
    (spends : Spends tail (TextCursor.peek >>= f))
    (some : ∀ b, c.reader.ahead.head? = some b → Mends (f (some b)) c) :
    Mends (TextCursor.peek >>= f) c := by
  cases hc : c.reader.ahead
  case nil => exact .of_empty hc none.peek apart spends
  case cons b rest =>
    have hb : c.reader.ahead.head? = Option.some b := by rw [hc, List.head?_cons]
    refine .after (fun tail => ?_) (.refl c) (some b hb)
    rw [run_peek, append, Reader.append, hc, List.cons_append, List.head?_cons]

theorem next {f : UInt8 → Step β} (hb : c.reader.ahead.head? = some b) (hn : b ≠ ascii '\\')
    (h : ∀ {c₁}, Mends (f b) c₁) : Mends (TextCursor.next >>= f) c := by
  have ⟨rest, ha⟩ := List.head?_eq_some_iff.mp hb
  have hc : c.reader = ⟨c.reader.offset, [b] ++ rest⟩ := by rw [List.singleton_append, ← ha]
  have whole : Ending.Whole [b] := .of_ne (by simpa using hn)
  have run : TextCursor.next.run c = _ := run_next hc
  exact .after (fun tail => firm_next run trivial) (.reads hc whole) h

-- Blanks may come before anything. If they are the last bytes, what is to come does not start with
-- more of them.
theorem blank {x : Step β} (h : ∀ c, Mends x c) : Mends (skipBlank >>= fun _ => x) c := by
  let c₁ : TextCursor := { c with reader := c.reader.dropWhile Ascii.isBlank }
  have past : c.Past c₁ := .dropWhile c fun _ => ne_of_isBlank
  have run : (skipBlank >>= fun _ => x).run c = x.run c₁ := rfl
  refine ⟨fun hr => past.trans ((h c₁).past (run.symm.trans hr)), fun hr => ?_⟩
  have wants := (h c₁).wants (run.symm.trans hr)
  refine ⟨wants.stop.trans past.stop, fun {tail _ _} hr => ?_, fun completes => ?_⟩
  · rw [past.ending]
    cases hc₁ : c₁.reader.ahead
    case nil  => exact Ending.Whole.nil.completes
    case cons =>
      have moved : skipBlank.run (append tail c) = .ok () (append tail c₁) :=
        skipBlank_append fun hc => absurd (hc₁.symm.trans hc) (List.cons_ne_nil _ _)
      exact hc₁ ▸ wants.completes ((run_bind_of_ok moved).symm.trans hr)
  · rw [past.ending] at completes
    have ⟨tail, a, c', hr, hc', apart⟩ := wants.exists_tail completes
    have moved := skipBlank_append fun hc => (apart hc).stops_blank
    exact ⟨tail, a, c', (run_bind_of_ok moved).trans hr, hc', fun hc => apart (past.nil hc)⟩

end Mends

section Scalars

theorem scalar_mends (kind : TokenKind) : Mends (setKind kind >>= fun _ => afterValue) c :=
  .of_ok rfl (.aside rfl rfl rfl)

theorem scalar_spends (kind : TokenKind) : Spends [] (setKind kind >>= fun _ => afterValue) :=
  fun _ _ => ⟨(), _, rfl, rfl⟩

theorem openContainer_mends {container : Container} {kind : TokenKind} {expect : Expect}
    (hb : c.reader.ahead.head? = some b) (hn : b ≠ ascii '\\') :
    Mends (openContainer container kind expect) c :=
  .next hb hn (.of_ok rfl (.aside rfl rfl rfl))

theorem closeContainer_mends {kind : TokenKind} (hb : c.reader.ahead.head? = some b)
    (hn : b ≠ ascii '\\') : Mends (closeContainer kind) c :=
  .markStart (.next hb hn (.of_ok rfl (.aside rfl rfl rfl)))

theorem unexpected_mends (wanted : Wanted) (hb : c.reader.ahead.head? = some b) :
    Mends (unexpected wanted : Step α) c := by
  have ⟨rest, ha⟩ := List.head?_eq_some_iff.mp hb
  have run : (unexpected wanted : Step α).run c = .error (c.reader.unexpected wanted) c := rfl
  refine .of_error run fun n => ?_
  rw [Reader.unexpected, ha]
  nofun

end Scalars

section Scanners

theorem onReader_error {x : Scan α} {e : CursorError} (h : (onReader x).run c = .error e c') :
    ∃ r, x.run c.reader = .error e r := by
  simp only [onReader] at h
  split at h
  case h_1    => cases h
  case h_2 hx =>
    cases h
    exact ⟨_, hx⟩

-- A scanner that finds something to read.
theorem Mends.onReader {x : Scan α} (keeps : x.Keeps) (hc : c.reader = ⟨o, bytes⟩)
    (left : bytes ≠ [])
    (past : ∀ {a r}, x.run ⟨o, bytes⟩ = .ok a r →
      ∃ text, Ending.Whole text ∧ bytes = text ++ r.ahead)
    (wants : ∀ {n r}, x.run ⟨o, bytes⟩ = .error (.unexpectedEof n) r → n = o + bytes.length ∧
      (∀ {tail a r}, x.run ⟨o, bytes ++ tail⟩ = .ok a r → (Ending.of bytes).Completes) ∧
      ((Ending.of bytes).Completes → ∃ tail a r, x.run ⟨o, bytes ++ tail⟩ = .ok a r ∧
        r.ahead = [])) :
    Mends (onReader x) c where
  past h := by
    obtain ⟨r, hr, rfl⟩ := onReader_ok h
    refine ⟨rfl, keeps.stop hr, rfl, ?_⟩
    rw [hc] at hr ⊢
    exact past hr
  wants h := by
    obtain ⟨r, hr⟩ := onReader_error h
    rw [hc] at hr
    obtain ⟨stop, completes, completed⟩ := wants hr
    refine ⟨stop.trans ?_, fun h => ?_, fun h => ?_⟩
    · rw [Reader.stop, hc]
    · obtain ⟨_, hr, _⟩ := onReader_ok h
      rw [append, Reader.append, hc] at hr
      rw [hc]
      exact completes hr
    · rw [hc] at h ⊢
      obtain ⟨tail, a, r, hr, ha⟩ := completed h
      have run : x.run (append tail c).reader = .ok a r := by rwa [append, Reader.append, hc]
      exact ⟨tail, a, _, run_onReader run, ha, fun hn => absurd hn left⟩

variable {word : List UInt8}

theorem literal_mends (hw : word ≠ []) (hn : ascii '\\' ∉ word) (hc : c.reader.ahead ≠ []) :
    Mends (onReader (Scan.literal word)) c := by
  have ne : ∀ b ∈ word, b ≠ ascii '\\' := fun b hb he => hn (he ▸ hb)
  have reader : c.reader = ⟨c.reader.offset, c.reader.ahead⟩ := rfl
  refine .onReader (Scan.keeps_literal word) reader hc
    (fun hr => ⟨word, .of_ne ne, Scan.literal_ok hw hr⟩) fun hr => ?_
  have ⟨stop, more, hm⟩ := Scan.literal_wants hw hr
  have whole : Ending.Whole c.reader.ahead := .of_ne fun b hb => ne b (hm ▸ by simp [hb])
  have run : (Scan.literal word).run ⟨c.reader.offset, word ++ []⟩ = _ := Scan.run_literal hw
  rw [List.append_nil] at run
  exact ⟨stop, fun _ => whole.completes, fun _ => ⟨more, (), _, by rw [hm, run], rfl⟩⟩

theorem readLiteral_mends {word : String} (kind : TokenKind) (hw : word.toList.map ascii ≠ [])
    (hn : ascii '\\' ∉ word.toList.map ascii) (hc : c.reader.ahead ≠ []) :
    Mends (readLiteral word kind) c :=
  .bind (literal_mends hw hn hc) (fun _ => ignores_onReader (Scan.firm_literal _))
    (fun _ => scalar_mends kind) fun _ => scalar_spends kind

-- A number is as long as it gets, so that it wants nothing.
theorem number_mends (hc : c.reader.ahead ≠ []) : Mends (onReader Scan.number) c := by
  have reader : c.reader = ⟨c.reader.offset, c.reader.ahead⟩ := rfl
  refine .onReader Scan.keeps_number reader hc (fun hr => ?_) fun hr => nomatch Scan.number_error hr
  have ⟨cs, hn, ha⟩ := Scan.number_ok hr
  exact ⟨_, .of_ne (ne_of_number hn), ha⟩

theorem readNumber_mends (hc : c.reader.ahead ≠ []) : Mends readNumber c where
  past h := by
    have ⟨_, _, hrun, h⟩ := exists_of_bind_ok h
    cases h
    exact ((number_mends hc).past hrun).trans (.aside rfl rfl rfl)
  wants h := by
    rcases error_of_run_bind h with h | ⟨_, _, _, h⟩
    · have ⟨_, hr⟩ := onReader_error h
      cases Scan.number_error hr
    · cases h

theorem escape_mends (hb : c.reader.ahead.head? = some (ascii '\\')) :
    Mends (onReader Scan.escape) c := by
  have ⟨bytes, ha⟩ := List.head?_eq_some_iff.mp hb
  have hc : c.reader = ⟨c.reader.offset, ascii '\\' :: bytes⟩ := by rw [← ha]
  refine .onReader Scan.keeps_escape hc (List.cons_ne_nil _ _) (fun hr => ?_) fun hr => ?_
  case refine_1 =>
    have ⟨text, escaped, ht⟩ := Scan.escape_escaped hr
    exact ⟨text, escaped.whole, ht⟩
  case refine_2 =>
    have ⟨stop, cut⟩ := Scan.escape_wants hr
    exact ⟨stop, Scan.escape_completes hr, cut.exists_run⟩

theorem stringEscape_mends (hb : c.reader.ahead.head? = some (ascii '\\')) :
    Mends stringEscape c :=
  .bind (escape_mends hb) (fun _ => ignores_onReader Scan.firm_escape)
    (fun _ => .of_ok rfl (.aside rfl rfl rfl)) fun _ _ _ => ⟨(), _, rfl, rfl⟩

end Scanners

section Strings

theorem ne_of_isPlain {b : UInt8} (h : Scan.isPlain b) : b ≠ ascii '\\' :=
  (Scan.isPlain_iff.mp h).2.1

theorem stringPartEnd_mends : Mends stringPartEnd c := by
  have apart : Apart [ascii '"'] := ⟨_, _, rfl, rfl, rfl⟩
  refine .peek (unexpected_starves _) apart (fun _ _ => ⟨_, _, rfl, rfl⟩) fun b hb => ?_
  split
  case isTrue hq =>
    cases hq
    exact .next hb (by decide) (.of_ok rfl (.refl _))
  case isFalse =>
    split
    case isTrue  => exact .of_ok rfl (.refl _)
    case isFalse => exact unexpected_mends _ hb

theorem stringPart_past {start : Nat} {x : Unit ⊕ Unit}
    (h : (stringPart start ()).run c = .ok x c') : c.Past c' := by
  rw [run_stringPart] at h
  split at h
  case h_1 => cases h
  case h_2 =>
    have part : c.Past { c with reader := c.reader.dropWhile Scan.isPlain } :=
      .dropWhile c fun _ => ne_of_isPlain
    refine Past.trans ?_ (stringPartEnd_mends.past h)
    exact part.trans (.aside rfl rfl rfl)

theorem unexpected_wants {r : Reader} {wanted : Wanted}
    (h : r.unexpected wanted = .unexpectedEof n) : r = ⟨n, []⟩ := by
  obtain ⟨o, ahead⟩ := r
  cases ahead
  case nil  => cases h; rfl
  case cons => cases h

theorem stringPartEnd_wants (h : stringPartEnd.run c = .error (.unexpectedEof n) c') :
    c.reader = ⟨n, []⟩ := by
  rw [stringPartEnd, run_bind_of_ok (run_peek c)] at h
  split at h
  case isTrue hb =>
    obtain ⟨rest, ha⟩ := List.head?_eq_some_iff.mp hb
    have hc : c.reader = ⟨c.reader.offset, ascii '"' :: rest⟩ := by rw [← ha]
    cases (run_bind_of_ok (run_next hc)).symm.trans h
  case isFalse =>
    split at h
    case isTrue  => cases h
    case isFalse =>
      have run : (unexpected .stringCharacter : Step (Unit ⊕ Unit)).run c =
        .error (c.reader.unexpected .stringCharacter) c := rfl
      rw [run, Outcome.error.injEq] at h
      exact unexpected_wants h.1

theorem stringPart_escape {start : Nat} {u : Unit}
    (h : (stringPart start ()).run c = .ok (.inl u) c') :
    c'.reader.ahead.head? = some (ascii '\\') := by
  have ⟨_, _, _, _, h⟩ := stringPart_ok h
  rcases stringPartEnd_ok h with ⟨hx, _⟩ | ⟨_, hb, hc⟩
  · cases hx
  · exact hc ▸ hb

-- No byte ends the part, and a quote does.
theorem stringPart_wants {start : Nat}
    (h : (stringPart start ()).run c = .error (.unexpectedEof n) c') :
    n = c.reader.stop ∧ Ending.Whole c.reader.ahead ∧
      ∃ c', (stringPart start ()).run (append [ascii '"'] c) = .ok (.inr ()) c' ∧
        c'.reader.ahead = [] := by
  rw [run_stringPart] at h
  split at h
  case h_1 => cases h
  case h_2 s hs =>
    have behind : c.reader.dropWhile Scan.isPlain = ⟨n, []⟩ := stringPartEnd_wants h
    have plain : ∀ b ∈ c.reader.ahead, Scan.isPlain b :=
      List.dropWhile_eq_nil_iff.mp (congrArg Reader.ahead behind)
    have text : c.reader.ahead.takeWhile Scan.isPlain = c.reader.ahead :=
      List.takeWhile_eq_self_iff.mpr plain
    have stop : c.reader.offset + (c.reader.ahead.takeWhile Scan.isPlain).length = n :=
      congrArg Reader.offset behind
    refine ⟨?_, .of_ne fun b hb => ne_of_isPlain (plain b hb), ?_⟩
    · rw [← stop, text, Reader.stop]
    · have reader : (append [ascii '"'] c).reader =
        ⟨c.reader.offset, c.reader.ahead ++ [ascii '"']⟩ := rfl
      have stops : Scan.Stops Scan.isPlain [ascii '"'] := .cons rfl
      rw [text] at hs
      rw [run_stringPart, reader, Reader.dropWhile, Scan.takeWhile_append_stops plain stops,
        Scan.dropWhile_append_stops plain stops, hs]
      exact ⟨_, run_stringPartEnd_quote rfl, rfl⟩

theorem stringLoop_spends (start : Nat) :
    Spends [ascii '"'] (loop stringEscape stringEscape_reads (stringPart start) ()) := by
  intro c o
  have none : ∀ ch ∈ ([] : List Char), IsRaw ch := nofun
  exact ⟨(), _, run_stringLoop .nil none rfl, rfl⟩

-- The induction is on what is left to read.
theorem stringLoop_mends (start : Nat) :
    Mends (loop stringEscape stringEscape_reads (stringPart start) ()) c := by
  induction hl : left c using Nat.strongRecOn generalizing c
  case ind ih =>
    let rounds := loop stringEscape stringEscape_reads (stringPart start) ()
    cases hp : (stringPart start ()).run c
    case error e c₁ =>
      have fails : rounds.run c = .error e c₁ := by rw [run_loop, hp]
      refine ⟨fun h => (nomatch fails.symm.trans h), fun h => ?_⟩
      cases fails.symm.trans h
      have ⟨stop, whole, c', hq, hc'⟩ := stringPart_wants hp
      have run : rounds.run (append [ascii '"'] c) = .ok () c' := by rw [run_loop, hq]
      exact ⟨stop, fun _ => whole.completes, fun _ =>
        ⟨_, _, _, run, hc', fun _ => ⟨_, _, rfl, rfl, rfl⟩⟩⟩
    case ok x c₁ =>
      have past := stringPart_past hp
      cases x
      case inr => exact .of_ok (by rw [run_loop, hp]) past
      case inl =>
        have hb := stringPart_escape hp
        have rest : Mends (stringEscape >>= fun _ => rounds) c₁ := by
          refine .bind (stringEscape_mends hb) (fun _ => firm_stringEscape) (fun {_ c₂} hr => ?_)
            fun _ => stringLoop_spends start
          have lt : left c₂ < left c :=
            Nat.lt_of_lt_of_le (stringEscape_reads hr) (left_le_of_run_ok hp)
          exact ih (left c₂) (hl ▸ lt) rfl
        refine .step (fun tail => ?_) past rest
        rw [run_loop, firm_stringPart start () hp trivial, run_bind]
        dsimp only
        cases stringEscape.run (append tail c₁) <;> rfl

theorem readString_mends (hb : c.reader.ahead.head? = some (ascii '"')) : Mends readString c := by
  have ⟨rest, ha⟩ := List.head?_eq_some_iff.mp hb
  have hc : c.reader = ⟨c.reader.offset, [ascii '"'] ++ rest⟩ := by
    rw [List.singleton_append, ← ha]
  let c₁ : TextCursor := { c with reader := ⟨c.reader.offset + 1, rest⟩, scratch := "" }
  have past : c.Past c₁ := by
    have whole : Ending.Whole [ascii '"'] := .of_ne (List.forall_mem_singleton.mpr (by decide))
    exact Past.trans (.reads hc whole) (.aside rfl rfl rfl)
  refine .step (fun tail => ?_) past (stringLoop_mends c.reader.offset)
  have quote : (append tail c).reader = ⟨c.reader.offset, ascii '"' :: (rest ++ tail)⟩ := by
    rw [append, Reader.append, ha, List.cons_append]
  have start := run_onReader (c := append tail c) (x := Scan.offset) rfl
  rw [readString, run_bind_of_ok start, run_bind_of_ok (run_next quote),
    run_bind_of_ok (run_change ..)]
  rfl

end Strings

section Tokens

-- What comes behind the name of a member.
def colon : Step Unit := do
  if (← peek) = some (ascii ':') then
    let _ ← next
    setKind .fieldName
    expecting .value
  else unexpected .colon

theorem colon_mends : Mends colon c := by
  have apart : Apart [ascii ':'] := ⟨_, _, rfl, rfl, rfl⟩
  refine .peek (unexpected_starves _) apart (fun _ _ => ⟨_, _, rfl, rfl⟩) fun b hb => ?_
  split
  case isTrue hc =>
    cases hc
    exact .next hb (by decide) (.of_ok rfl (.aside rfl rfl rfl))
  case isFalse => exact unexpected_mends _ hb

theorem readKeyFrom_mends (hb : c.reader.ahead.head? = some (ascii '"')) :
    Mends readKeyFrom c := by
  have spends : Spends [ascii ':'] (skipBlank >>= fun _ => colon) := fun _ _ => ⟨_, _, rfl, rfl⟩
  exact .bind (readString_mends hb) (fun _ => firm_readString)
    (fun _ => .blank fun _ => colon_mends) fun _ => spends

theorem readKey_spends : Spends [ascii '"', ascii '"', ascii ':'] readKey := by
  intro c o
  let c₁ : TextCursor :=
    { c with reader := ⟨o, [ascii '"', ascii '"', ascii ':']⟩, start := o }
  have text : StringText "" [ascii '"', ascii '"'] := .quoted (s := "") .nil
  have read : readString.run c₁ =
    .ok () { c₁ with reader := ⟨o + 2, [ascii ':']⟩, scratch := "" } := run_readString text rfl
  have key : readKeyFrom.run c₁ = _ := run_bind_of_ok read
  exact ⟨(), _, (run_readKey _).trans ((if_pos rfl).trans key), rfl⟩

theorem readKey_mends : Mends readKey c := by
  have apart : Apart [ascii '"', ascii '"', ascii ':'] := ⟨_, _, rfl, rfl, rfl⟩
  refine .peek (unexpected_starves _) apart readKey_spends fun b hb => ?_
  split
  case isTrue hq =>
    cases hq
    exact .markStart (readKeyFrom_mends hb)
  case isFalse => exact unexpected_mends _ hb

theorem readValueFrom_mends (hb : c.reader.ahead.head? = some b) :
    Mends (readValueFrom (some b)) c := by
  have hc : c.reader.ahead ≠ [] := fun hc => by simp [hc] at hb
  rw [readValueFrom]
  split
  case isTrue hb' => exact openContainer_mends (hb.trans hb') (by decide)
  split
  case isTrue hb' => exact openContainer_mends (hb.trans hb') (by decide)
  split
  case isTrue hb' =>
    exact .bind (readString_mends (hb.trans hb')) (fun _ => firm_readString)
      (fun _ => scalar_mends _) fun _ => scalar_spends _
  split
  case isTrue => exact readNumber_mends hc
  split
  case isTrue => exact readLiteral_mends _ (by decide) (by decide) hc
  split
  case isTrue => exact readLiteral_mends _ (by decide) (by decide) hc
  split
  case isTrue  => exact readLiteral_mends _ (by decide) (by decide) hc
  case isFalse => exact unexpected_mends _ hb

theorem readValue_starves : Starves readValue := by
  intro c hc
  rw [run_readValue, hc]
  exact unexpected_starves .value hc

theorem readValue_mends : Mends readValue c := by
  cases hc : c.reader.ahead
  case nil =>
    have apart : Apart (plain "null".toList) := ⟨_, _, rfl, rfl, rfl⟩
    exact .of_empty hc readValue_starves apart fun _ _ => ⟨_, _, rfl, rfl⟩
  case cons b rest =>
    let c₁ : TextCursor := { c with start := c.reader.offset }
    have hb : c₁.reader.ahead.head? = some b := by rw [hc, List.head?_cons]
    have past : c.Past c₁ := .aside rfl rfl rfl
    refine .step (fun tail => ?_) past (readValueFrom_mends hb)
    have next : (append tail c).reader.ahead = b :: (rest ++ tail) := by
      rw [append, Reader.append, hc, List.cons_append]
    rw [run_readValue, next]
    rfl

theorem nextMember_mends : Mends nextMember c := by
  have apart : Apart [ascii '\x7d'] := ⟨_, _, rfl, rfl, rfl⟩
  refine .peek (unexpected_starves _) apart (fun _ _ => ⟨_, _, rfl, rfl⟩) fun b hb => ?_
  split
  case isTrue hc =>
    cases hc
    exact .next hb (by decide) (.blank fun _ => readKey_mends)
  split
  case isTrue hc  => exact closeContainer_mends (hb.trans hc) (by decide)
  case isFalse => exact unexpected_mends _ hb

theorem nextItem_mends : Mends nextItem c := by
  have apart : Apart [ascii ']'] := ⟨_, _, rfl, rfl, rfl⟩
  refine .peek (unexpected_starves _) apart (fun _ _ => ⟨_, _, rfl, rfl⟩) fun b hb => ?_
  split
  case isTrue hc =>
    cases hc
    exact .next hb (by decide) (.blank fun _ => readValue_mends)
  split
  case isTrue hc  => exact closeContainer_mends (hb.trans hc) (by decide)
  case isFalse => exact unexpected_mends _ hb

theorem readNext_mends (expect : Expect) (stack : List Container) :
    Mends (readNext expect stack) c := by
  unfold readNext
  split
  · exact .of_error rfl nofun
  · exact readValue_mends
  · have apart : Apart [ascii ']'] := ⟨_, _, rfl, rfl, rfl⟩
    refine .peek readValue_starves apart (fun _ _ => ⟨_, _, rfl, rfl⟩) fun b hb => ?_
    split
    case isTrue hc => exact closeContainer_mends (hb.trans hc) (by decide)
    case isFalse   => exact readValue_mends
  · have apart : Apart [ascii '\x7d'] := ⟨_, _, rfl, rfl, rfl⟩
    have starves : Starves readKey := (unexpected_starves _).peek
    refine .peek starves apart (fun _ _ => ⟨_, _, rfl, rfl⟩) fun b hb => ?_
    split
    case isTrue hc => exact closeContainer_mends (hb.trans hc) (by decide)
    case isFalse   => exact readKey_mends
  · exact nextMember_mends
  · exact nextItem_mends
  · exact .of_error rfl nofun

theorem advance_mends (c : TextCursor) : Mends advance c := by
  let rest : Step Unit := skipBlank >>= fun _ => readNext c.expect c.stack
  have run (tail : List UInt8) : advance.run (append tail c) =
      (if c.isCancelled then Forward.fail .cancelled else rest).run (append tail c) := rfl
  refine .step run (.refl c) ?_
  split
  case isTrue  => exact .of_error rfl nofun
  case isFalse => exact .blank fun _ => readNext_mends _ _

end Tokens

end TextCursor
end RecordDecoding
