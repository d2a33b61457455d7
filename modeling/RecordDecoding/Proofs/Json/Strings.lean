import RecordDecoding.Cursor.Text
import RecordDecoding.Proofs.Json.Escapes

namespace RecordDecoding

namespace Scan

open Json

variable {c : Char} {cs : List Char}

theorem isPlain_iff {b : UInt8} :
    isPlain b ↔ b ≠ ascii '"' ∧ b ≠ ascii '\\' ∧ 0x20 ≤ b.toNat := by
  simp only [isPlain, Bool.and_eq_true, decide_eq_true_eq, UInt8.le_iff_toNat_le, and_assoc]
  rfl

theorem isPlain_of_le {b : UInt8} (h : 128 ≤ b.toNat) : isPlain b := by
  refine isPlain_iff.mpr ⟨?_, ?_, by omega⟩
  all_goals
    rintro rfl
    exact absurd h (by decide)

theorem isPlain_ascii (h : c.toNat < 128) : isPlain (ascii c) ↔ IsRaw c := by
  have ha : c.toNat < 256 := by omega
  rw [isPlain_iff, IsRaw, toNat_ascii ha, Ne, Ne, ascii_inj ha (by decide),
    ascii_inj ha (by decide)]

theorem isRaw_iff : IsRaw c ↔ ∀ b ∈ String.utf8EncodeChar c, isPlain b := by
  by_cases h : c.toNat < 128
  case pos => simp [Utf8.encodeChar_ascii h, isPlain_ascii h]
  case neg =>
    have h : 128 ≤ c.toNat := Nat.le_of_not_lt h
    refine iff_of_true ⟨?_, ?_, by omega⟩ fun b hb => isPlain_of_le (Utf8.le_of_mem_encodeChar h hb)
    all_goals
      rintro rfl
      exact absurd h (by decide)

theorem forall_isRaw_iff :
    (∀ c ∈ cs, IsRaw c) ↔ ∀ b ∈ cs.flatMap String.utf8EncodeChar, isPlain b := by
  simp only [isRaw_iff, List.mem_flatMap]
  exact ⟨fun h b ⟨c, hc, hb⟩ => h c hc b hb, fun h c hc b hb => h b ⟨c, hc, hb⟩⟩

end Scan

namespace Json

variable {s : String} {cs : List Char} {bytes rest : List UInt8}

theorem Unsigned.raw {c : Char} (h : IsRaw c) : Unsigned (String.utf8EncodeChar c) :=
  .of_ne fun b hb => (Scan.isPlain_iff.mp (Scan.isRaw_iff.mp h b hb)).2.1

theorem CharsSpelling.text (h : CharsSpelling cs bytes)
    (hs : hasSignedUnit (bytes ++ rest) = false) : CharsText cs bytes := by
  induction h
  case nil => exact .nil
  case raw hc _ ih =>
    rw [List.append_assoc, Unsigned.raw hc] at hs
    exact .cons (.raw hc) (ih hs)
  case escape he _ ih =>
    rw [List.append_assoc] at hs
    have text := he.text hs
    rw [Unsigned.escape text] at hs
    exact .cons (.escape text) (ih hs)

theorem StringSpelling.text (h : StringSpelling s bytes)
    (hs : hasSignedUnit (bytes ++ rest) = false) : StringText s bytes := by
  cases h
  case quoted bytes chars =>
    rw [List.cons_append, hasSignedUnit_cons (by decide), List.append_assoc] at hs
    exact .quoted (chars.text hs)

end Json

namespace TextCursor

open Forward Json

variable {c c' : TextCursor} {o start : Nat} {rest : List UInt8} {raw cs : List Char}

theorem run_onReader {α : Type} {x : Scan α} {a : α} {r : Reader} (h : x.run c.reader = .ok a r) :
    (onReader x).run c = .ok a { c with reader := r } := by
  simp only [onReader, h]

theorem onReader_ok {α : Type} {x : Scan α} {a : α} (h : (onReader x).run c = .ok a c') :
    ∃ r, x.run c.reader = .ok a r ∧ c' = { c with reader := r } := by
  simp only [onReader] at h
  split at h
  case h_1 hx =>
    cases h
    exact ⟨_, hx, rfl⟩
  case h_2 => cases h

@[simp] theorem run_peek (c : TextCursor) : peek.run c = .ok c.reader.ahead.head? c := rfl

theorem run_next {b : UInt8} (hc : c.reader = ⟨o, b :: rest⟩) :
    next.run c = .ok b { c with reader := ⟨o + 1, rest⟩ } := by
  apply run_onReader
  rw [hc]
  rfl

theorem next_ok {b : UInt8} (h : next.run c = .ok b c') :
    ∃ r, c.reader.ahead = b :: r.ahead ∧ c' = { c with reader := r } := by
  have ⟨r, h, hc⟩ := onReader_ok h
  simp only [Scan.next] at h
  split at h
  case h_1 ha =>
    cases h
    exact ⟨_, ha, hc⟩
  case h_2 => cases h

-- What comes after a part of a string.
def stringPartEnd : Step (Unit ⊕ Unit) := do
  let b ← peek
  if b = some (ascii '"') then
    let _ ← next
    return .inr ()
  else if b = some (ascii '\\') then return .inl ()
  else unexpected .stringCharacter

theorem run_stringPart (start : Nat) (c : TextCursor) : (stringPart start ()).run c =
    match Utf8.decode? (c.reader.ahead.takeWhile Scan.isPlain) with
    | none   => .error (.invalidUtf8 start) { c with reader := c.reader.dropWhile Scan.isPlain }
    | some s => stringPartEnd.run
      { c with reader := c.reader.dropWhile Scan.isPlain, scratch := c.scratch ++ s } := by
  simp only [stringPart, run_bind, onReader, Scan.takeWhile, Scan.skipWhile, run_view, run_change,
    run_pure]
  cases Utf8.decode? (c.reader.ahead.takeWhile Scan.isPlain) <;> rfl

-- The characters that stand for themselves at the start of a text, in the cursor and behind it.
theorem run_stringPart_raw {b : UInt8} (h : ∀ c ∈ raw, IsRaw c) (hb : Scan.isPlain b = false)
    (hc : c.reader = ⟨o, raw.flatMap String.utf8EncodeChar ++ b :: rest⟩) :
    (stringPart start ()).run c = stringPartEnd.run
      { c with
        reader := ⟨o + (raw.flatMap String.utf8EncodeChar).length, b :: rest⟩
        scratch := c.scratch ++ String.ofList raw } := by
  have plain := Scan.forall_isRaw_iff.mp h
  have stops : Scan.Stops Scan.isPlain (b :: rest) := .cons hb
  rw [run_stringPart, hc, Reader.dropWhile, Scan.takeWhile_append_stops plain stops,
    Scan.dropWhile_append_stops plain stops, Utf8.decode?_flatMap]

theorem stringPart_ok {x : Unit ⊕ Unit} (h : (stringPart start ()).run c = .ok x c') :
    ∃ raw r, (∀ c ∈ raw, IsRaw c) ∧
      c.reader.ahead = raw.flatMap String.utf8EncodeChar ++ r.ahead ∧
      stringPartEnd.run { c with reader := r, scratch := c.scratch ++ String.ofList raw } =
        .ok x c' := by
  rw [run_stringPart] at h
  split at h
  case h_1 => cases h
  case h_2 s hs =>
    have hb := Utf8.eq_of_decode? hs
    refine ⟨s.toList, c.reader.dropWhile Scan.isPlain, ?_, ?_, by rwa [String.ofList_toList]⟩
    · rw [Scan.forall_isRaw_iff, ← hb]
      exact fun b => List.mem_takeWhile_imp
    · rw [← hb]
      exact List.takeWhile_append_dropWhile.symm

theorem run_stringPartEnd_quote (hc : c.reader = ⟨o, ascii '"' :: rest⟩) :
    stringPartEnd.run c = .ok (.inr ()) { c with reader := ⟨o + 1, rest⟩ } := by
  rw [stringPartEnd, run_bind_of_ok (run_peek c), hc, List.head?_cons, if_pos rfl,
    run_bind_of_ok (run_next hc), run_pure]

theorem run_stringPartEnd_escape (hc : c.reader.ahead.head? = some (ascii '\\')) :
    stringPartEnd.run c = .ok (.inl ()) c := by
  rw [stringPartEnd, run_bind_of_ok (run_peek c), hc]
  rfl

theorem stringPartEnd_ok {x : Unit ⊕ Unit} (h : stringPartEnd.run c = .ok x c') :
    (x = .inr () ∧ ∃ r, c.reader.ahead = ascii '"' :: r.ahead ∧ c' = { c with reader := r }) ∨
    (x = .inl () ∧ c.reader.ahead.head? = some (ascii '\\') ∧ c' = c) := by
  rw [stringPartEnd, run_bind_of_ok (run_peek c)] at h
  split at h
  case isTrue hb =>
    have ⟨b, _, hn, h⟩ := exists_of_bind_ok h
    cases h
    have ⟨r, ha, hc⟩ := next_ok hn
    rw [ha, List.head?_cons, Option.some.injEq] at hb
    exact .inl ⟨rfl, r, hb ▸ ha, hc⟩
  case isFalse =>
    split at h
    case isTrue hb =>
      cases h
      exact .inr ⟨rfl, hb, rfl⟩
    case isFalse => cases h

theorem run_stringEscape {ch : Char} {bytes : List UInt8} (h : EscapeText ch bytes)
    (hc : c.reader = ⟨o, bytes ++ rest⟩) : stringEscape.run c = .ok ()
      { c with
        reader := ⟨o + bytes.length, rest⟩
        scratch := c.scratch ++ String.singleton ch } := by
  have run := run_onReader (c := c) (hc ▸ Scan.run_escape h)
  rw [stringEscape, run_bind_of_ok run]
  rfl

theorem stringEscape_ok (h : stringEscape.run c = .ok () c')
    (hb : c.reader.ahead.head? = some (ascii '\\')) :
    ∃ ch bytes r, EscapeSpelling ch bytes ∧ c.reader.ahead = bytes ++ r.ahead ∧
      c' = { c with reader := r, scratch := c.scratch ++ String.singleton ch } := by
  have ⟨ch, _, hrun, h⟩ := exists_of_bind_ok h
  have ⟨r, he, hc⟩ := onReader_ok hrun
  have ⟨bytes, he, ha⟩ := Scan.escape_ok he hb
  subst hc
  cases h
  exact ⟨ch, bytes, r, he, ha, rfl⟩

theorem append_part (s : String) (raw : List Char) (ch : Char) (cs : List Char) :
    s ++ String.ofList raw ++ String.singleton ch ++ String.ofList cs =
      s ++ String.ofList (raw ++ ch :: cs) := by
  simp only [String.append_assoc, String.ofList_append, String.ofList_cons]

-- Reads the rest of a string behind a part of it.
theorem run_stringLoop {bytes : List UInt8} (hcs : CharsText cs bytes) (h : ∀ c ∈ raw, IsRaw c)
    (hc : c.reader = ⟨o, raw.flatMap String.utf8EncodeChar ++ (bytes ++ ascii '"' :: rest)⟩) :
    (loop stringEscape stringEscape_reads (stringPart start) ()).run c = .ok ()
      { c with
        reader := ⟨o + (raw.flatMap String.utf8EncodeChar).length + bytes.length + 1, rest⟩
        scratch := c.scratch ++ String.ofList (raw ++ cs) } := by
  induction hcs generalizing raw c o
  case nil =>
    rw [run_loop, run_stringPart_raw h rfl hc, run_stringPartEnd_quote rfl]
    simp
  case cons ch cs bytes more hch _ ih =>
    cases hch
    case raw hr =>
      have h : ∀ c ∈ raw ++ [ch], IsRaw c := by
        simpa [or_imp, forall_and] using ⟨h, hr⟩
      rw [ih h (by simpa using hc)]
      simp [Nat.add_assoc]
    case escape he =>
      have ⟨tail, hb⟩ : ∃ tail, bytes = ascii '\\' :: tail := by cases he <;> exact ⟨_, rfl⟩
      subst hb
      let c₁ : TextCursor :=
        { c with
          reader := ⟨o + (raw.flatMap String.utf8EncodeChar).length,
            ascii '\\' :: tail ++ (more ++ ascii '"' :: rest)⟩
          scratch := c.scratch ++ String.ofList raw }
      have part : (stringPart start ()).run c = .ok (.inl ()) c₁ := by
        rw [run_stringPart_raw h rfl (by simpa using hc)]
        exact run_stringPartEnd_escape rfl
      rw [run_loop, part]
      dsimp only
      rw [run_stringEscape (c := c₁) he rfl]
      dsimp only
      rw [ih (List.forall_mem_nil IsRaw) rfl]
      simp only [c₁, List.flatMap_nil, List.length_nil, List.nil_append, List.length_append,
        Nat.add_zero, Nat.add_assoc, append_part]

theorem run_readString {s : String} {bytes : List UInt8} (h : StringText s bytes)
    (hc : c.reader = ⟨o, bytes ++ rest⟩) : readString.run c = .ok ()
      { c with reader := ⟨o + bytes.length, rest⟩, scratch := s } := by
  cases h
  case quoted bytes h =>
    have hc : c.reader = ⟨o, ascii '"' :: (bytes ++ ascii '"' :: rest)⟩ := by simp [hc]
    have start := run_onReader (c := c) (x := Scan.offset) rfl
    rw [readString, run_bind_of_ok start, run_bind_of_ok (run_next hc),
      run_bind_of_ok (run_change ..)]
    refine (run_stringLoop h (List.forall_mem_nil IsRaw) rfl).trans ?_
    simp [Nat.add_comm, Nat.add_left_comm]

theorem charsSpelling_raw {bytes : List UInt8} (h : ∀ c ∈ raw, IsRaw c)
    (hcs : CharsSpelling cs bytes) :
    CharsSpelling (raw ++ cs) (raw.flatMap String.utf8EncodeChar ++ bytes) := by
  induction raw
  case nil => exact hcs
  case cons c raw ih =>
    have ⟨hc, h⟩ := List.forall_mem_cons.mp h
    rw [List.flatMap_cons, List.append_assoc]
    exact .raw hc (ih h)

theorem stringLoop_ok
    (h : (loop stringEscape stringEscape_reads (stringPart start) ()).run c = .ok () c') :
    ∃ cs bytes r, CharsSpelling cs bytes ∧ c.reader.ahead = bytes ++ ascii '"' :: r.ahead ∧
      c' = { c with reader := r, scratch := c.scratch ++ String.ofList cs } := by
  refine loop_ok
    (P := fun _ c _ c' => ∃ cs bytes r, CharsSpelling cs bytes ∧
      c.reader.ahead = bytes ++ ascii '"' :: r.ahead ∧
        c' = { c with reader := r, scratch := c.scratch ++ String.ofList cs }) ?stop ?more h
  case stop =>
    intro _ c _ c' hp
    have ⟨raw, r, hr, ha, he⟩ := stringPart_ok hp
    rcases stringPartEnd_ok he with ⟨_, r', ha', hc⟩ | ⟨hx, _⟩
    case inr => cases hx
    case inl =>
      have spelling := charsSpelling_raw hr .nil
      rw [List.append_nil, List.append_nil] at spelling
      exact ⟨raw, _, r', spelling, ha.trans (congrArg _ ha'), hc⟩
  case more =>
    intro _ c _ c₁ c₂ _ c' hp he ih
    have ⟨raw, r, hr, ha, hp⟩ := stringPart_ok hp
    rcases stringPartEnd_ok hp with ⟨hx, _⟩ | ⟨_, hb, hc₁⟩
    case inl => cases hx
    case inr =>
      subst hc₁
      have ⟨ch, text, r₂, ht, ha₂, hc₂⟩ := stringEscape_ok he hb
      subst hc₂
      have ha₂ : r.ahead = text ++ r₂.ahead := ha₂
      have ⟨cs, bytes, r', hcs, ha', hc'⟩ := ih
      have ha' : r₂.ahead = bytes ++ ascii '"' :: r'.ahead := ha'
      refine ⟨raw ++ ch :: cs, _, r', charsSpelling_raw hr (.escape ht hcs), ?_, ?_⟩
      · simp [ha, ha₂, ha']
      · rw [hc']
        dsimp only
        rw [append_part]

-- A cursor reads what is spelled as a string.
theorem readString_spells (h : readString.run c = .ok () c')
    (hb : c.reader.ahead.head? = some (ascii '"')) :
    ∃ s bytes r, StringSpelling s bytes ∧ c.reader.ahead = bytes ++ r.ahead ∧
      c' = { c with reader := r, scratch := s } := by
  have ⟨start, _, hstart, h⟩ := exists_of_bind_ok h
  cases hstart
  have ⟨b, c₁, hn, h⟩ := exists_of_bind_ok h
  have ⟨r₁, ha, hc⟩ := next_ok hn
  have ⟨_, _, hchange, h⟩ := exists_of_bind_ok h
  cases hchange
  subst hc
  have ha : c.reader.ahead = b :: r₁.ahead := ha
  rw [ha, List.head?_cons, Option.some.injEq] at hb
  have ⟨cs, bytes, r, hcs, ha', hc⟩ := stringLoop_ok h
  have ha' : r₁.ahead = bytes ++ ascii '"' :: r.ahead := ha'
  refine ⟨String.ofList cs, _, r, .quoted (by rwa [String.toList_ofList]), ?_, ?_⟩
  · rw [ha, hb, ha', List.cons_append, List.append_assoc, List.singleton_append]
  · simpa using hc

-- It is a string if none of its units starts with a sign.
theorem readString_ok (h : readString.run c = .ok () c')
    (hs : hasSignedUnit c.reader.ahead = false) (hb : c.reader.ahead.head? = some (ascii '"')) :
    ∃ s bytes r, StringText s bytes ∧ c.reader.ahead = bytes ++ r.ahead ∧
      c' = { c with reader := r, scratch := s } := by
  have ⟨s, bytes, r, spelling, ha, hc⟩ := readString_spells h hb
  exact ⟨s, bytes, r, spelling.text (ha ▸ hs), ha, hc⟩

end TextCursor
end RecordDecoding
