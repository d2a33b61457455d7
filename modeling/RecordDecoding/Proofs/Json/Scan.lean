import RecordDecoding.Cursor.Reader
import RecordDecoding.Proofs.Answers
import RecordDecoding.Proofs.Json.Grammar
import RecordDecoding.Proofs.Text.Bytes

namespace RecordDecoding

theorem Reader.drop_one (o : Nat) (b : UInt8) (bytes : List UInt8) :
    (⟨o, b :: bytes⟩ : Reader).drop 1 = ⟨o + 1, bytes⟩ := rfl

namespace Scan

open Forward Json Numeral

variable {r r' : Reader} {offset o : Nat} {rest : List UInt8} {cs : List Char}

-- A text starts with no byte of some sort.
def Stops (p : UInt8 → Bool) (bytes : List UInt8) : Prop :=
  ∀ b ∈ bytes.head?, p b = false

theorem Stops.cons {p : UInt8 → Bool} {b : UInt8} (h : p b = false) : Stops p (b :: rest) := by
  rintro _ ⟨⟩
  exact h

theorem takeWhile_append_stops {p : UInt8 → Bool} {bytes : List UInt8} (h : ∀ b ∈ bytes, p b)
    (hr : Stops p rest) : (bytes ++ rest).takeWhile p = bytes := by
  rw [List.takeWhile_append_of_pos h]
  cases rest
  case nil => simp
  case cons b rest => simp [hr b rfl]

theorem dropWhile_append_stops {p : UInt8 → Bool} {bytes : List UInt8} (h : ∀ b ∈ bytes, p b)
    (hr : Stops p rest) : (bytes ++ rest).dropWhile p = rest := by
  rw [List.dropWhile_append_of_pos h]
  cases rest
  case nil => rfl
  case cons b rest => simp [hr b rfl]

theorem eq_of_isBlank {b : UInt8} (h : Ascii.isBlank b) :
    b = ascii ' ' ∨ b = ascii '\t' ∨ b = ascii '\n' ∨ b = ascii '\x0d' := by
  simpa only [Ascii.isBlank, Bool.or_eq_true, decide_eq_true_eq, or_assoc] using h

-- Blanks and then a byte that ends whatever is before them.
theorem stops_blank {p : UInt8 → Bool} {blank : List UInt8} {b : UInt8} (hb : Blank blank)
    (hp : ∀ b, Ascii.isBlank b → p b = false) (h : p b = false) : Stops p (blank ++ b :: rest) := by
  cases blank
  case nil  => exact .cons h
  case cons => exact .cons (hp _ (hb _ (List.mem_cons_self ..)))

theorem run_skipWhile {p : UInt8 → Bool} {bytes : List UInt8} (h : ∀ b ∈ bytes, p b)
    (hr : Stops p rest) :
    (skipWhile p).run ⟨o, bytes ++ rest⟩ = .ok () ⟨o + bytes.length, rest⟩ := by
  simp only [skipWhile, run_change, Reader.dropWhile, takeWhile_append_stops h hr,
    dropWhile_append_stops h hr]

theorem skipWhile_ok {p : UInt8 → Bool} (h : (skipWhile p).run r = .ok () r') :
    ∃ bytes, (∀ b ∈ bytes, p b) ∧ r.ahead = bytes ++ r'.ahead := by
  cases h
  refine ⟨r.ahead.takeWhile p, fun b hb => ?_, List.takeWhile_append_dropWhile.symm⟩
  exact List.mem_takeWhile_imp hb

section Numbers

theorem isDigit_of_mem_plain (h : isDigits cs) : ∀ b ∈ plain cs, Ascii.isDigit b := by
  intro b hb
  have ⟨c, hc, hb⟩ := List.mem_map.mp hb
  have hd := (isDigits_iff.mp h).2 c hc
  rw [← hb, ← Ascii.isDigit_char, Ascii.char_ascii (Nat.lt_trans (lt_of_isDigit hd) (by decide))]
  exact hd

-- The digits at the start of some bytes.
theorem isDigits_takeWhile {bytes : List UInt8} (h : bytes.takeWhile Ascii.isDigit ≠ []) :
    ∃ cs, isDigits cs ∧ bytes = plain cs ++ bytes.dropWhile Ascii.isDigit := by
  refine ⟨(bytes.takeWhile Ascii.isDigit).map Ascii.char, isDigits_iff.mpr ⟨?_, ?_⟩, ?_⟩
  · simpa using h
  · intro c hc
    have ⟨b, hb, hc⟩ := List.mem_map.mp hc
    rw [← hc, Ascii.isDigit_char]
    exact List.mem_takeWhile_imp hb
  · rw [plain, Ascii.map_ascii_map_char, List.takeWhile_append_dropWhile]

theorem run_skipDigits? (offset : Nat) (r : Reader) : (skipDigits? offset).run r =
    if r.ahead.takeWhile Ascii.isDigit = [] then .error (.invalidNumber offset) r
    else .ok () (r.dropWhile Ascii.isDigit) := by
  obtain ⟨o, ahead⟩ := r
  cases ahead
  case nil => rfl
  case cons b bytes =>
    by_cases hb : Ascii.isDigit b
    case neg => simp [skipDigits?, peek, hb]
    case pos =>
      simp [skipDigits?, skipDigits, peek, next, skipWhile, Reader.dropWhile, hb]
      omega

theorem run_wholePart (offset : Nat) (r : Reader) : (wholePart offset).run r =
    if r.ahead.head? = some (ascii '0') then .ok () (r.drop 1) else (skipDigits? offset).run r := by
  obtain ⟨o, ahead⟩ := r
  cases ahead
  case nil => rfl
  case cons b bytes =>
    by_cases hb : b = ascii '0'
    case pos =>
      subst hb
      rfl
    case neg => simp [wholePart, skipDigits?, peek, hb]

theorem run_digits (h : isDigits cs) (hr : Stops Ascii.isDigit rest) :
    (skipDigits? offset).run ⟨o, plain cs ++ rest⟩ = .ok () ⟨o + cs.length, rest⟩ := by
  have hb := isDigit_of_mem_plain h
  have hn : plain cs ≠ [] := by simpa [plain] using (isDigits_iff.mp h).1
  rw [run_skipDigits?, takeWhile_append_stops hb hr, if_neg hn, Reader.dropWhile,
    takeWhile_append_stops hb hr, dropWhile_append_stops hb hr, plain, List.length_map]

theorem skipDigits?_ok (h : (skipDigits? offset).run r = .ok () r') :
    ∃ cs, isDigits cs ∧ r.ahead = plain cs ++ r'.ahead := by
  rw [run_skipDigits?] at h
  split at h <;> cases h
  exact isDigits_takeWhile ‹_›

theorem run_whole (h : IsWhole cs) (hr : Stops Ascii.isDigit rest) :
    (wholePart offset).run ⟨o, plain cs ++ rest⟩ = .ok () ⟨o + cs.length, rest⟩ := by
  rw [run_wholePart]
  cases h
  case zero => rfl
  case digits hd h0 =>
    rw [if_neg, run_digits hd hr]
    cases cs
    case nil => cases hd
    case cons c cs =>
      have hc := (isDigits_iff.mp hd).2 c (List.mem_cons_self ..)
      simpa [plain, ascii_inj (Nat.lt_trans (lt_of_isDigit hc) (by decide))] using h0

theorem wholePart_ok (h : (wholePart offset).run r = .ok () r') :
    ∃ cs, IsWhole cs ∧ r.ahead = plain cs ++ r'.ahead := by
  obtain ⟨o, ahead⟩ := r
  rw [run_wholePart] at h
  split at h
  case isTrue h0 =>
    cases h
    have ⟨bytes, hb⟩ := List.head?_eq_some_iff.mp h0
    subst hb
    exact ⟨['0'], .zero, rfl⟩
  case isFalse h0 =>
    have ⟨cs, hd, ha⟩ := skipDigits?_ok h
    refine ⟨cs, .digits hd fun hc => h0 ?_, ha⟩
    have ⟨more, hc⟩ := List.head?_eq_some_iff.mp hc
    rw [show ahead = _ from ha, hc]
    rfl

theorem run_fraction (offset : Nat) (r : Reader) : (fraction offset).run r =
    if r.ahead.head? = some (ascii '.') then
      (skipDigits? offset >>= fun _ => pure true).run (r.drop 1)
    else .ok false r := by
  simp only [fraction, run_bind, peek, run_view]
  split <;> rfl

theorem fraction_ok {b : Bool} (h : (fraction offset).run r = .ok b r') :
    ∃ cs, IsFraction cs ∧ (b ↔ cs ≠ []) ∧ r.ahead = plain cs ++ r'.ahead := by
  obtain ⟨o, ahead⟩ := r
  rw [run_fraction] at h
  split at h
  case isTrue h0 =>
    have ⟨bytes, hb⟩ := List.head?_eq_some_iff.mp h0
    subst hb
    have ⟨_, _, hrun, hp⟩ := exists_of_bind_ok h
    have ⟨cs, hd, ha⟩ := skipDigits?_ok hrun
    cases hp
    exact ⟨'.' :: cs, .digits hd, by simp, congrArg (ascii '.' :: ·) ha⟩
  case isFalse h0 =>
    cases h
    exact ⟨[], .none, by simp, rfl⟩

theorem run_exponent (offset : Nat) (r : Reader) : (exponent offset).run r =
    if r.ahead.head? = some (ascii 'e') ∨ r.ahead.head? = some (ascii 'E') then
      (skipDigits? offset >>= fun _ => pure true).run
        (if (r.drop 1).ahead.head? = some (ascii '+') ∨
            (r.drop 1).ahead.head? = some (ascii '-') then
          (r.drop 1).drop 1
        else r.drop 1)
    else .ok false r := by
  simp only [exponent, run_bind, peek, run_view]
  split
  case isFalse => rfl
  case isTrue =>
    simp only [skip, run_bind, run_change, run_view]
    split <;> rfl

theorem exponent_ok {b : Bool} (h : (exponent offset).run r = .ok b r') :
    ∃ cs, IsExponent cs ∧ (b ↔ cs ≠ []) ∧ r.ahead = plain cs ++ r'.ahead := by
  obtain ⟨o, ahead⟩ := r
  rw [run_exponent] at h
  split at h
  case isFalse h0 =>
    cases h
    exact ⟨[], .none, by simp, rfl⟩
  case isTrue h0 =>
    have ⟨e, he, h0⟩ : ∃ e, (e = 'e' ∨ e = 'E') ∧ ahead.head? = some (ascii e) := by
      rcases h0 with h0 | h0
      · exact ⟨'e', .inl rfl, h0⟩
      · exact ⟨'E', .inr rfl, h0⟩
    have ⟨bytes, hb⟩ := List.head?_eq_some_iff.mp h0
    subst hb
    have ⟨_, _, hrun, hp⟩ := exists_of_bind_ok h
    have ⟨cs, hd, ha⟩ := skipDigits?_ok hrun
    cases hp
    split at ha
    case isFalse => exact ⟨e :: cs, .plain he hd, by simp, congrArg (ascii e :: ·) ha⟩
    case isTrue h1 =>
      have ⟨sign, hs, h1⟩ : ∃ sign, (sign = '+' ∨ sign = '-') ∧
          bytes.head? = some (ascii sign) := by
        rcases h1 with h1 | h1
        · exact ⟨'+', .inl rfl, h1⟩
        · exact ⟨'-', .inr rfl, h1⟩
      have ⟨more, hb⟩ := List.head?_eq_some_iff.mp h1
      subst hb
      exact ⟨e :: sign :: cs, .signed he hs hd, by simp, congrArg (ascii e :: ascii sign :: ·) ha⟩

theorem run_number (r : Reader) : number.run r =
    (wholePart r.offset >>= fun _ => fraction r.offset >>= fun hasFraction =>
      exponent r.offset >>= fun hasExponent =>
        pure (if hasFraction || hasExponent then .float else .integer)).run
      (if r.ahead.head? = some (ascii '-') then r.drop 1 else r) := by
  simp only [number, run_bind, Scan.offset, peek, run_view]
  split <;> rfl

theorem number_tells {kind : TokenKind} (h : number.run r = .ok kind r') :
    ∃ cs, IsNumber cs ∧ r.ahead = plain cs ++ r'.ahead ∧
      (kind = .integer ∧ IsInteger cs ∨ kind = .float ∧ ¬IsInteger cs) := by
  obtain ⟨o, ahead⟩ := r
  rw [run_number] at h
  have ⟨_, _, hrun, h⟩ := exists_of_bind_ok h
  have ⟨whole, hw, ha⟩ := wholePart_ok hrun
  have ⟨hasFraction, _, hrun, h⟩ := exists_of_bind_ok h
  have ⟨fraction, hf, hfraction, hb⟩ := fraction_ok hrun
  have ⟨hasExponent, _, hrun, h⟩ := exists_of_bind_ok h
  have ⟨exponent, he, hexponent, hc⟩ := exponent_ok hrun
  cases h
  rw [hb, hc] at ha
  have neither : (hasFraction || hasExponent) = false ↔ fraction = [] ∧ exponent = [] := by
    rw [Bool.or_eq_false_iff, ← Bool.not_eq_true, ← Bool.not_eq_true, hfraction, hexponent,
      not_not, not_not]
  have tells {integer : List Char} (hi : IsInteger integer) :
      (if hasFraction || hasExponent then TokenKind.float else .integer) = .integer ∧
        IsInteger (integer ++ (fraction ++ exponent)) ∨
      (if hasFraction || hasExponent then TokenKind.float else .integer) = .float ∧
        ¬IsInteger (integer ++ (fraction ++ exponent)) := by
    rw [isInteger_append_iff hi hf he, ← neither]
    cases hasFraction || hasExponent <;> simp
  split at ha
  case isTrue h0 =>
    have ⟨bytes, hb⟩ := List.head?_eq_some_iff.mp h0
    subst hb
    refine ⟨'-' :: whole ++ (fraction ++ exponent), .of (.negative hw) hf he, ?_,
      tells (.negative hw)⟩
    rw [show bytes = _ from ha]
    simp [plain]
  case isFalse =>
    refine ⟨whole ++ (fraction ++ exponent), .of (.plain hw) hf he, ?_, tells (.plain hw)⟩
    rw [show ahead = _ from ha]
    simp [plain]

theorem number_ok {kind : TokenKind} (h : number.run r = .ok kind r') :
    ∃ cs, IsNumber cs ∧ r.ahead = plain cs ++ r'.ahead := by
  have ⟨cs, hn, ha, _⟩ := number_tells h
  exact ⟨cs, hn, ha⟩

-- The bytes that could go on with a number.
def goesOn (b : UInt8) : Bool :=
  Ascii.isDigit b || b = ascii '.' || b = ascii 'e' || b = ascii 'E'

theorem Stops.of_imp {p q : UInt8 → Bool} (h : Stops p rest) (hq : ∀ b, q b → p b) :
    Stops q rest := by
  intro b hb
  cases hc : q b
  case false => rfl
  case true  => exact absurd (hq b hc) (by simp [h b hb])

theorem stops_exponent (h : IsExponent cs) (hr : Stops goesOn rest) :
    Stops (fun b => Ascii.isDigit b || b = ascii '.') (plain cs ++ rest) := by
  cases h
  case none => exact hr.of_imp fun b hb => by simp_all [goesOn]
  case plain he _ =>
    rintro _ ⟨⟩
    rcases he with rfl | rfl <;> rfl
  case signed he _ _ =>
    rintro _ ⟨⟩
    rcases he with rfl | rfl <;> rfl

theorem stops_fraction (h : IsFraction cs)
    (hr : Stops (fun b => Ascii.isDigit b || b = ascii '.') rest) :
    Stops Ascii.isDigit (plain cs ++ rest) := by
  cases h
  case none => exact hr.of_imp fun b hb => by simp [hb]
  case digits =>
    rintro _ ⟨⟩
    rfl

theorem run_fraction_text (h : IsFraction cs)
    (hr : Stops (fun b => Ascii.isDigit b || b = ascii '.') rest) :
    (fraction offset).run ⟨o, plain cs ++ rest⟩ = .ok (!cs.isEmpty) ⟨o + cs.length, rest⟩ := by
  rw [run_fraction]
  cases h
  case none =>
    rw [if_neg fun hb => by simpa using hr _ hb]
    rfl
  case digits cs hd =>
    have stops : Stops Ascii.isDigit rest := hr.of_imp fun b hb => by simp [hb]
    have run : (skipDigits? offset).run ⟨o + 1, plain cs ++ rest⟩ = _ := run_digits hd stops
    refine (run_bind_of_ok run).trans ?_
    rw [run_pure, List.length_cons, Nat.add_right_comm]
    rfl

-- Digits start with no other character.
theorem head?_digits {c : Char} (h : isDigits cs) (hc : ¬Ascii.isDigit (ascii c)) :
    (plain cs ++ rest).head? ≠ some (ascii c) := by
  cases cs
  case nil => cases h
  case cons d cs =>
    have hd : Ascii.isDigit (ascii d) := isDigit_of_mem_plain h _ (List.mem_cons_self ..)
    intro he
    rw [Option.some.inj he] at hd
    exact hc hd

theorem run_exponent_text (h : IsExponent cs) (hr : Stops goesOn rest) :
    (exponent offset).run ⟨o, plain cs ++ rest⟩ = .ok (!cs.isEmpty) ⟨o + cs.length, rest⟩ := by
  have stops : Stops Ascii.isDigit rest := hr.of_imp fun b hb => by simp [goesOn, hb]
  have letter {e bytes} (he : e = 'e' ∨ e = 'E') : (ascii e :: bytes).head? = some (ascii 'e') ∨
      (ascii e :: bytes).head? = some (ascii 'E') := by
    rcases he with rfl | rfl <;> simp
  rw [run_exponent]
  cases h
  case none =>
    rw [if_neg fun hb => hb.elim (fun hb => nomatch hr _ hb) fun hb => nomatch hr _ hb]
    rfl
  case plain e cs he hd =>
    have noSign : ¬((plain cs ++ rest).head? = some (ascii '+') ∨
        (plain cs ++ rest).head? = some (ascii '-')) := by
      rintro (h | h)
      · exact head?_digits hd (by decide) h
      · exact head?_digits hd (by decide) h
    have run : (skipDigits? offset).run ⟨o + 1, plain cs ++ rest⟩ = _ := run_digits hd stops
    rw [plain_cons, List.cons_append, if_pos (letter he), Reader.drop_one, if_neg noSign,
      run_bind_of_ok run, run_pure, List.length_cons, Nat.add_right_comm]
    rfl
  case signed e sign cs he hs hd =>
    have isSign : (ascii sign :: (plain cs ++ rest)).head? = some (ascii '+') ∨
        (ascii sign :: (plain cs ++ rest)).head? = some (ascii '-') := by
      rcases hs with rfl | rfl <;> simp
    have run : (skipDigits? offset).run ⟨o + 1 + 1, plain cs ++ rest⟩ = _ := run_digits hd stops
    rw [plain_cons, plain_cons, List.cons_append, List.cons_append, if_pos (letter he),
      Reader.drop_one, if_pos isSign, Reader.drop_one, run_bind_of_ok run, run_pure,
      List.length_cons, List.length_cons, Nat.add_right_comm _ 1, Nat.add_right_comm _ 1]
    rfl

theorem run_number_parts {integer fraction exponent : List Char} (hi : IsInteger integer)
    (hf : IsFraction fraction) (he : IsExponent exponent) (hr : Stops goesOn rest) :
    number.run ⟨o, plain (integer ++ (fraction ++ exponent)) ++ rest⟩ =
      .ok (if fraction = [] ∧ exponent = [] then .integer else .float)
        ⟨o + (integer ++ (fraction ++ exponent)).length, rest⟩ := by
  have he' := stops_exponent he hr
  have hf' := stops_fraction hf he'
  have unsigned {whole offset o} (hw : IsWhole whole) :
      (wholePart offset >>= fun _ => Scan.fraction offset >>= fun hasFraction =>
        Scan.exponent offset >>= fun hasExponent =>
          pure (if hasFraction || hasExponent then TokenKind.float else .integer)).run
        ⟨o, plain whole ++ (plain fraction ++ (plain exponent ++ rest))⟩ =
      .ok (if fraction = [] ∧ exponent = [] then .integer else .float)
        ⟨o + whole.length + fraction.length + exponent.length, rest⟩ := by
    rw [run_bind_of_ok (run_whole hw hf'), run_bind_of_ok (run_fraction_text hf he'),
      run_bind_of_ok (run_exponent_text he hr), run_pure]
    congr 1
    cases fraction <;> cases exponent <;> rfl
  rw [run_number]
  simp only [plain_append, List.append_assoc, List.length_append, ← Nat.add_assoc]
  cases hi
  case plain hw =>
    rw [if_neg (head?_digits hw.isDigits (by decide))]
    exact unsigned hw
  case negative whole hw =>
    rw [plain_cons, List.cons_append, List.length_cons, List.head?_cons, if_pos rfl,
      Reader.drop_one, unsigned hw, Nat.add_right_comm o 1, Nat.add_assoc o]

theorem plain_number (h : IsNumber cs) :
    ∃ b more, plain cs = b :: more ∧ (b = ascii '-' ∨ Ascii.isDigit b) := by
  have ⟨c, more, hc, hd⟩ := h.head
  refine ⟨ascii c, plain more, by rw [hc, plain_cons], hd.imp (congrArg ascii) fun hd => ?_⟩
  have digit : isDigits [c] := by simp [isDigits, hd]
  exact isDigit_of_mem_plain digit _ (List.mem_cons_self ..)

theorem run_number_text (h : IsNumber cs) (hr : Stops goesOn rest) :
    ∃ kind, number.run ⟨o, plain cs ++ rest⟩ = .ok kind ⟨o + cs.length, rest⟩ ∧
      (kind = .integer ∧ IsInteger cs ∨ kind = .float ∧ ¬IsInteger cs) := by
  cases h
  case of hi hf he =>
    refine ⟨_, run_number_parts hi hf he hr, ?_⟩
    rw [isInteger_append_iff hi hf he]
    split
    case isTrue h  => exact .inl ⟨rfl, h⟩
    case isFalse h => exact .inr ⟨rfl, h⟩

end Numbers

section Words

variable {word : List UInt8}

theorem run_literal (h : word ≠ []) :
    (literal word).run ⟨o, word ++ rest⟩ = .ok () ⟨o + word.length, rest⟩ := by
  cases word
  case nil => exact absurd rfl h
  case cons b word =>
    simp [literal, next, skip, Reader.drop]
    omega

theorem literal_ok (h : word ≠ []) (hl : (literal word).run r = .ok () r') :
    r.ahead = word ++ r'.ahead := by
  obtain ⟨o, ahead⟩ := r
  simp only [literal, run_bind, run_look] at hl
  split at hl
  case isTrue hp =>
    have ⟨more, ha⟩ := List.isPrefixOf_iff_prefix.mp hp
    subst ha
    cases word
    case nil => exact absurd rfl h
    case cons b word =>
      cases hl
      simp [Reader.drop]
  case isFalse => split at hl <;> cases hl

end Words

end Scan
end RecordDecoding
