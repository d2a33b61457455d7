import RecordDecoding.External.Uuid
import RecordDecoding.Proofs.Decode.Balance
import RecordDecoding.Proofs.Decode.OneValue
import RecordDecoding.Proofs.Json.Brackets
import RecordDecoding.Proofs.Json.Prolonging

namespace RecordDecoding

open Forward Json

-- An object ends with a brace.
theorem Json.exists_brace {members : List (String × Json)} {bytes : List UInt8}
    (h : IsText (.object members) bytes) :
    ∃ front blank, bytes = front ++ ascii '\x7d' :: blank ∧ Blank blank := by
  have ⟨before, text, after, _, hv, blank, hb⟩ := h
  have ends : ∃ inner, text = inner ++ [ascii '\x7d'] := by
    cases hv
    all_goals exact ⟨_ :: _, rfl⟩
  obtain ⟨inner, rfl⟩ := ends
  exact ⟨before ++ inner, after, by simp [hb], blank⟩

namespace TextCursor

variable {c c' : TextCursor} {stack : List Container} {bytes : List UInt8} {n : Nat}

theorem Sits.trail (h : c.Sits) (trail : Trail stack c c') : c'.Sits := by
  induction trail
  case refl => exact h
  case tail step ih =>
    obtain ⟨_, follows⟩ := ih.follows
    have moves := moves_of_advance ih.within.suits step.2
    obtain ⟨c', hr, sits, _⟩ := advance_from follows ih.within.suits moves.ne_done
    cases hr.symm.trans step.2
    exact sits

-- The first token of a part of a text is the first one of the text.
theorem ofBytes_append (h : ofBytes (bytes.take n) = .ok c) (hc : Settled c) :
    ofBytes bytes = .ok (append (bytes.drop n) c) := by
  have whole : append (bytes.drop n) (initial (bytes.take n)) = initial bytes := by
    simp [append, initial, Reader.append]
  rw [ofBytes_eq_ok_iff, ← whole]
  exact prolongs_advance (ofBytes_eq_ok_iff.mp h) hc

theorem kind_of_text {members : List (String × Json)} (text : IsText (.object members) bytes)
    (h : ofBytes bytes = .ok c) : c.kind = .objectStart := by
  have ⟨c', hr, shows, _⟩ := advance_yields (follows_initial text) rfl
  cases hr.symm.trans (ofBytes_eq_ok_iff.mp h)
  exact shows

-- The walk through the root of a part of a text ends the whole text.
theorem blank_of_trail {members : List (String × Json)} (text : IsText (.object members) bytes)
    (h : ofBytes (bytes.take n) = .ok c) (hc : Settled c) (trail : Trail stack c c')
    (hs : c'.stack = []) (hk : ¬c'.kind.IsNumber) : Blank (c'.reader.ahead ++ bytes.drop n) := by
  have ⟨first, hf, before⟩ := exists_before text
  cases hf.symm.trans (ofBytes_append h hc)
  have sits := Sits.trail before.on (trail.append (.inr hk))
  have ⟨_, follows⟩ := sits.follows
  refine (follows.of_complete (decide_eq_true ?_)).2
  have within := sits.within
  rw [show (append (bytes.drop n) c').stack = [] from hs] at within
  generalize (append (bytes.drop n) c').expect = expect at within
  cases expect
  case done       => rfl
  case afterValue => exact absurd rfl within
  all_goals cases within

end TextCursor

open TextCursor (Settled)

-- Only nulls and objects are decoded.
theorem kind_of_decodeRecord_ok [UuidFormat] {set : SchemaSet} {id : SchemaId} {opt : DecodeOptions}
    {s s' : Session TextCursor} {r : Option Record}
    (h : (decodeRecord set id opt).run s = .ok r s') :
    s.cursor.kind = .null ∨ s.cursor.kind = .objectStart := by
  unfold decodeRecord at h
  split at h
  case h_2 => cases h
  case h_1 =>
    rw [decodeRecordOf, Decoding.run_kind_bind] at h
    generalize hk : Cursor.kind s.cursor = k at h
    cases k
    case null        => exact .inl hk
    case objectStart => exact .inr hk
    all_goals cases h

-- Only blanks are behind the brace that closes the root. Without this brace nothing is decoded.
theorem decodeRecord_truncated [UuidFormat] {types : List TypeDecl} {set : SchemaSet}
    (built : SchemaSet.build types = .ok set) {members : List (String × Json)} {bytes : List UInt8}
    (text : IsText (.object members) bytes) :
    ∃ front blank, bytes = front ++ ascii '\x7d' :: blank ∧ Blank blank ∧
      ∀ n ≤ front.length, ∀ c, TextCursor.ofBytes (bytes.take n) = .ok c →
        ∀ id opt, ∀ s : Session TextCursor, s.cursor = c →
          ∃ e s', (decodeRecord set id opt).run s = .error e s' := by
  have wf := SchemaSet.wellFormed_of_build built
  have ⟨front, blank, hb, hblank⟩ := exists_brace text
  refine ⟨front, blank, hb, hblank, ?_⟩
  rintro n hn _ hc id opt s rfl
  cases h : (decodeRecord set id opt).run s
  case error e s' => exact ⟨e, s', rfl⟩
  case ok r s' =>
    have settled : Settled s.cursor := by
      refine .inr ?_
      rcases kind_of_decodeRecord_ok h with hk | hk <;> simp [hk, TokenKind.IsNumber]
    have first := TextCursor.kind_of_text text (TextCursor.ofBytes_append hc settled)
    have hk : s.cursor.kind = Container.first .object := first
    have begins := TextCursor.begins_of_ofBytes hc
    have skips := TextCursor.skipValue_of_decodeRecord_ok wf begins hk h
    have ⟨trail, stack, last⟩ := TextCursor.ends_of_skipValue_ok begins hk skips
    have ends : ¬s'.cursor.kind.IsNumber := by simp [last, Container.last, TokenKind.IsNumber]
    have rest := TextCursor.blank_of_trail text hc settled trail stack ends
    have brace : ascii '\x7d' ∈ s'.cursor.reader.ahead ++ bytes.drop n := by
      rw [hb, List.drop_append_of_le_length hn]
      simp
    exact absurd (rest _ brace) (by decide)

-- A number of which a part is a number too.
theorem decodeRecord_truncated_number :
    let _ : UuidFormat := .hyphenated
    let types : List TypeDecl := [⟨"Item", [{ name := "n", type := .scalar (.int .w32) }]⟩]
    let set : SchemaSet := ⟨[⟨⟨0⟩, "Item", [⟨"n", 0, .scalar (.int .w32), false, false⟩]⟩]⟩
    let bytes := Json.plain "\x7b\"n\":12\x7d".toList
    SchemaSet.build types = .ok set ∧ IsText (.object [("n", .number "12")]) bytes ∧
    ∃ front blank, bytes = front ++ ascii '\x7d' :: blank ∧ Blank blank ∧
      ∀ n ≤ front.length, ∀ c, TextCursor.ofBytes (bytes.take n) = .ok c →
        ∀ id opt, ∀ s : Session TextCursor, s.cursor = c →
          ∃ e s', (decodeRecord set id opt).run s = .error e s' := by
  intro _ types set bytes
  have built : SchemaSet.build types = .ok set := by rfl
  have name : StringText "n" (Json.plain "\"n\"".toList) := .plain ['n'] (by decide)
  have integer : Numeral.IsInteger "12".toList := by decide
  have number : ValueText (.number "12") (Json.plain "12".toList) := .number integer.isNumber
  have none : Blank [] := blank_nil
  have text : IsText (.object [("n", .number "12")]) bytes :=
    ⟨[], _, [], none, .object (.one (.of none name none none number) none), none, rfl⟩
  exact ⟨built, text, decodeRecord_truncated built text⟩

end RecordDecoding
