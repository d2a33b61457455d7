import RecordDecoding.External.Uuid
import RecordDecoding.Proofs.Decode.Faults
import RecordDecoding.Proofs.Decode.Passing
import RecordDecoding.Proofs.Decode.Trees
import RecordDecoding.Proofs.Json.Sitting

namespace RecordDecoding

open Decoding Forward

theorem DecodeError.BlamesValue.kind_ne {e : DecodeError} (h : e.BlamesValue) :
    e.kind ≠ .cursor ∧ e.kind ≠ .unknownSchema := by
  cases e
  case cursor        => exact h.elim
  case unknownSchema => exact h.elim
  all_goals simp [kind]

namespace TextCursor

variable {c : TextCursor} {e : CursorError} {k : ScalarKind}

theorem Shows.exists_numberText {l : Lexeme} (hs : c.Shows l) (hv : l.Valid)
    (hk : c.kind = .integer ∨ c.kind = .float) :
    ∃ s : String, c.numberText = .ok s ∧ Numeral.IsNumber s.toList := by
  have form := l.of_kind
  rw [← hs.kind_eq] at form
  rcases hk with hk | hk <;>
  · rw [hk] at form
    obtain ⟨s, rfl⟩ := form
    exact ⟨s, hs.1, hv⟩

theorem Sits.read_ne_source [UuidFormat] (h : c.Sits) (k : ScalarKind) (e : CursorError) :
    k.read c ≠ .error (.source e) :=
  have ⟨_, shows, valid⟩ := h.shows
  TextCursor.read_ne_source k e (shows.exists_numberText valid)

-- In the middle of a text, decoding blames nothing but values.
def balancing [UuidFormat] : Passage where
  toWalk := sitting
  Errs := DecodeError.BlamesValue
  fails h := h.elim
  blames := id
  name _ hk he := nomatch (fieldName_eq hk).symm.trans he
  scalar h he := absurd he (h.read_ne_source _ _)

variable {j : Json} {bytes : List UInt8}

-- The first lexeme of a text is that of its root.
theorem exists_before (h : Json.IsText j bytes) :
    ∃ c, ofBytes bytes = .ok c ∧ sitting.Before [] c := by
  have ⟨c, hr, hs, hm⟩ := advance_from (follows_initial h) trivial nofun
  exact ⟨c, by rw [ofBytes, hr], hs, hm.begins rfl⟩

-- Nothing but blanks is left behind the root.
theorem finish_behind (h : sitting.Behind [] c) :
    c.isComplete ∧ c.depth = 0 ∧ ∃ c', finish.run c = .ok () c' := by
  have complete : c.isComplete := decide_eq_true h.ends.expect
  have ⟨_, follows⟩ := Sits.follows h.on
  exact ⟨complete, congrArg List.length h.ends.stack, follows.finish complete⟩

end TextCursor

-- Over a text, decoding fails on values only, and when it succeeds it has read the whole text.
theorem decodeRecord_balanced [UuidFormat] {types : List TypeDecl} {set : SchemaSet}
    (built : SchemaSet.build types = .ok set) {id : SchemaId} {schema : Schema}
    (found : set.get? id = some schema) (opt : DecodeOptions) {j : Json} {bytes : List UInt8}
    (text : Json.IsText j bytes) :
    ∃ c, TextCursor.ofBytes bytes = .ok c ∧ ∀ s : Session TextCursor, s.cursor = c →
      ((decodeRecord set id opt).run s).Satisfies
        (fun _ s' => s'.cursor.isComplete ∧ s'.cursor.depth = 0 ∧
          ∃ c', TextCursor.finish.run s'.cursor = .ok () c')
        fun e _ => e.kind ≠ .cursor ∧ e.kind ≠ .unknownSchema := by
  have wf := SchemaSet.wellFormed_of_build built
  have ⟨c, hc, before⟩ := TextCursor.exists_before text
  refine ⟨c, hc, fun s he => ?_⟩
  subst he
  have sat := TextCursor.balancing.decodeRecord_takes wf found opt [] before
  generalize (decodeRecord set id opt).run s = o at sat
  cases sat
  case error h => exact .error h.kind_ne
  case ok h    => exact .ok (TextCursor.finish_behind h)

theorem decodeRecord_balanced_flag :
    let _ : UuidFormat := .hyphenated
    let types : List TypeDecl := [⟨"Flag", [{ name := "on", type := .scalar .bool }]⟩]
    let schema : Schema := ⟨⟨0⟩, "Flag", [⟨"on", 0, .scalar .bool, false, false⟩]⟩
    let bytes := Json.plain "\x7b\"on\":true\x7d".toList
    SchemaSet.build types = .ok ⟨[schema]⟩ ∧
      Json.IsText (.object [("on", .bool true)]) bytes ∧
      ∃ c, TextCursor.ofBytes bytes = .ok c ∧ ∀ s : Session TextCursor, s.cursor = c →
        ((decodeRecord ⟨[schema]⟩ ⟨0⟩ .default).run s).Satisfies
          (fun _ s' => s'.cursor.isComplete ∧ s'.cursor.depth = 0 ∧
            ∃ c', TextCursor.finish.run s'.cursor = .ok () c')
          fun e _ => e.kind ≠ .cursor ∧ e.kind ≠ .unknownSchema := by
  intro _ types schema bytes
  have built : SchemaSet.build types = .ok ⟨[schema]⟩ := by rfl
  have found : SchemaSet.get? ⟨[schema]⟩ ⟨0⟩ = some schema := rfl
  have raw {c : Char} (hq : c ≠ '"') (hb : c ≠ '\\') (h : 0x20 ≤ c.toNat) :
      Json.CharText c (String.utf8EncodeChar c) := .raw ⟨hq, hb, h⟩
  have chars : Json.CharsText ['o', 'n'] (Json.plain ['o', 'n']) :=
    .cons (raw (by decide) (by decide) (by decide))
      (.cons (raw (by decide) (by decide) (by decide)) .nil)
  have name : Json.StringText "on" (Json.plain "\"on\"".toList) := .quoted (s := "on") chars
  have none : Json.Blank [] := nofun
  have text : Json.IsText (.object [("on", .bool true)]) bytes :=
    ⟨[], _, [], none, .object (.one (.of none name none none .true) none), none, rfl⟩
  exact ⟨built, text, decodeRecord_balanced built found .default text⟩

end RecordDecoding
