import RecordDecoding.Proofs.Json.Reading
import RecordDecoding.Proofs.Json.Signs

namespace RecordDecoding

open Forward Json

-- The containers that are open when a cursor expects something.
def Expect.Suits : Expect → List Container → Prop
  | valueOrEnd, stack => stack.head? = some .array
  | keyOrEnd, stack   => stack.head? = some .object
  | done, stack       => stack = []
  | _, _              => True

namespace TextCursor

variable {c c' : TextCursor} {bytes ahead : List UInt8} {stack : List Container} {l : Lexeme}
  {ls : List Lexeme} {j : Json}

-- With what is due at the cursor, something was due before.
structure Leads (before : List Lexeme → Prop) (c : TextCursor) : Prop where
  unsigned : hasSignedUnit c.reader.ahead = false
  suits : c.expect.Suits c.stack
  due {ls : List Lexeme} : Due c.expect c.stack c.reader.ahead ls → ∃ l, before (l :: ls)

theorem Leads.imp {p q : List Lexeme → Prop} (h : Leads p c) (hpq : ∀ {ls}, p ls → q ls) :
    Leads q c where
  unsigned := h.unsigned
  suits := h.suits
  due hd := (h.due hd).imp fun _ => hpq

theorem suits_after (stack : List Container) :
    (if stack.isEmpty then Expect.done else .afterValue).Suits stack := by
  cases stack
  case nil  => rfl
  case cons => trivial

theorem skipBlank_ok (h : skipBlank.run c = .ok () c') :
    ∃ blank r, Blank blank ∧ c.reader.ahead = blank ++ r.ahead ∧ c' = { c with reader := r } := by
  have ⟨r, h, hc⟩ := onReader_ok h
  have ⟨blank, hb, ha⟩ := Scan.skipWhile_ok h
  exact ⟨blank, r, hb, ha, hc⟩

section Values

-- A value and then what comes after it.
inductive ValueDue (stack : List Container) : List UInt8 → List Lexeme → Prop
  | of {j bytes rest ls} : ValueText j bytes → After stack rest ls →
    ValueDue stack (bytes ++ rest) (j.lexemes ++ ls)

theorem scalar_leads {kind : TokenKind}
    (h : (setKind kind >>= fun _ => afterValue).run c = .ok () c') (hv : ValueText j bytes)
    (hl : j.lexemes = [l]) (hst : c.stack = stack) (ha : ahead = bytes ++ c.reader.ahead)
    (hs : hasSignedUnit ahead = false) : Leads (ValueDue stack ahead) c' := by
  cases h
  subst ha hst
  refine ⟨?_, suits_after c.stack, fun hd => ⟨l, ?_⟩⟩
  · rw [← hs, Unsigned.value hv]
  · have due := ValueDue.of hv (due_after_iff.mp hd)
    rwa [hl] at due

theorem readLiteral_leads {word : String} {kind : TokenKind}
    (h : (readLiteral word kind).run c = .ok () c') (hw : word.toList ≠ [])
    (hv : ValueText j (plain word.toList)) (hl : j.lexemes = [l])
    (hs : hasSignedUnit c.reader.ahead = false) :
    Leads (ValueDue c.stack c.reader.ahead) c' := by
  have ⟨_, _, hrun, h⟩ := exists_of_bind_ok h
  have ⟨r, hr, hc⟩ := onReader_ok hrun
  have ha := Scan.literal_ok (by simpa using hw) hr
  subst hc
  exact scalar_leads h hv hl rfl ha hs

theorem readNumber_leads (h : readNumber.run c = .ok () c')
    (hs : hasSignedUnit c.reader.ahead = false) : Leads (ValueDue c.stack c.reader.ahead) c' := by
  have ⟨kind, _, hrun, h⟩ := exists_of_bind_ok h
  have ⟨r, hr, hc⟩ := onReader_ok hrun
  have ⟨cs, hn, ha⟩ := Scan.number_ok hr
  subst hc
  have ⟨_, _, hchange, h⟩ := exists_of_bind_ok h
  cases hchange
  rw [← String.toList_ofList (l := cs)] at hn ha
  exact scalar_leads h (.number hn) rfl rfl ha hs

theorem valueDue_array (h : Due .valueOrEnd (.array :: stack) ahead ls) :
    ValueDue stack (ascii '[' :: ahead) (.arrayStart :: ls) := by
  have ⟨items, text, rest, ls', hv, ha, hl, after⟩ := due_array_iff.mp h
  simpa [lexemes, ha, hl] using ValueDue.of hv after

theorem valueDue_object (h : Due .keyOrEnd (.object :: stack) ahead ls) :
    ValueDue stack (ascii '\x7b' :: ahead) (.objectStart :: ls) := by
  have ⟨members, text, rest, ls', hv, ha, hl, after⟩ := due_object_iff.mp h
  simpa [lexemes, ha, hl] using ValueDue.of hv after

theorem openContainer_leads {container : Container} {kind : TokenKind} {expect : Expect} {b : UInt8}
    (h : (openContainer container kind expect).run c = .ok () c')
    (hb : c.reader.ahead.head? = some b) (hne : b ≠ ascii '\\')
    (hsuit : expect.Suits (container :: c.stack)) (hs : hasSignedUnit c.reader.ahead = false)
    (hd : ∀ {ahead ls}, Due expect (container :: c.stack) ahead ls →
      ValueDue c.stack (b :: ahead) (l :: ls)) :
    Leads (ValueDue c.stack c.reader.ahead) c' := by
  have ⟨b', _, hrun, h⟩ := exists_of_bind_ok h
  have ⟨r, ha, hc⟩ := next_ok hrun
  rw [ha, List.head?_cons, Option.some.injEq] at hb
  subst hc hb
  cases h
  rw [ha, hasSignedUnit_cons hne] at hs
  rw [ha]
  exact ⟨hs, hsuit, fun due => ⟨l, hd due⟩⟩

theorem readValueFrom_leads (h : (readValueFrom c.reader.ahead.head?).run c = .ok () c')
    (hs : hasSignedUnit c.reader.ahead = false) : Leads (ValueDue c.stack c.reader.ahead) c' := by
  rw [readValueFrom] at h
  split at h
  case isTrue hb => exact openContainer_leads h hb (by decide) rfl hs valueDue_object
  split at h
  case isTrue hb => exact openContainer_leads h hb (by decide) rfl hs valueDue_array
  split at h
  case isTrue hb =>
    obtain ⟨_, _, hrun, h⟩ := exists_of_bind_ok h
    obtain ⟨s, bytes, r, ht, ha, hc⟩ := readString_ok hrun hs hb
    subst hc
    exact scalar_leads h (.string ht) rfl rfl ha hs
  split at h
  case isTrue => exact readNumber_leads h hs
  split at h
  case isTrue => exact readLiteral_leads h (by decide) .true rfl hs
  split at h
  case isTrue => exact readLiteral_leads h (by decide) .false rfl hs
  split at h
  case isTrue  => exact readLiteral_leads h (by decide) .null rfl hs
  case isFalse => cases h

theorem readValue_leads (h : readValue.run c = .ok () c')
    (hs : hasSignedUnit c.reader.ahead = false) : Leads (ValueDue c.stack c.reader.ahead) c' :=
  readValueFrom_leads (c := { c with start := c.reader.offset }) h hs

end Values

section Members

-- A member from its opening quote on, and then what comes after it.
inductive MemberDue (stack : List Container) : List UInt8 → List Lexeme → Prop
  | of {name j text rest ls} : (∀ {blank}, Blank blank → MemberText name j (blank ++ text)) →
    After (.object :: stack) rest ls →
    MemberDue stack (text ++ rest) (.name name :: (j.lexemes ++ ls))

theorem readKey_leads (h : readKey.run c = .ok () c') (hst : c.stack = .object :: stack)
    (hs : hasSignedUnit c.reader.ahead = false) : Leads (MemberDue stack c.reader.ahead) c' := by
  rw [readKey, run_bind_of_ok (run_peek c)] at h
  split at h
  case isFalse => cases h
  case isTrue hb =>
    have ⟨_, _, hmark, h⟩ := exists_of_bind_ok h
    cases hmark
    have ⟨_, _, hrun, h⟩ := exists_of_bind_ok h
    have ⟨name, text, r₁, ht, ha₁, hc⟩ := readString_ok hrun hs hb
    subst hc
    have ⟨_, _, hrun, h⟩ := exists_of_bind_ok h
    have ⟨blank, r₂, hblank, ha₂, hc⟩ := skipBlank_ok hrun
    subst hc
    rw [run_bind_of_ok (run_peek _)] at h
    split at h
    case isFalse => cases h
    case isTrue hb' =>
      have ⟨b, _, hrun, h⟩ := exists_of_bind_ok h
      have ⟨r₃, ha₃, hc⟩ := next_ok hrun
      rw [ha₃, List.head?_cons, Option.some.injEq] at hb'
      subst hc hb'
      cases h
      have ha : c.reader.ahead = text ++ (blank ++ ascii ':' :: r₃.ahead) := by
        rw [show c.reader.ahead = _ from ha₁, show r₁.ahead = _ from ha₂,
          show r₂.ahead = _ from ha₃]
      rw [ha] at hs ⊢
      refine ⟨?_, trivial, fun hd => ⟨.name name, ?_⟩⟩
      · rwa [Unsigned.string ht, Unsigned.blank hblank, hasSignedUnit_cons (by decide)] at hs
      · generalize hr : r₃.ahead = ahead at hd
        cases hd
        case value hb hv after =>
          have due := MemberDue.of (fun hb' => .of hb' ht hblank hb hv) (hst ▸ after)
          simpa [hr] using due

theorem closeContainer_leads {container : Container} {b : UInt8} {kind : TokenKind} (l : Lexeme)
    (h : (closeContainer kind).run c = .ok () c') (hst : c.stack = container :: stack)
    (hb : c.reader.ahead.head? = some b) (hne : b ≠ ascii '\\')
    (hs : hasSignedUnit c.reader.ahead = false) :
    Leads (fun ls => ∃ rest ls', c.reader.ahead = b :: rest ∧ ls = l :: ls' ∧ After stack rest ls')
      c' := by
  have ⟨_, _, hmark, h⟩ := exists_of_bind_ok h
  cases hmark
  have ⟨b', _, hrun, h⟩ := exists_of_bind_ok h
  have ⟨r, ha, hc⟩ := next_ok hrun
  have ha : c.reader.ahead = b' :: r.ahead := ha
  rw [ha, List.head?_cons, Option.some.injEq] at hb
  subst hc hb
  cases h
  rw [ha, hasSignedUnit_cons hne] at hs
  refine ⟨hs, suits_after c.stack.tail, fun hd => ⟨l, r.ahead, _, ha, rfl, ?_⟩⟩
  have after := due_after_iff.mp hd
  rwa [hst] at after

theorem comma_ok {x : Step Unit}
    (h : (next >>= fun _ => skipBlank >>= fun _ => x).run c = .ok () c')
    (hb : c.reader.ahead.head? = some (ascii ',')) (hs : hasSignedUnit c.reader.ahead = false) :
    ∃ blank r, Blank blank ∧ c.reader.ahead = ascii ',' :: (blank ++ r.ahead) ∧
      hasSignedUnit r.ahead = false ∧ x.run { c with reader := r } = .ok () c' := by
  have ⟨b, _, hrun, h⟩ := exists_of_bind_ok h
  have ⟨r₁, ha₁, hc⟩ := next_ok hrun
  rw [ha₁, List.head?_cons, Option.some.injEq] at hb
  subst hc hb
  have ⟨_, _, hrun, h⟩ := exists_of_bind_ok h
  have ⟨blank, r, hblank, ha, hc⟩ := skipBlank_ok hrun
  subst hc
  have ha : r₁.ahead = blank ++ r.ahead := ha
  rw [ha₁, ha, hasSignedUnit_cons (by decide), Unsigned.blank hblank] at hs
  exact ⟨blank, r, hblank, by rw [ha₁, ha], hs, h⟩

theorem nextItem_leads (h : nextItem.run c = .ok () c') (hst : c.stack = .array :: stack)
    (hs : hasSignedUnit c.reader.ahead = false) :
    Leads (fun ls => ∀ blank, Blank blank →
      After (.array :: stack) (blank ++ c.reader.ahead) ls) c' := by
  rw [nextItem, run_bind_of_ok (run_peek c)] at h
  split at h
  case isTrue hb =>
    have ⟨blank, r, hblank, ha, hs, h⟩ := comma_ok h hb hs
    rw [ha]
    refine (readValue_leads h hs).imp fun due blank hb => ?_
    generalize r.ahead = ahead at due
    cases due
    case of hv after => exact .nextItem hb hblank hv (hst ▸ after)
  case isFalse =>
    split at h
    case isFalse => cases h
    case isTrue hb =>
      refine (closeContainer_leads .arrayEnd h hst hb (by decide) hs).imp ?_
      intro _ ⟨rest, ls', ha, hl, after⟩ blank hb
      rw [ha, hl]
      exact .arrayEnd hb after

theorem nextMember_leads (h : nextMember.run c = .ok () c') (hst : c.stack = .object :: stack)
    (hs : hasSignedUnit c.reader.ahead = false) :
    Leads (fun ls => ∀ blank, Blank blank →
      After (.object :: stack) (blank ++ c.reader.ahead) ls) c' := by
  rw [nextMember, run_bind_of_ok (run_peek c)] at h
  split at h
  case isTrue hb =>
    have ⟨blank, r, hblank, ha, hs, h⟩ := comma_ok h hb hs
    rw [ha]
    refine (readKey_leads h hst hs).imp fun due blank hb => ?_
    generalize hr : r.ahead = ahead at due
    cases due
    case of hm after =>
      have after := After.nextMember hb (hm hblank) after
      simpa [hr] using after
  case isFalse =>
    split at h
    case isFalse => cases h
    case isTrue hb =>
      refine (closeContainer_leads .objectEnd h hst hb (by decide) hs).imp ?_
      intro _ ⟨rest, ls', ha, hl, after⟩ blank hb
      rw [ha, hl]
      exact .objectEnd hb after

end Members

theorem valueOrEnd_leads (h : (readNext .valueOrEnd c.stack).run c = .ok () c')
    (hst : c.stack = .array :: stack) (hs : hasSignedUnit c.reader.ahead = false) :
    Leads (fun ls => ∀ blank, Blank blank →
      Due .valueOrEnd (.array :: stack) (blank ++ c.reader.ahead) ls) c' := by
  rw [readNext, run_bind_of_ok (run_peek c)] at h
  split at h
  case isTrue hb =>
    refine (closeContainer_leads .arrayEnd h hst hb (by decide) hs).imp ?_
    intro _ ⟨rest, ls', ha, hl, after⟩ blank hb
    rw [ha, hl]
    exact .emptyArray hb after
  case isFalse =>
    refine (readValue_leads h hs).imp fun due blank hb => ?_
    generalize c.reader.ahead = ahead at due
    cases due
    case of hv after => exact .firstItem hb hv (hst ▸ after)

theorem keyOrEnd_leads (h : (readNext .keyOrEnd c.stack).run c = .ok () c')
    (hst : c.stack = .object :: stack) (hs : hasSignedUnit c.reader.ahead = false) :
    Leads (fun ls => ∀ blank, Blank blank →
      Due .keyOrEnd (.object :: stack) (blank ++ c.reader.ahead) ls) c' := by
  rw [readNext, run_bind_of_ok (run_peek c)] at h
  split at h
  case isTrue hb =>
    refine (closeContainer_leads .objectEnd h hst hb (by decide) hs).imp ?_
    intro _ ⟨rest, ls', ha, hl, after⟩ blank hb
    rw [ha, hl]
    exact .emptyObject hb after
  case isFalse =>
    refine (readKey_leads h hst hs).imp fun due blank hb => ?_
    generalize c.reader.ahead = ahead at due
    cases due
    case of hm after =>
      have due := Due.firstMember (hm hb) after
      simpa using due

-- The cases are those of what the cursor expects.
theorem readNext_leads (h : (readNext c.expect c.stack).run c = .ok () c')
    (hsuit : c.expect.Suits c.stack) (hs : hasSignedUnit c.reader.ahead = false) :
    Leads (fun ls => ∀ blank, Blank blank → Due c.expect c.stack (blank ++ c.reader.ahead) ls)
      c' := by
  generalize he : c.expect = expect, hst : c.stack = stack at *
  cases expect
  case value =>
    refine (readValue_leads h hs).imp fun due blank hb => ?_
    generalize c.reader.ahead = ahead at due
    cases due
    case of hv after => exact .value hb hv (hst ▸ after)
  case valueOrEnd =>
    have ⟨stack', hst'⟩ := List.head?_eq_some_iff.mp hsuit
    subst hst'
    exact valueOrEnd_leads (hst ▸ h) hst hs
  case keyOrEnd =>
    have ⟨stack', hst'⟩ := List.head?_eq_some_iff.mp hsuit
    subst hst'
    exact keyOrEnd_leads (hst ▸ h) hst hs
  case afterValue =>
    cases stack
    case nil => cases h
    case cons container stack =>
      cases container
      case object =>
        exact (nextMember_leads h hst hs).imp fun after blank hb => .afterValue (after blank hb)
      case array =>
        exact (nextItem_leads h hst hs).imp fun after blank hb => .afterValue (after blank hb)
  case done => cases h

-- One step back.
theorem advance_leads (h : advance.run c = .ok () c') (hsuit : c.expect.Suits c.stack)
    (hs : hasSignedUnit c.reader.ahead = false) :
    Leads (Due c.expect c.stack c.reader.ahead) c' := by
  rw [advance, run_bind_of_ok (run_look c)] at h
  split at h
  case isTrue => cases h
  case isFalse =>
    obtain ⟨_, _, hrun, h⟩ := exists_of_bind_ok h
    obtain ⟨blank, r, hb, ha, hc⟩ := skipBlank_ok hrun
    subst hc
    rw [ha] at hs ⊢
    rw [Unsigned.blank hb] at hs
    exact (readNext_leads (c := { c with reader := r }) h hsuit hs).imp fun due => due blank hb

theorem finish_ok (h : finish.run c = .ok () c') : c.isComplete ∧ Blank c.reader.ahead := by
  rw [finish, run_bind_of_ok (run_look c)] at h
  split at h
  case isFalse => cases h
  case isTrue hc =>
    obtain ⟨_, _, hrun, h⟩ := exists_of_bind_ok h
    obtain ⟨blank, r, hb, ha, hc'⟩ := skipBlank_ok hrun
    subst hc'
    obtain ⟨_, _, hrun, h⟩ := exists_of_bind_ok h
    cases hrun
    split at h
    case isFalse => cases h
    case isTrue he =>
      have he : r.ahead = [] := List.isEmpty_iff.mp he
      rw [ha, he, List.append_nil]
      exact ⟨hc, hb⟩

-- A cursor that is moved on until its text is complete, as it is on each token that it comes to.
inductive Tour : TextCursor → List TextCursor → TextCursor → Prop
  | done {c : TextCursor} : c.isComplete → Tour c [] c
  | move {c c' last : TextCursor} {cursors} : c.isComplete = false → advance.run c = .ok () c' →
    Tour c' cursors last → Tour c (c' :: cursors) last

theorem tour_of_collect {seen cursors : List TextCursor}
    (h : (loop advance advance_reads all.collect seen).run c = .ok cursors c') :
    ∃ ahead, cursors = seen.reverse ++ c :: ahead ∧ Tour c ahead c' := by
  refine loop_ok
    (P := fun seen c cursors c' => ∃ ahead, cursors = seen.reverse ++ c :: ahead ∧ Tour c ahead c')
    ?stop ?more h
  case stop =>
    intro seen c _ _ hr
    rw [run_collect] at hr
    split at hr
    case isFalse => cases hr
    case isTrue hc =>
      cases hr
      exact ⟨[], List.reverse_cons, .done hc⟩
  case more =>
    intro seen c _ _ c₁ _ _ hr next ⟨ahead, he, tour⟩
    rw [run_collect] at hr
    split at hr
    case isTrue => cases hr
    case isFalse hc =>
      cases hr
      rw [List.reverse_cons, List.append_assoc] at he
      exact ⟨c₁ :: ahead, he, .move (Bool.eq_false_iff.mpr hc) next tour⟩

theorem tour_of_all {cursors : List TextCursor} (h : all bytes = .ok cursors) :
    ∃ last c', Tour (initial bytes) cursors last ∧ finish.run last = .ok () c' := by
  have ⟨c, last, c', first, rest, finished⟩ := all_eq_ok_iff.mp h
  have ⟨ahead, he, tour⟩ := tour_of_collect rest
  exact ⟨last, c', he ▸ .move rfl first tour, finished⟩

-- All steps back, from the end.
theorem Tour.exists_due {cursors : List TextCursor} (tour : Tour c cursors c')
    (hb : Blank c'.reader.ahead) (hsuit : c.expect.Suits c.stack)
    (hs : hasSignedUnit c.reader.ahead = false) :
    ∃ ls, Due c.expect c.stack c.reader.ahead ls := by
  induction tour
  case done c hc =>
    rw [isComplete, decide_eq_true_eq] at hc
    rw [hc] at hsuit ⊢
    rw [show c.stack = [] from hsuit]
    exact ⟨[], .done hb⟩
  case move hr _ ih =>
    have leads := advance_leads hr hsuit hs
    obtain ⟨ls, due⟩ := ih hb leads.suits leads.unsigned
    obtain ⟨l, due⟩ := leads.due due
    exact ⟨l :: ls, due⟩

-- What a cursor accepts is a text, unless a unit of it starts with a sign.
theorem exists_isText {cursors : List TextCursor} (h : all bytes = .ok cursors)
    (hs : hasSignedUnit bytes = false) : ∃ j, IsText j bytes := by
  have ⟨_, _, tour, finished⟩ := tour_of_all h
  have ⟨_, due⟩ := tour.exists_due (finish_ok finished).2 trivial hs
  have ⟨j, text, _⟩ := due_text_iff.mp due
  exact ⟨j, text⟩

-- In a text, no unit starts with a sign.
theorem isText_iff_of_all_ok {cursors : List TextCursor} (h : all bytes = .ok cursors) :
    (∃ j, IsText j bytes) ↔ hasSignedUnit bytes = false :=
  ⟨fun ⟨_, text⟩ => hasSignedUnit_text text, exists_isText h⟩

theorem isText_iff_of_all_ok_null : ∃ cursors, all (plain "null".toList) = .ok cursors ∧
    ((∃ j, IsText j (plain "null".toList)) ↔ hasSignedUnit (plain "null".toList) = false) := by
  have accepted : (all (plain "null".toList)).isOk := by decide +kernel
  have ⟨cursors, h⟩ := exists_of_isOk accepted
  exact ⟨cursors, h, isText_iff_of_all_ok h⟩

-- A sign is taken for the first of four digits.
theorem all_ok_signed_unit : (∃ cursors, all (plain "\"\\u+041\"".toList) = .ok cursors) ∧
    ¬∃ j, IsText j (plain "\"\\u+041\"".toList) := by
  constructor
  case left =>
    have accepted : (all (plain "\"\\u+041\"".toList)).isOk := by decide +kernel
    exact exists_of_isOk accepted
  case right =>
    intro ⟨j, h⟩
    have signed : hasSignedUnit (plain "\"\\u+041\"".toList) = true := by decide
    rw [hasSignedUnit_text h] at signed
    cases signed

end TextCursor
end RecordDecoding
