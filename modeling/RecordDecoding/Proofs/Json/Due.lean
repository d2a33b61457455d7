import RecordDecoding.Cursor.Text
import RecordDecoding.Json.Lexeme
import RecordDecoding.Proofs.Json.Grammar

namespace RecordDecoding.Json

-- A rest that comes after a value, with the containers that are open there, and its lexemes.
inductive After : List Container → List UInt8 → List Lexeme → Prop
  | root {blank} : Blank blank → After [] blank []
  | arrayEnd {stack blank rest ls} : Blank blank → After stack rest ls →
    After (.array :: stack) (blank ++ ascii ']' :: rest) (.arrayEnd :: ls)
  | nextItem {stack blank blank' j bytes rest ls} : Blank blank → Blank blank' →
    ValueText j bytes → After (.array :: stack) rest ls →
    After (.array :: stack) (blank ++ ascii ',' :: (blank' ++ (bytes ++ rest))) (j.lexemes ++ ls)
  | objectEnd {stack blank rest ls} : Blank blank → After stack rest ls →
    After (.object :: stack) (blank ++ ascii '\x7d' :: rest) (.objectEnd :: ls)
  | nextMember {stack blank name j bytes rest ls} : Blank blank → MemberText name j bytes →
    After (.object :: stack) rest ls →
    After (.object :: stack) (blank ++ ascii ',' :: (bytes ++ rest))
      (.name name :: (j.lexemes ++ ls))

-- A rest that starts as a cursor expects it.
inductive Due : Expect → List Container → List UInt8 → List Lexeme → Prop
  | value {stack blank j bytes rest ls} : Blank blank → ValueText j bytes → After stack rest ls →
    Due .value stack (blank ++ (bytes ++ rest)) (j.lexemes ++ ls)
  | firstItem {stack blank j bytes rest ls} : Blank blank → ValueText j bytes →
    After (.array :: stack) rest ls →
    Due .valueOrEnd (.array :: stack) (blank ++ (bytes ++ rest)) (j.lexemes ++ ls)
  | emptyArray {stack blank rest ls} : Blank blank → After stack rest ls →
    Due .valueOrEnd (.array :: stack) (blank ++ ascii ']' :: rest) (.arrayEnd :: ls)
  | firstMember {stack name j bytes rest ls} : MemberText name j bytes →
    After (.object :: stack) rest ls →
    Due .keyOrEnd (.object :: stack) (bytes ++ rest) (.name name :: (j.lexemes ++ ls))
  | emptyObject {stack blank rest ls} : Blank blank → After stack rest ls →
    Due .keyOrEnd (.object :: stack) (blank ++ ascii '\x7d' :: rest) (.objectEnd :: ls)
  | afterValue {container stack bytes ls} : After (container :: stack) bytes ls →
    Due .afterValue (container :: stack) bytes ls
  | done {blank} : Blank blank → Due .done [] blank []

variable {stack : List Container} {bytes rest : List UInt8} {ls : List Lexeme}
  {items : List Json} {members : List (String × Json)}

-- What is expected after a value.
theorem due_after_iff :
    Due (if stack.isEmpty then .done else .afterValue) stack bytes ls ↔ After stack bytes ls := by
  constructor
  case mp =>
    intro h
    cases stack <;> cases h
    case nil.done h        => exact .root h
    case cons.afterValue h => exact h
  case mpr =>
    intro h
    cases stack
    case nil =>
      cases h
      case root h => exact .done h
    case cons => exact .afterValue h

section Arrays

-- The first of some items, and what comes after it.
theorem ItemsText.first (h : ItemsText items bytes) (ha : After stack rest ls) :
    ∃ blank j text tail ls', Blank blank ∧ ValueText j text ∧
      bytes ++ ascii ']' :: rest = blank ++ (text ++ tail) ∧
      itemLexemes items ++ .arrayEnd :: ls = j.lexemes ++ ls' ∧
      After (.array :: stack) tail ls' := by
  induction items generalizing bytes
  case nil => cases h
  case cons j items ih =>
    cases h
    case one blank text after hb hb' hv =>
      refine ⟨blank, j, text, _, _, hb, hv, ?_, ?_, .arrayEnd hb' ha⟩
      · simp
      · simp [itemLexemes]
    case cons blank text after more hb hb' hv hi =>
      have ⟨blank', j', text', tail, ls', hb'', hv', ht, hl, ha'⟩ := ih hi
      refine ⟨blank, j, text, _, _, hb, hv, ?_, ?_, .nextItem hb' hb'' hv' ha'⟩
      · simp [← ht]
      · simp [itemLexemes, hl]

-- The items after the first one.
theorem After.itemsText (h : After (.array :: stack) bytes ls) :
    ∃ items more rest ls', bytes = more ++ ascii ']' :: rest ∧
      ls = itemLexemes items ++ .arrayEnd :: ls' ∧ After stack rest ls' ∧
      ∀ {blank j text}, Blank blank → ValueText j text →
        ItemsText (j :: items) (blank ++ (text ++ more)) := by
  generalize hs : Container.array :: stack = st at h
  induction h
  case arrayEnd blank rest ls hb ha _ =>
    cases hs
    exact ⟨[], blank, rest, ls, rfl, rfl, ha, fun hb' hv => .one hb' hv hb⟩
  case nextItem blank blank' j text rest ls hb hb' hv _ ih =>
    have ⟨items, more, rest', ls', hr, hl, ha, hi⟩ := ih hs
    refine ⟨j :: items, blank ++ ascii ',' :: (blank' ++ (text ++ more)), rest', ls', ?_, ?_, ha,
      fun hb'' hv' => .cons hb'' hv' hb (hi hb' hv)⟩
    · simp [hr]
    · simp [itemLexemes, hl]
  all_goals cases hs

-- The rest of an array behind its opening bracket.
theorem due_array_iff : Due .valueOrEnd (.array :: stack) bytes ls ↔
    ∃ items text rest ls', ValueText (array items) (ascii '[' :: (text ++ [ascii ']'])) ∧
      bytes = text ++ ascii ']' :: rest ∧ ls = itemLexemes items ++ .arrayEnd :: ls' ∧
      After stack rest ls' := by
  constructor
  case mp =>
    intro h
    cases h
    case firstItem blank j text rest ls hb hv ha =>
      have ⟨items, more, rest', ls', hr, hl, ha, hi⟩ := ha.itemsText
      refine ⟨j :: items, blank ++ (text ++ more), rest', ls', .array (hi hb hv), ?_, ?_, ha⟩
      · simp [hr]
      · simp [itemLexemes, hl]
    case emptyArray blank rest ls hb ha =>
      exact ⟨[], blank, rest, ls, .emptyArray hb, rfl, rfl, ha⟩
  case mpr =>
    intro ⟨items, text, rest, ls', hv, hb, hl, ha⟩
    subst hb hl
    generalize ht : text ++ [ascii ']'] = bytes at hv
    cases hv
    case emptyArray hb =>
      rw [List.append_cancel_right ht]
      exact .emptyArray hb ha
    case array hi =>
      rw [List.append_cancel_right ht]
      have ⟨_, _, _, _, _, hb, hv, ht, hl, ha⟩ := hi.first ha
      rw [ht, hl]
      exact .firstItem hb hv ha

end Arrays

section Objects

-- The first of some members, and what comes after it.
theorem MembersText.first (h : MembersText members bytes) (ha : After stack rest ls) :
    ∃ name j text tail ls', MemberText name j text ∧
      bytes ++ ascii '\x7d' :: rest = text ++ tail ∧
      memberLexemes members ++ .objectEnd :: ls = .name name :: (j.lexemes ++ ls') ∧
      After (.object :: stack) tail ls' := by
  induction members generalizing bytes
  case nil => cases h
  case cons member members ih =>
    cases h
    case one name j text after hm hb =>
      refine ⟨name, j, text, _, _, hm, ?_, ?_, .objectEnd hb ha⟩
      · simp
      · simp [memberLexemes]
    case cons name j text after more hm hb hms =>
      have ⟨name', j', text', tail, ls', hm', ht, hl, ha'⟩ := ih hms
      refine ⟨name, j, text, _, _, hm, ?_, ?_, .nextMember hb hm' ha'⟩
      · simp [← ht]
      · simp [memberLexemes, hl]

-- The members after the first one.
theorem After.membersText (h : After (.object :: stack) bytes ls) :
    ∃ members more rest ls', bytes = more ++ ascii '\x7d' :: rest ∧
      ls = memberLexemes members ++ .objectEnd :: ls' ∧ After stack rest ls' ∧
      ∀ {name j text}, MemberText name j text →
        MembersText ((name, j) :: members) (text ++ more) := by
  generalize hs : Container.object :: stack = st at h
  induction h
  case objectEnd blank rest ls hb ha _ =>
    cases hs
    exact ⟨[], blank, rest, ls, rfl, rfl, ha, fun hm => .one hm hb⟩
  case nextMember blank name j text rest ls hb hm _ ih =>
    have ⟨members, more, rest', ls', hr, hl, ha, hms⟩ := ih hs
    refine ⟨(name, j) :: members, blank ++ ascii ',' :: (text ++ more), rest', ls', ?_, ?_, ha,
      fun hm' => .cons hm' hb (hms hm)⟩
    · simp [hr]
    · simp [memberLexemes, hl]
  all_goals cases hs

-- The rest of an object behind its opening brace.
theorem due_object_iff : Due .keyOrEnd (.object :: stack) bytes ls ↔
    ∃ members text rest ls', ValueText (object members) (ascii '\x7b' :: (text ++ [ascii '\x7d'])) ∧
      bytes = text ++ ascii '\x7d' :: rest ∧ ls = memberLexemes members ++ .objectEnd :: ls' ∧
      After stack rest ls' := by
  constructor
  case mp =>
    intro h
    cases h
    case firstMember name j text rest ls hm ha =>
      have ⟨members, more, rest', ls', hr, hl, ha, hms⟩ := ha.membersText
      refine ⟨(name, j) :: members, text ++ more, rest', ls', .object (hms hm), ?_, ?_, ha⟩
      · simp [hr]
      · simp [memberLexemes, hl]
    case emptyObject blank rest ls hb ha =>
      exact ⟨[], blank, rest, ls, .emptyObject hb, rfl, rfl, ha⟩
  case mpr =>
    intro ⟨members, text, rest, ls', hv, hb, hl, ha⟩
    subst hb hl
    generalize ht : text ++ [ascii '\x7d'] = bytes at hv
    cases hv
    case emptyObject hb =>
      rw [List.append_cancel_right ht]
      exact .emptyObject hb ha
    case object hms =>
      rw [List.append_cancel_right ht]
      have ⟨_, _, _, _, _, hm, ht, hl, ha⟩ := hms.first ha
      rw [ht, hl]
      exact .firstMember hm ha

end Objects

-- The rest of a text before its first byte is all of it.
theorem due_text_iff : Due .value [] bytes ls ↔ ∃ j, IsText j bytes ∧ ls = j.lexemes := by
  constructor
  case mp =>
    intro h
    cases h
    case value blank j text rest ls hb hv ha =>
      cases ha
      case root ha => exact ⟨j, ⟨blank, text, rest, hb, hv, ha, rfl⟩, by simp⟩
  case mpr =>
    intro ⟨j, ⟨blank, text, rest, hb, hv, ha, ht⟩, hl⟩
    subst ht hl
    have due := Due.value hb hv (.root ha)
    rwa [List.append_nil] at due

end RecordDecoding.Json
