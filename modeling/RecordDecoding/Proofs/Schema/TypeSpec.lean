import Mathlib.Data.List.TakeWhile
import RecordDecoding.Proofs.Schema.Declaring
import RecordDecoding.Schema.TypeSpec

namespace RecordDecoding

section Ranges

variable {ranges ranges' : List (Nat × Nat)}

-- No range of one class meets one of the other.
def apart (ranges ranges' : List (Nat × Nat)) : Bool :=
  ranges.all fun r => ranges'.all fun r' => r.2 < r'.1 || r'.2 < r.1

theorem not_inRanges_of_apart (h : apart ranges ranges') {c : Char} (hc : inRanges ranges c) :
    ¬inRanges ranges' c := by
  intro hc'
  have ⟨r, hr, hc⟩ := List.any_eq_true.mp hc
  have ⟨r', hr', hc'⟩ := List.any_eq_true.mp hc'
  have := List.all_eq_true.mp (List.all_eq_true.mp h r hr) r' hr'
  simp only [Bool.or_eq_true, decide_eq_true_eq] at this hc hc'
  omega

end Ranges

theorem apart_alphabetic : apart WhiteSpace.ranges Alphabetic.ranges := by decide +kernel

theorem apart_numeric : apart WhiteSpace.ranges Numeric.ranges := by decide +kernel

-- The types whose spec is read as they are: a name stands for a declared type if it can be read and
-- is not that of a scalar.
def FieldType.Spellable (t : FieldType) : Prop :=
  ∀ name ∈ t.target?, TypeSpec.isName name.toList ∧ ScalarKind.ofLabel? name = none

def FieldType.spell : FieldType → String
  | scalar k   => k.label
  | named name => name
  | list inner => inner.spell ++ "[]"

namespace FieldType

-- A type below so many levels of lists.
def nest (base : FieldType) : Nat → FieldType
  | 0     => base
  | n + 1 => .list (base.nest n)

def IsLeaf : FieldType → Prop
  | scalar _ | named _ => True
  | list _             => False

variable {base base' : FieldType} {n n' : Nat}

theorem exists_nest (t : FieldType) : ∃ (base : FieldType) (n : Nat), base.IsLeaf ∧
    t = base.nest n := by
  induction t
  case scalar k   => exact ⟨.scalar k, 0, trivial, rfl⟩
  case named name => exact ⟨.named name, 0, trivial, rfl⟩
  case list ih    =>
    obtain ⟨base, n, leaf, rfl⟩ := ih
    exact ⟨base, n + 1, leaf, rfl⟩

theorem nest_inj (h : base.IsLeaf) (h' : base'.IsLeaf) (he : base.nest n = base'.nest n') :
    n = n' ∧ base = base' := by
  induction n generalizing n'
  case zero =>
    cases n'
    case zero => exact ⟨rfl, he⟩
    case succ =>
      subst he
      exact h.elim
  case succ n ih =>
    cases n'
    case zero =>
      subst he
      exact h'.elim
    case succ n' =>
      have ⟨hn, hb⟩ := ih (list.inj he)
      exact ⟨congrArg _ hn, hb⟩

end FieldType

theorem ScalarKind.ofLabel?_label (k : ScalarKind) : ofLabel? k.label = some k := by
  have := k.mem_all
  revert k
  decide

theorem ScalarKind.isName_label (k : ScalarKind) : TypeSpec.isName k.label.toList := by
  have := k.mem_all
  revert k
  decide +kernel

namespace TypeSpec

def Blank (cs : List Char) : Prop :=
  ∀ c ∈ cs, isWhiteSpace c

instance {cs : List Char} : Decidable (Blank cs) :=
  List.decidableBAll (isWhiteSpace ·) cs

-- What a name stands for. That of a scalar stands for the scalar.
inductive Names : List Char → FieldType → Prop
  | scalar (k : ScalarKind) : Names k.label.toList (.scalar k)
  | declared {c cs} : (∀ k : ScalarKind, k.label.toList ≠ c :: cs) → isAlphabetic c ∨ c = '_' →
    (∀ d ∈ cs, isAlphabetic d ∨ isNumeric d ∨ d = '_' ∨ d = '.') →
    Names (c :: cs) (.named (String.ofList (c :: cs)))

-- A pair of brackets for each level, with blanks before it.
inductive Brackets : Nat → List Char → Prop
  | none : Brackets 0 []
  | more {n cs blank} : Brackets n cs → Blank blank →
    Brackets (n + 1) (cs ++ (blank ++ ['[', ']']))

-- The specs of so many levels of lists over a type.
inductive Spells : List Char → Nat → FieldType → Prop
  | of {before name brackets after n base} : Blank before → Names name base →
    Brackets n brackets → Blank after → Spells (before ++ (name ++ (brackets ++ after))) n base

variable {c : Char} {cs : List Char} {t : FieldType}

theorem not_continuesName_of_isWhiteSpace (h : isWhiteSpace c) : continuesName c = false := by
  have alphabetic : ¬isAlphabetic c := not_inRanges_of_apart apart_alphabetic h
  have numeric : ¬isNumeric c := not_inRanges_of_apart apart_numeric h
  have underscore : c ≠ '_' := by
    rintro rfl
    exact absurd h (by decide)
  have dot : c ≠ '.' := by
    rintro rfl
    exact absurd h (by decide)
  simp [continuesName, alphabetic, numeric, underscore, dot]

theorem continuesName_of_mem (h : isName cs) (hc : c ∈ cs) : continuesName c := by
  cases cs
  case nil => cases hc
  case cons first cs =>
    simp only [isName, Bool.and_eq_true, List.all_eq_true] at h
    cases hc
    case head    =>
      have := h.1
      simp only [startsName, Bool.or_eq_true] at this
      simp only [continuesName, Bool.or_eq_true]
      tauto
    case tail hc => exact h.2 c hc

theorem dropWhile_eq_self (h : ∀ c ∈ cs, isWhiteSpace c = false) :
    cs.dropWhile isWhiteSpace = cs := by
  cases cs
  case nil         => rfl
  case cons first _ => rw [List.dropWhile_cons_of_neg (by simp [h first])]

theorem Blank.reverse {blank : List Char} (h : Blank blank) : Blank blank.reverse :=
  fun c hc => h c (List.mem_reverse.mp hc)

theorem dropWhile_blank {blank : List Char} (h : Blank blank) :
    (blank ++ cs).dropWhile isWhiteSpace = cs.dropWhile isWhiteSpace :=
  List.dropWhile_append_of_pos h

-- The characters of a name are not trimmed and are no bracket. Blanks in front of it are trimmed.
theorem ofReversed?_name_blanks {blank : List Char} (h : isName cs) (hb : Blank blank) :
    ofReversed? (cs.reverse ++ blank) = base? cs := by
  have kept : ∀ c ∈ cs, isWhiteSpace c = false := by
    intro c hc
    refine Bool.eq_false_iff.mpr fun hw => ?_
    have := continuesName_of_mem h hc
    simp [not_continuesName_of_isWhiteSpace hw] at this
  have ne : cs.reverse ≠ [] := by
    intro he
    rw [List.reverse_eq_nil_iff.mp he] at h
    cases h
  have ⟨last, before, hl⟩ := List.exists_cons_of_ne_nil ne
  have hm : last ∈ cs := by
    rw [← List.mem_reverse, hl]
    exact List.mem_cons_self ..
  have reversed : (cs.reverse ++ blank).dropWhile isWhiteSpace = cs.reverse ++ blank := by
    rw [hl, List.cons_append, List.dropWhile_cons_of_neg (by simp [kept last hm])]
  rw [ofReversed?]
  split
  case h_1 he =>
    rw [reversed, hl, List.cons_append] at he
    rw [(List.cons.inj he).1] at hm
    exact absurd (continuesName_of_mem h hm) (by decide +kernel)
  case h_2 =>
    rw [reversed, List.reverse_append, List.reverse_reverse, dropWhile_blank hb.reverse,
      dropWhile_eq_self kept]

theorem ofReversed?_name (h : isName cs) : ofReversed? cs.reverse = base? cs := by
  rw [← List.append_nil cs.reverse, ofReversed?_name_blanks h (List.forall_mem_nil _)]

theorem ofReversed?_list (cs : List Char) :
    ofReversed? (']' :: '[' :: cs) = (ofReversed? cs).map .list := by
  rw [ofReversed?]
  rfl

theorem ofReversed?_blank (h : isWhiteSpace c) : ofReversed? (c :: cs) = ofReversed? cs := by
  have same : (c :: cs).dropWhile isWhiteSpace = cs.dropWhile isWhiteSpace :=
    List.dropWhile_cons_of_pos h
  conv => lhs; rw [ofReversed?]
  conv => rhs; rw [ofReversed?]
  rw [same]

theorem ofReversed?_blanks {blank : List Char} (h : Blank blank) :
    ofReversed? (blank ++ cs) = ofReversed? cs := by
  induction blank
  case nil => rfl
  case cons c blank ih =>
    have ⟨hc, h⟩ := List.forall_mem_cons.mp h
    rw [List.cons_append, ofReversed?_blank hc, ih h]

theorem parse?_spell (h : t.Spellable) : parse? t.spell = some t := by
  induction t
  case scalar k =>
    rw [parse?, FieldType.spell, ofReversed?_name k.isName_label, base?, String.ofList_toList,
      k.ofLabel?_label]
  case named name =>
    have ⟨hn, hl⟩ := h name rfl
    rw [parse?, FieldType.spell, ofReversed?_name hn, base?, String.ofList_toList, hl, if_pos hn]
  case list inner ih =>
    have ends :
        (inner.spell ++ "[]").toList.reverse = ']' :: '[' :: inner.spell.toList.reverse := by
      simp
    rw [parse?, FieldType.spell, ends, ofReversed?_list]
    exact congrArg _ (ih h)

theorem spellable_of_base? (h : base? cs = some t) : t.Spellable := by
  simp only [base?] at h
  split at h
  case h_1 =>
    cases h
    nofun
  case h_2 hl =>
    split at h <;> cases h
    case isTrue hn =>
      rintro _ ⟨⟩
      exact ⟨by simpa using hn, hl⟩

theorem spellable_of_ofReversed? (h : ofReversed? cs = some t) : t.Spellable := by
  fun_induction ofReversed? cs generalizing t
  case case1 ih =>
    have ⟨inner, hi, he⟩ := Option.map_eq_some_iff.mp h
    subst he
    have spellable := ih hi
    exact spellable
  case case2 => exact spellable_of_base? h

theorem spellable_of_parse? {spec : String} (h : parse? spec = some t) : t.Spellable :=
  spellable_of_ofReversed? h

section Grammar

variable {name : List Char} {n : Nat} {base : FieldType}

theorem isName_cons : isName (c :: cs) ↔ (isAlphabetic c ∨ c = '_') ∧
    ∀ d ∈ cs, isAlphabetic d ∨ isNumeric d ∨ d = '_' ∨ d = '.' := by
  simp [isName, startsName, continuesName, or_assoc]

theorem label_eq_of_ofLabel? {s : String} {k : ScalarKind} (h : ScalarKind.ofLabel? s = some k) :
    k.label = s := by
  simpa using List.find?_some h

theorem Names.isName (h : Names name base) : TypeSpec.isName name := by
  cases h
  case scalar k            => exact k.isName_label
  case declared first rest => exact isName_cons.mpr ⟨first, rest⟩

theorem Names.isLeaf (h : Names name base) : base.IsLeaf := by
  cases h <;> trivial

theorem base?_eq_some_iff : base? name = some base ↔ Names name base := by
  constructor
  case mp =>
    intro h
    simp only [base?] at h
    split at h
    case h_1 k hk =>
      cases h
      have label := congrArg String.toList (label_eq_of_ofLabel? hk)
      rw [String.toList_ofList] at label
      exact label ▸ .scalar k
    case h_2 none =>
      split at h <;> cases h
      case isTrue hn =>
        cases name
        case nil => cases hn
        case cons c cs =>
          have ⟨first, rest⟩ := isName_cons.mp hn
          refine .declared (fun k hk => ?_) first rest
          rw [← hk, String.ofList_toList, k.ofLabel?_label] at none
          cases none
  case mpr =>
    intro h
    cases h
    case scalar k => rw [base?, String.ofList_toList, k.ofLabel?_label]
    case declared c cs hk first rest =>
      have none : ScalarKind.ofLabel? (String.ofList (c :: cs)) = none := by
        refine Option.eq_none_iff_forall_ne_some.mpr fun k hl => hk k ?_
        rw [label_eq_of_ofLabel? hl, String.toList_ofList]
      rw [base?, none, if_pos (isName_cons.mpr ⟨first, rest⟩)]

-- The brackets are read from the last pair of them.
theorem ofReversed?_of_brackets {brackets before after : List Char} (hn : Names name base)
    (hb : Brackets n brackets) (before_blank : Blank before) (after_blank : Blank after) :
    ofReversed? (before ++ (name ++ (brackets ++ after))).reverse = some (base.nest n) := by
  induction hb generalizing after
  case none =>
    have reversed : (before ++ (name ++ ([] ++ after))).reverse =
        after.reverse ++ (name.reverse ++ before.reverse) := by simp
    rw [reversed, ofReversed?_blanks after_blank.reverse,
      ofReversed?_name_blanks hn.isName before_blank.reverse]
    exact base?_eq_some_iff.mpr hn
  case more n cs blank _ hb ih =>
    have reversed : (before ++ (name ++ (cs ++ (blank ++ ['[', ']']) ++ after))).reverse =
        after.reverse ++ ']' :: '[' :: (before ++ (name ++ (cs ++ blank))).reverse := by simp
    rw [reversed, ofReversed?_blanks after_blank.reverse, ofReversed?_list, ih hb]
    rfl

theorem exists_blank (cs : List Char) : ∃ blank, Blank blank ∧
    cs = blank ++ cs.dropWhile isWhiteSpace :=
  ⟨cs.takeWhile isWhiteSpace, fun _ => List.mem_takeWhile_imp, List.takeWhile_append_dropWhile.symm⟩

-- A spec with blanks behind it, by what is read of it from its end.
theorem spells_of_ofReversed? (h : ofReversed? cs = some t) :
    ∃ n base, Spells cs.reverse n base ∧ t = base.nest n := by
  fun_induction ofReversed? cs generalizing t
  case case1 cs rest he ih =>
    obtain ⟨inner, hi, rfl⟩ := Option.map_eq_some_iff.mp h
    obtain ⟨n, base, spells, rfl⟩ := ih hi
    obtain ⟨after, after_blank, hc⟩ := exists_blank cs
    refine ⟨n + 1, base, ?_, rfl⟩
    generalize hr : rest.reverse = inner at spells
    cases spells
    case of before name brackets blank hb hb' levels hn =>
      have spec : cs.reverse =
          before ++ (name ++ (brackets ++ (blank ++ ['[', ']']) ++ after.reverse)) := by
        rw [hc, he, List.reverse_append, List.reverse_cons, List.reverse_cons, hr]
        simp
      exact spec ▸ .of hb hn (.more levels hb') after_blank.reverse
  case case2 cs _ =>
    obtain ⟨after, after_blank, hc⟩ := exists_blank cs
    obtain ⟨before, before_blank, hn⟩ := exists_blank (cs.dropWhile isWhiteSpace).reverse
    refine ⟨0, t, ?_, rfl⟩
    have spells := Spells.of before_blank (base?_eq_some_iff.mp h) .none after_blank.reverse
    rw [List.nil_append, ← List.append_assoc, ← hn, ← List.reverse_append, ← hc] at spells
    exact spells

theorem parse?_of_spells {spec : String} (h : Spells spec.toList n base) :
    parse? spec = some (base.nest n) := by
  rw [parse?]
  generalize spec.toList = cs at h
  cases h
  case of hb hb' levels hn => exact ofReversed?_of_brackets hn levels hb hb'

theorem Spells.isLeaf (h : Spells cs n base) : base.IsLeaf := by
  cases h
  case of hn => exact hn.isLeaf

theorem spells_iff {spec : String} :
    Spells spec.toList n base ↔ base.IsLeaf ∧ parse? spec = some (base.nest n) := by
  constructor
  case mp  => exact fun h => ⟨h.isLeaf, parse?_of_spells h⟩
  case mpr =>
    intro ⟨leaf, h⟩
    have ⟨n', base', spells, he⟩ := spells_of_ofReversed? h
    rw [List.reverse_reverse] at spells
    have ⟨hn, hb⟩ := FieldType.nest_inj leaf spells.isLeaf he
    exact hn ▸ hb ▸ spells

-- A spec has the reading that it spells, and none if it spells no type. What was read is spelled
-- as a spec of it.
theorem parse?_reads (spec : String) :
    (∀ n base, parse? spec = some (base.nest n) ∧ base.IsLeaf ↔ Spells spec.toList n base) ∧
      (parse? spec = none ↔ ∀ n base, ¬Spells spec.toList n base) ∧
      ∀ t, parse? spec = some t → parse? t.spell = some t := by
  refine ⟨fun n base => and_comm.trans spells_iff.symm, ⟨fun none n base h => ?_, fun none => ?_⟩,
    fun t h => parse?_spell (spellable_of_parse? h)⟩
  · rw [parse?_of_spells h] at none
    cases none
  · refine Option.eq_none_iff_forall_ne_some.mpr fun t h => ?_
    obtain ⟨base, n, leaf, rfl⟩ := t.exists_nest
    exact none n base (spells_iff.mpr ⟨leaf, h⟩)

theorem parse?_reads_blanks :
    parse? " Node []\t[]" = some ((FieldType.named "Node").nest 2) ∧
      parse? "Node[][]" = some ((FieldType.named "Node").nest 2) := by
  have node : Names "Node".toList (.named "Node") := by
    refine .declared (fun k => ?_) (by decide +kernel) fun d hd => ?_
    · have := k.mem_all
      revert k
      decide
    · replace hd : d ∈ ['o', 'd', 'e'] := hd
      simp only [List.mem_cons, List.not_mem_nil, or_false] at hd
      rcases hd with rfl | rfl | rfl <;> decide +kernel
  have space : Blank [' '] := by decide
  have tab : Blank ['\t'] := by decide
  have spells : Spells " Node []\t[]".toList 2 (.named "Node") := by
    have spells := Spells.of space node (.more (.more .none space) tab) (List.forall_mem_nil _)
    rwa [List.append_nil] at spells
  have ⟨reads, _, again⟩ := parse?_reads " Node []\t[]"
  have ⟨read, _⟩ := (reads 2 (.named "Node")).mpr spells
  exact ⟨read, again _ read⟩

end Grammar

end TypeSpec
end RecordDecoding
