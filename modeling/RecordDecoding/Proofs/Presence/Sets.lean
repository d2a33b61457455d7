import Mathlib.Data.List.Sort
import RecordDecoding.Proofs.Presence.Checked

namespace RecordDecoding.Presence

-- Looks for a missing field from a number on, one field after the other. The answer comes with the
-- number from which on the next one is looked for.
def enumerate (p : Presence) (n : Nat) : Option Nat × Nat :=
  if n < p.length then
    if p.isMarked n then p.enumerate (n + 1) else (some n, n + 1)
  else (none, n)
termination_by p.length - n

-- The first answers of an enumeration that goes on from a number.
def answers (p : Presence) : Nat → Nat → List (Option Nat)
  | 0,     _ => []
  | k + 1, n => (p.enumerate n).1 :: p.answers k (p.enumerate n).2

-- The missing fields from a number on.
def missingFrom (p : Presence) (n : Nat) : List Nat :=
  (List.range' n (p.length - n)).filter (!p.isMarked ·)

variable {n m i : Nat} {p q : Presence} {S : Set Nat}

theorem missingFrom_zero (p : Presence) : p.missingFrom 0 = p.missing := by
  rw [missingFrom, missing, List.range_eq_range', Nat.sub_zero]

theorem missingFrom_of_le (h : p.length ≤ n) : p.missingFrom n = [] := by
  rw [missingFrom, Nat.sub_eq_zero_of_le h, List.range'_zero, List.filter_nil]

theorem missingFrom_of_lt (h : n < p.length) : p.missingFrom n =
    if p.isMarked n then p.missingFrom (n + 1) else n :: p.missingFrom (n + 1) := by
  have count : p.length - n = p.length - (n + 1) + 1 := by omega
  rw [missingFrom, count, List.range'_succ, List.filter_cons]
  cases p.isMarked n <;> rfl

theorem enumerate_eq (p : Presence) (n : Nat) :
    (p.enumerate n).1 = (p.missingFrom n).head? ∧
      p.missingFrom (p.enumerate n).2 = (p.missingFrom n).tail := by
  fun_induction enumerate p n
  case case1 lt marked ih   => rwa [missingFrom_of_lt lt, if_pos marked]
  case case2 lt unmarked    => rw [missingFrom_of_lt lt, if_neg unmarked]; exact ⟨rfl, rfl⟩
  case case3 ge             => rw [missingFrom_of_le (Nat.not_lt.mp ge)]; exact ⟨rfl, rfl⟩

theorem nextMissing?_eq (p : Presence) (n : Nat) : p.nextMissing? n = (p.enumerate n).1 := by
  rw [(p.enumerate_eq n).1, missingFrom, List.head?_filter, nextMissing?]

theorem answers_eq (p : Presence) (k n : Nat) :
    p.answers k n = ((p.missingFrom n).map some ++ List.replicate k none).take k := by
  induction k generalizing n
  case zero      => simp [answers]
  case succ k ih =>
    have ⟨first, rest⟩ := p.enumerate_eq n
    rw [answers, ih, first, rest]
    cases p.missingFrom n
    case nil => simp [List.replicate_succ]
    case cons m ms =>
      have enough : ms.map some ++ List.replicate (k + 1) none =
          (ms.map some ++ List.replicate k none) ++ [none] := by
        rw [List.replicate_succ', List.append_assoc]
      have long : k ≤ (ms.map some ++ List.replicate k none).length := by simp
      rw [List.map_cons, List.cons_append, List.take_succ_cons, enough,
        List.take_append_of_le_length long]
      rfl

theorem isWord_mark (p : Presence) (n : Nat) : (p.mark n).isWord = p.isWord := by
  cases p <;> rw [mark] <;> split <;> rfl

theorem isWord_foldl_mark (p : Presence) (ns : List Nat) : (ns.foldl mark p).isWord = p.isWord := by
  induction ns generalizing p
  case nil          => rfl
  case cons n ns ih => rw [List.foldl_cons, ih, isWord_mark]

theorem isWord_seed (n : Nat) (exempt : List Nat) :
    (seed n exempt).isWord = decide (n ≤ wordBits) := by
  rw [seed, isWord_foldl_mark, blank]
  split
  case isTrue h  => exact (decide_eq_true h).symm
  case isFalse h => exact (decide_eq_false h).symm

-- What a mask for `n` fields tells if it stands for a set of them.
structure TellsSet (n : Nat) (S : Set Nat) (p : Presence) : Prop where
  isMarked    : ∀ i, p.isMarked i ↔ i ∈ S
  ascending   : p.missing.Pairwise (· < ·)
  mem_missing : ∀ i, i ∈ p.missing ↔ i < n ∧ i ∉ S
  next        : ∀ i, p.nextMissing? i = (p.enumerate i).1
  -- An enumeration gives the missing fields, and then nothing any more.
  answers     : ∀ k, p.answers k 0 = (p.missing.map some ++ List.replicate k none).take k
  isComplete  : p.isComplete ↔ p.missing = []
  length      : p.length = n

-- Two masks that cannot be told apart.
structure Alike (p q : Presence) : Prop where
  isMarked   : ∀ i, p.isMarked i = q.isMarked i
  missing    : p.missing = q.missing
  answers    : ∀ k, p.answers k 0 = q.answers k 0
  isComplete : p.isComplete = q.isComplete
  length     : p.length = q.length

-- Nothing that a mask does is out of range.
structure InRange (p : Presence) : Prop where
  mark       : ∀ i, p.mark? i = some (p.mark i)
  isMarked   : ∀ i, p.isMarked? i = some (p.isMarked i)
  isComplete : p.isComplete? = some p.isComplete

theorem TellsSet.alike (hp : TellsSet n S p) (hq : TellsSet n S q) : Alike p q := by
  have missing : p.missing = q.missing := by
    refine hp.ascending.eq_of_mem_iff hq.ascending fun i => ?_
    rw [hp.mem_missing, hq.mem_missing]
  refine ⟨fun i => ?_, missing, fun k => ?_, ?_, hp.length.trans hq.length.symm⟩
  · rw [Bool.eq_iff_iff, hp.isMarked, hq.isMarked]
  · rw [hp.answers, hq.answers, missing]
  · rw [Bool.eq_iff_iff, hp.isComplete, hq.isComplete, missing]

namespace Tracks

theorem inRange (h : Tracks n p) : InRange p where
  mark       := h.mark?_eq
  isMarked   := h.isMarked?_eq
  isComplete := h.isComplete?_eq

theorem mem_missing (h : Tracks n p) : i ∈ p.missing ↔ i < n ∧ ¬p.isMarked i := by
  simp [h.missing_eq]

theorem tellsSet (h : Tracks n p) : TellsSet n {i | p.isMarked i} p where
  isMarked _    := Iff.rfl
  ascending     := List.pairwise_lt_range.filter _
  mem_missing _ := h.mem_missing
  next          := p.nextMissing?_eq
  answers k     := by rw [answers_eq, missingFrom_zero]
  length        := h.length_eq
  isComplete    := by
    rw [h.isComplete_iff, List.eq_nil_iff_forall_not_mem]
    refine forall_congr' fun i => ?_
    rw [h.mem_missing, not_and_not_right]

-- Where no field was marked before, those among the numbers are.
theorem setOf_isMarked (h : Tracks n p) (blank : ∀ i, p.isMarked i = false) (ns : List Nat) :
    {i | (ns.foldl Presence.mark p).isMarked i} = {i | i < n ∧ i ∈ ns} := by
  ext i
  simp [h.isMarked_foldl_mark, blank i, and_comm]

end Tracks

-- The mask with these fields exempt and these numbers marked.
def marked (n : Nat) (exempt marks : List Nat) : Presence :=
  marks.foldl mark (seed n exempt)

-- The same with every look and every shift checked.
def marked? (n : Nat) (exempt marks : List Nat) : Option Presence := do
  marks.foldlM mark? (← seed? n exempt)

-- The same in a row of words.
def markedWide (n : Nat) (exempt marks : List Nat) : Presence :=
  (exempt ++ marks).foldl mark (blankWide n)

theorem marked_eq (n : Nat) (exempt marks : List Nat) :
    marked n exempt marks = (exempt ++ marks).foldl mark (blank n) := by
  rw [List.foldl_append]
  rfl

theorem marked?_eq (n : Nat) (exempt marks : List Nat) :
    marked? n exempt marks = some (marked n exempt marks) := by
  rw [marked?, seed?_eq]
  exact (tracks_seed n exempt).foldlM_mark? marks

-- A mask is the set of the fields that were exempt or marked, in a word or in a row of words, and
-- nothing that is done with it is out of range.
theorem marked_tellsSet (n : Nat) (exempt marks : List Nat) :
    TellsSet n {i | i < n ∧ (i ∈ exempt ∨ i ∈ marks)} (marked n exempt marks) ∧
      (marked n exempt marks).isWord = decide (n ≤ wordBits) ∧
      (markedWide n exempt marks).isWord = false ∧
      Alike (marked n exempt marks) (markedWide n exempt marks) ∧
      marked? n exempt marks = some (marked n exempt marks) ∧ InRange (marked n exempt marks) := by
  have narrow : Tracks n (marked n exempt marks) := (tracks_seed n exempt).foldl_mark marks
  have row : Tracks n (markedWide n exempt marks) := (tracks_blankWide n).foldl_mark _
  have tells : TellsSet n {i | i < n ∧ (i ∈ exempt ∨ i ∈ marks)} (marked n exempt marks) := by
    simp only [← List.mem_append]
    rw [← (tracks_blank n).setOf_isMarked (isMarked_blank n), ← marked_eq]
    exact narrow.tellsSet
  have tellsWide : TellsSet n {i | i < n ∧ (i ∈ exempt ∨ i ∈ marks)}
      (markedWide n exempt marks) := by
    simp only [← List.mem_append]
    rw [← (tracks_blankWide n).setOf_isMarked (isMarked_blankWide n)]
    exact row.tellsSet
  refine ⟨tells, ?_, isWord_foldl_mark .., tells.alike tellsWide, marked?_eq .., narrow.inRange⟩
  rw [marked, isWord_foldl_mark, isWord_seed]

end RecordDecoding.Presence
