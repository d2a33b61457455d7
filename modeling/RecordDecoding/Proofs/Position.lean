import Mathlib.Data.List.TakeWhile
import RecordDecoding.Token.Position

namespace RecordDecoding
namespace Position

-- Where the line starts that a byte is in.
structure LineStart (source : List UInt8) (offset start : Nat) : Prop where
  le       : start ≤ offset
  begins   : ∀ i, start = i + 1 → source[i]? = some newline
  unbroken : ∀ i, start ≤ i → i < offset → source[i]? ≠ some newline

-- The position of a byte of a source: how many line breaks are before it, and how far it is from
-- the start of its line.
structure Tells (source : List UInt8) (p : Position) : Prop where
  inside : p.offset < source.length
  line   : p.line = min ((source.take p.offset).count newline + 1) cap
  column : ∃ start, LineStart source p.offset start ∧ p.column = min (p.offset - start + 1) cap

variable {source line before : List UInt8} {start offset : Nat}

-- A line starts once in front of a byte.
theorem LineStart.unique {other : Nat} (h : LineStart source offset start)
    (h' : LineStart source offset other) : start = other := by
  have not_lt {s t : Nat} (hs : LineStart source offset s) (ht : LineStart source offset t) :
      ¬s < t := by
    intro lt
    obtain ⟨i, rfl⟩ := Nat.exists_eq_add_one_of_ne_zero (Nat.ne_of_gt (Nat.zero_lt_of_lt lt))
    exact hs.unbroken i (Nat.le_of_lt_succ lt) ht.le (ht.begins i rfl)
  exact Nat.le_antisymm (Nat.not_lt.mp (not_lt h' h)) (Nat.not_lt.mp (not_lt h h'))

-- The bytes before some offset are lines that are complete, and what the current one has so far.
theorem lineStart_of_take (ht : source.take offset = before ++ line)
    (begins : ∀ b ∈ before.getLast?, b = newline) (unbroken : newline ∉ line) :
    LineStart source offset before.length := by
  have get {i : Nat} (hi : i < offset) : source[i]? = (before ++ line)[i]? := by
    rw [← ht, List.getElem?_take_of_lt hi]
  have le : before.length ≤ offset := by
    have := congrArg List.length ht
    rw [List.length_take, List.length_append] at this
    omega
  constructor
  case le => exact le
  case begins =>
    intro i hi
    have last : before.getLast? = before[i]? := by
      rw [List.getLast?_eq_getElem?, hi, Nat.add_sub_cancel]
    have hb : i < before.length := hi ▸ Nat.lt_succ_self i
    rw [get (Nat.lt_of_lt_of_le hb le), List.getElem?_append_left hb, List.getElem?_eq_getElem hb]
    rw [List.getElem?_eq_getElem hb] at last
    exact congrArg some (begins _ last)
  case unbroken =>
    intro i hi lt h
    rw [get lt, List.getElem?_append_right hi] at h
    exact unbroken (List.mem_of_getElem? h)

-- What is before an offset, with what the position of the offset is made of.
theorem exists_lines (source : List UInt8) (offset : Nat) : ∃ before line,
    source.take offset = before ++ line ∧ (∀ b ∈ before.getLast?, b = newline) ∧ newline ∉ line ∧
      (of source offset).column = min (line.length + 1) cap := by
  let reversed := (source.take offset).reverse
  let line := reversed.takeWhile (· != newline)
  let before := reversed.dropWhile (· != newline)
  refine ⟨before.reverse, line.reverse, ?_, fun b hb => ?_, fun hm => ?_, ?_⟩
  · rw [← List.reverse_append, List.takeWhile_append_dropWhile, List.reverse_reverse]
  · rw [List.getLast?_reverse] at hb
    have := List.head?_dropWhile_not (· != newline) reversed
    rw [show (reversed.dropWhile _).head? = some b from hb] at this
    simpa using this
  · simpa using List.mem_takeWhile_imp (List.mem_reverse.mp hm)
  · rw [List.length_reverse]
    rfl

theorem tells_of (h : offset < source.length) : Tells source (of source offset) := by
  have ⟨before, line, take, begins, unbroken, column⟩ := exists_lines source offset
  refine ⟨h, rfl, _, lineStart_of_take take begins unbroken, ?_⟩
  have lengths := congrArg List.length take
  rw [List.length_take, List.length_append] at lengths
  have distance : line.length = offset - before.length := by omega
  rw [column, distance]
  rfl

-- How far it is to what comes behind so many line breaks.
def toLine : Nat → List UInt8 → Nat
  | 0, _                  => 0
  | _ + 1, []             => 0
  | breaks + 1, b :: rest =>
    (if b = newline then toLine breaks rest else toLine (breaks + 1) rest) + 1

-- The position `p` is in front of `q`, by the offset and by the line and the column.
structure Before (p q : Position) : Prop where
  offset : p.offset < q.offset
  place  : p.line < q.line ∨ p.line = q.line ∧ p.column < q.column

theorem toLine_append (rest : List UInt8) (h : ∀ b ∈ before.getLast?, b = newline) :
    toLine (before.count newline) (before ++ rest) = before.length := by
  induction before
  case nil => rw [List.count_nil, toLine, List.length_nil]
  case cons b before ih =>
    have ends : ∀ b ∈ before.getLast?, b = newline := by
      intro b' hb'
      exact h b' (by rw [List.getLast?_cons, hb']; rfl)
    by_cases hb : b = newline
    case pos =>
      rw [hb, List.count_cons_self, List.cons_append, toLine, if_pos rfl, ih ends,
        List.length_cons]
    case neg =>
      -- A line break comes later, for the bytes end with one.
      have later : before.count newline ≠ 0 := by
        cases hl : before.getLast?
        case none =>
          rw [List.getLast?_eq_none_iff.mp hl] at h
          exact absurd (h b rfl) hb
        case some last =>
          exact Nat.ne_of_gt <| List.count_pos_iff.mpr (ends last hl ▸ List.mem_of_getLast? hl)
      have ⟨n, hn⟩ := Nat.exists_eq_add_one_of_ne_zero later
      rw [List.count_cons_of_ne hb, hn, List.cons_append, toLine, if_neg hb, ← hn, ih ends,
        List.length_cons]

section Small

variable (small : source.length < cap)
include small

theorem line_of (h : offset < source.length) :
    (of source offset).line = (source.take offset).count newline + 1 := by
  have le : (source.take offset).count newline ≤ offset :=
    List.count_le_length.trans (List.length_take_le ..)
  exact Nat.min_eq_left (by omega)

-- The line and the column of a byte lead back to it.
theorem toLine_of (h : offset < source.length) :
    toLine ((of source offset).line - 1) source + ((of source offset).column - 1) = offset := by
  have ⟨before, line, take, begins, unbroken, column⟩ := exists_lines source offset
  have lengths := congrArg List.length take
  rw [List.length_take, List.length_append] at lengths
  have count : (source.take offset).count newline = before.count newline := by
    rw [take, List.count_append, List.count_eq_zero_of_not_mem unbroken, Nat.add_zero]
  have start : toLine (before.count newline) source = before.length := by
    rw [← List.take_append_drop offset source, take, List.append_assoc]
    exact toLine_append _ begins
  rw [line_of small h, column, count, Nat.add_sub_cancel, start]
  omega

-- Positions are in the order of their offsets.
theorem before_of {offset' : Nat} (lt : offset < offset') (h : offset' < source.length) :
    Before (of source offset) (of source offset') where
  offset := lt
  place := by
    have line := line_of small (Nat.lt_trans lt h)
    have line' := line_of small h
    have le : (source.take offset).count newline ≤ (source.take offset').count newline :=
      (List.take_prefix_take_left (Nat.le_of_lt lt)).sublist.count_le newline
    have back := toLine_of small (Nat.lt_trans lt h)
    have back' := toLine_of small h
    rcases Nat.lt_or_eq_of_le le with hlt | heq
    case inl => exact .inl (by omega)
    case inr =>
      have same : (of source offset).line = (of source offset').line := by omega
      rw [same] at back
      exact .inr ⟨same, by omega⟩

end Small

end Position
end RecordDecoding
