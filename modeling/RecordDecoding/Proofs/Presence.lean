import Mathlib.Data.List.GetD
import Mathlib.Data.Nat.Bitwise
import RecordDecoding.Presence

namespace RecordDecoding.Presence

-- A mask for `n` fields. Bits that belong to no field are not set.
inductive Tracks (n : Nat) : Presence → Prop
  | word {marked} (small : n ≤ wordBits) (clear : ∀ i, n ≤ i → marked.getLsbD i = false) :
    Tracks n (word marked (BitVec.ofNat 32 (Nat.pow 2 n - 1)))
  | wide {words} (count : words.length = wordCount n)
    (clear : ∀ i, n ≤ i → (words[i / wideBits]?.getD 0).getLsbD (i % wideBits) = false) :
    Tracks n (wide words n)

variable {n i j : Nat} {p : Presence}

theorem getLsbD_full (w n i : Nat) :
    (BitVec.ofNat w (Nat.pow 2 n - 1)).getLsbD i = (decide (i < w) && decide (i < n)) := by
  rw [BitVec.getLsbD_ofNat, show Nat.pow 2 n = 2 ^ n from rfl, Nat.testBit_two_pow_sub_one]

theorem getLsbD_fullWord (n k b : Nat) :
    (fullWord n k).getLsbD b = (decide (b < wideBits) && decide (k * wideBits + b < n)) := by
  have h : (b < min (n - k * 64) 64) = (b < 64 ∧ k * 64 + b < n) := by
    rw [eq_iff_iff]
    omega
  rw [fullWord, getLsbD_full]
  show (decide (b < 64) && decide (b < min (n - k * 64) 64)) = (decide (b < 64) && _)
  simp only [h, Bool.decide_and]
  cases decide (b < 64) <;> rfl

-- A word is full if it has the bits of all its fields.
theorem eq_full_iff {marked : BitVec 32} (small : n ≤ 32)
    (clear : ∀ i, n ≤ i → marked.getLsbD i = false) :
    marked = BitVec.ofNat 32 (Nat.pow 2 n - 1) ↔ ∀ i < n, marked.getLsbD i := by
  constructor
  case mp =>
    rintro rfl i hi
    rw [getLsbD_full]
    simp [hi, Nat.lt_of_lt_of_le hi small]
  case mpr =>
    intro hm
    refine BitVec.eq_of_getLsbD_eq fun i hi => ?_
    rw [getLsbD_full]
    by_cases hn : i < n
    case pos => rw [hm i hn, decide_eq_true hi, decide_eq_true hn, Bool.and_self]
    case neg => rw [clear i (Nat.not_lt.mp hn), decide_eq_false hn, Bool.and_false]

theorem eq_fullWord_iff {w : BitVec 64} {k : Nat}
    (clear : ∀ b < wideBits, n ≤ k * wideBits + b → w.getLsbD b = false) :
    w = fullWord n k ↔ ∀ b < wideBits, k * wideBits + b < n → w.getLsbD b := by
  constructor
  case mp =>
    rintro rfl b hb hn
    rw [getLsbD_fullWord, decide_eq_true hb, decide_eq_true hn, Bool.and_self]
  case mpr =>
    intro hm
    refine BitVec.eq_of_getLsbD_eq fun b (hb : b < wideBits) => ?_
    rw [getLsbD_fullWord]
    by_cases hn : k * wideBits + b < n
    case pos => rw [hm b hb hn, decide_eq_true hb, decide_eq_true hn, Bool.and_self]
    case neg => rw [clear b hb (Nat.not_lt.mp hn), decide_eq_false hn, Bool.and_false]

-- A bit of a row of words by its word.
theorem getLsbD_at {words : List (BitVec 64)} {w : BitVec 64} {k b : Nat} (hk : words[k]? = some w)
    (hb : b < wideBits) :
    (words[(k * wideBits + b) / wideBits]?.getD 0).getLsbD ((k * wideBits + b) % wideBits) =
      w.getLsbD b := by
  have hd : (k * wideBits + b) / wideBits = k := by
    rw [Nat.mul_comm, Nat.mul_add_div (by decide), Nat.div_eq_of_lt hb, Nat.add_zero]
  have hr : (k * wideBits + b) % wideBits = b := by
    rw [Nat.mul_comm, Nat.mul_add_mod, Nat.mod_eq_of_lt hb]
  rw [hd, hr, hk, Option.getD_some]

-- No field is marked yet in a row of words, however few fields there are.
def blankWide (n : Nat) : Presence :=
  wide (List.replicate (wordCount n) 0) n

theorem getLsbD_replicate (k j b : Nat) :
    ((List.replicate k (0 : BitVec 64))[j]?.getD 0).getLsbD b = false := by
  rw [List.getElem?_replicate]
  split <;> simp

theorem tracks_blankWide (n : Nat) : Tracks n (blankWide n) :=
  .wide List.length_replicate fun _ _ => getLsbD_replicate ..

theorem isMarked_blankWide (n i : Nat) : (blankWide n).isMarked i = false := by
  rw [blankWide, isMarked, getLsbD_replicate, Bool.and_false]

theorem tracks_blank (n : Nat) : Tracks n (blank n) := by
  unfold blank
  split
  case isTrue h => exact .word h (by simp)
  case isFalse  => exact tracks_blankWide n

theorem isMarked_blank (n i : Nat) : (blank n).isMarked i = false := by
  unfold blank
  split
  case isTrue  => simp [isMarked]
  case isFalse => exact isMarked_blankWide n i

theorem wordCount_le (n : Nat) : n ≤ wordCount n * wideBits := by
  simp only [wordCount, wideBits]
  omega

theorem div_lt_wordCount (h : i < n) : i / wideBits < wordCount n :=
  Nat.div_lt_of_lt_mul (Nat.mul_comm .. ▸ Nat.lt_of_lt_of_le h (wordCount_le n))

-- The bits of a row of words after one was set.
theorem getLsbD_modify (words : List (BitVec 64)) (h : i < words.length * wideBits) :
    ((words.modify (i / wideBits) (· ||| BitVec.twoPow 64 (i % wideBits)))[j / wideBits]?.getD
        0).getLsbD (j % wideBits) =
      ((words[j / wideBits]?.getD 0).getLsbD (j % wideBits) || decide (i = j)) := by
  have hi : i / wideBits < words.length := Nat.div_lt_of_lt_mul (Nat.mul_comm .. ▸ h)
  have hm : j % wideBits < 64 := Nat.mod_lt _ (by decide)
  rw [List.getElem?_modify]
  by_cases hw : i / wideBits = j / wideBits
  case neg =>
    have hij : i ≠ j := fun h => hw (h ▸ rfl)
    simp [hw, hij]
  case pos =>
    have hij : j % wideBits = i % wideBits ↔ i = j := by
      refine ⟨fun h => ?_, fun h => h ▸ rfl⟩
      rw [← Nat.div_add_mod i wideBits, hw, ← h, Nat.div_add_mod]
    have hj : j / wideBits < words.length := hw ▸ hi
    simp [hw, List.getElem?_eq_getElem hj, hm, hij]

namespace Tracks

theorem mark (h : Tracks n p) (i : Nat) : Tracks n (p.mark i) := by
  cases h
  case word small clear =>
    rw [Presence.mark]
    split
    case isFalse => exact .word small clear
    case isTrue  =>
      refine .word small fun j hj => ?_
      simp only [BitVec.getLsbD_or, BitVec.getLsbD_and, getLsbD_full, clear j hj, Nat.not_lt.mpr hj]
      simp
  case wide words count clear =>
    rw [Presence.mark]
    split
    case isFalse => exact .wide count clear
    case isTrue hi =>
      refine .wide (by simpa using count) fun j hj => ?_
      rw [getLsbD_modify words (count ▸ Nat.lt_of_lt_of_le hi (wordCount_le n)), clear j hj]
      simp only [Bool.false_or, decide_eq_false_iff_not]
      omega

theorem isMarked_mark (h : Tracks n p) (i j : Nat) :
    (p.mark i).isMarked j = (p.isMarked j || decide (i = j ∧ i < n)) := by
  cases h
  case word marked small clear =>
    have small : n ≤ 32 := small
    by_cases hi : i < wordBits
    case neg =>
      have : ¬i < n := fun h => hi (Nat.lt_of_lt_of_le h small)
      simp [Presence.mark, hi, this]
    case pos =>
      have hi' : i < 32 := hi
      rw [Presence.mark, if_pos hi]
      simp only [isMarked, BitVec.getLsbD_and, BitVec.getLsbD_or, BitVec.getLsbD_twoPow,
        getLsbD_full, wordBits]
      by_cases hij : i = j
      case neg => simp [hij]
      case pos =>
        subst hij
        by_cases hn : i < n <;> simp [hn, hi']
  case wide words count clear =>
    simp only [Presence.mark]
    split
    case isFalse hi => simp [hi]
    case isTrue hi =>
      simp only [isMarked]
      rw [getLsbD_modify words (count ▸ Nat.lt_of_lt_of_le hi (wordCount_le n))]
      by_cases hij : i = j
      case neg => simp [hij]
      case pos => simp [← hij, hi]

theorem isComplete_iff (h : Tracks n p) : p.isComplete ↔ ∀ i < n, p.isMarked i := by
  cases h
  case word marked small clear =>
    have small : n ≤ 32 := small
    simp only [isComplete, decide_eq_true_eq, eq_full_iff small clear]
    refine forall₂_congr fun i hi => ?_
    have : i < 32 := Nat.lt_of_lt_of_le hi small
    rw [isMarked, BitVec.getLsbD_and, getLsbD_full]
    simp [wordBits, this, hi]
  case wide words count clear =>
    simp only [isComplete, List.all_eq_true, decide_eq_true_eq, isMarked]
    constructor
    case mp =>
      intro hc i hi
      have hw : i / wideBits < words.length := count ▸ div_lt_wordCount hi
      have hf := hc (words[i / wideBits], i / wideBits) (by simp [List.mem_zipIdx_iff_getElem?, hw])
      have hf : words[i / wideBits] = fullWord n (i / wideBits) := hf
      have hm : i % wideBits < wideBits := Nat.mod_lt _ (by decide)
      have hb := getLsbD_fullWord n (i / wideBits) (i % wideBits)
      rw [Nat.mul_comm, Nat.div_add_mod] at hb
      simp [List.getElem?_eq_getElem hw, hf, hb, hi, hm]
    case mpr =>
      rintro hm ⟨w, k⟩ hk
      have hk : words[k]? = some w := by simpa [List.mem_zipIdx_iff_getElem?] using hk
      refine (eq_fullWord_iff fun b hb hn => ?_).mpr fun b hb hn => ?_
      · rw [← getLsbD_at hk hb, clear _ hn]
      · have := hm _ hn
        rw [getLsbD_at hk hb, Bool.and_eq_true] at this
        exact this.2

theorem length_eq (h : Tracks n p) : p.length = n := by
  cases h
  case wide => rfl
  case word marked small clear =>
    have small : n ≤ 32 := small
    have split : List.range wordBits = List.range n ++ (List.range (wordBits - n)).map (n + ·) := by
      rw [← List.range_add, Nat.add_sub_of_le (show n ≤ wordBits from small)]
    have low : (List.range n).countP (BitVec.ofNat 32 (Nat.pow 2 n - 1)).getLsbD = n := by
      rw [List.countP_eq_length.mpr, List.length_range]
      intro i hi
      have hi := List.mem_range.mp hi
      have : i < 32 := Nat.lt_of_lt_of_le hi small
      simp only [getLsbD_full, this, hi, decide_true, Bool.and_self]
    have high : ((List.range (wordBits - n)).map (n + ·)).countP
        (BitVec.ofNat 32 (Nat.pow 2 n - 1)).getLsbD = 0 := by
      rw [List.countP_eq_zero]
      intro i hi
      have ⟨k, _, hk⟩ := List.mem_map.mp hi
      have : ¬i < n := by omega
      simp only [getLsbD_full, this, decide_false, Bool.and_false, Bool.false_eq_true,
        not_false_iff]
    rw [Presence.length, popCount, split, List.countP_append, low, high, Nat.add_zero]

theorem missing_eq (h : Tracks n p) : p.missing = (List.range n).filter (!p.isMarked ·) := by
  rw [missing, h.length_eq]

-- Marks one field after the other.
theorem foldl_mark (h : Tracks n p) (ns : List Nat) : Tracks n (ns.foldl Presence.mark p) := by
  induction ns generalizing p
  case nil          => exact h
  case cons m ns ih => exact ih (h.mark m)

theorem isMarked_foldl_mark (h : Tracks n p) (ns : List Nat) (j : Nat) :
    (ns.foldl Presence.mark p).isMarked j = (p.isMarked j || decide (j ∈ ns ∧ j < n)) := by
  induction ns generalizing p
  case nil => simp
  case cons m ns ih =>
    rw [List.foldl_cons, ih (h.mark m), h.isMarked_mark]
    by_cases hm : m = j
    case neg =>
      have hj : j ∈ m :: ns ↔ j ∈ ns := by simp [Ne.symm hm]
      simp [hm, hj]
    case pos =>
      subst hm
      cases p.isMarked m <;> by_cases m < n <;> simp [*]

end Tracks

theorem tracks_seed (n : Nat) (exempt : List Nat) : Tracks n (seed n exempt) :=
  (tracks_blank n).foldl_mark exempt

theorem isMarked_seed (n : Nat) (exempt : List Nat) (i : Nat) :
    (seed n exempt).isMarked i = decide (i ∈ exempt ∧ i < n) := by
  rw [seed, (tracks_blank n).isMarked_foldl_mark, isMarked_blank, Bool.false_or]

end RecordDecoding.Presence
