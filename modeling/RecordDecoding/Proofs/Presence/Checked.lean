import RecordDecoding.Proofs.Presence

namespace RecordDecoding.Presence

-- One bit, shifted within a word.
def bit? (w n : Nat) : Option (BitVec w) :=
  if n < w then some (1#w <<< n) else none

-- The lowest bits of a word. For all of its bits there is nothing to shift.
def ones? (w n : Nat) : Option (BitVec w) :=
  if n = w then some (BitVec.allOnes w) else (bit? w n).map (· - 1)

-- Sets the bit of a field.
def set? (p : Presence) (n : Nat) : Option Presence :=
  match p with
  | word marked full => do
    let bit ← bit? 32 n
    return word (marked ||| bit) full
  | wide words length => do
    let w ← words[n / wideBits]?
    let bit ← bit? 64 (n % wideBits)
    return wide (words.set (n / wideBits) (w ||| bit)) length

def blank? (length : Nat) : Option Presence :=
  if length ≤ wordBits then (ones? 32 length).map (word 0)
  else some (wide (List.replicate (wordCount length) 0) length)

-- Numbers of no field are sorted out before any bit is set.
def seed? (length : Nat) (exempt : List Nat) : Option Presence := do
  (exempt.filter (· < length)).foldlM set? (← blank? length)

def mark? (p : Presence) (n : Nat) : Option Presence :=
  match p with
  | word marked full =>
    if n < wordBits then do
      let bit ← bit? 32 n
      return word (marked ||| (bit &&& full)) full
    else some p
  | wide _ length => if n < length then p.set? n else some p

def isMarked? (p : Presence) (n : Nat) : Option Bool :=
  match p with
  | word marked full =>
    if n < wordBits then do
      let bit ← bit? 32 n
      return (marked &&& full) &&& bit != 0
    else some false
  | wide words length =>
    if n < length then do
      let w ← words[n / wideBits]?
      let bit ← bit? 64 (n % wideBits)
      return w &&& bit != 0
    else some false

def fullWord? (length index : Nat) : Option (BitVec 64) :=
  ones? 64 (min (length - index * wideBits) wideBits)

def isComplete? : Presence → Option Bool
  | word marked full => some (marked = full)
  | wide words length => words.zipIdx.allM fun (w, i) => do
    let full ← fullWord? length i
    return w ^^^ full == 0

variable {n i : Nat} {p : Presence}

theorem bit?_eq {w : Nat} (h : i < w) : bit? w i = some (BitVec.twoPow w i) := by
  rw [bit?, if_pos h, BitVec.twoPow]

theorem ones?_eq {w : Nat} (h : n ≤ w) :
    ones? w n = some (BitVec.ofNat w (Nat.pow 2 n - 1)) := by
  have pos : 0 < 2 ^ n := Nat.two_pow_pos n
  unfold ones?
  split
  case isTrue hn =>
    subst hn
    refine congrArg some (BitVec.eq_of_toNat_eq ?_)
    rw [BitVec.toNat_allOnes, BitVec.toNat_ofNat, Nat.pow_eq, Nat.mod_eq_of_lt (by omega)]
  case isFalse hn =>
    have lt : n < w := by omega
    have one : 1 < 2 ^ w := Nat.one_lt_two_pow (by omega)
    have bit : BitVec.twoPow w n = BitVec.ofNat w (2 ^ n) :=
      BitVec.eq_of_toNat_eq ((BitVec.toNat_twoPow w n).trans (BitVec.toNat_ofNat _ w).symm)
    rw [bit?_eq lt, bit]
    exact congrArg some (BitVec.ofNat_sub_ofNat_of_le (2 ^ n) 1 one pos)

theorem twoPow_ne_zero {w : Nat} (h : i < w) : BitVec.twoPow w i ≠ 0#w := by
  intro hz
  have bit : (BitVec.twoPow w i).getLsbD i = (0#w).getLsbD i := by rw [hz]
  simp [h] at bit

theorem and_twoPow_bne_zero {w : Nat} (x : BitVec w) (h : i < w) :
    (x &&& BitVec.twoPow w i != 0#w) = x.getLsbD i := by
  rw [BitVec.and_twoPow]
  cases x.getLsbD i <;> simp [twoPow_ne_zero h]

-- The bit for a number is in the full word if the number is that of a field.
theorem twoPow_and_full (n i : Nat) : BitVec.twoPow 32 i &&& BitVec.ofNat 32 (Nat.pow 2 n - 1) =
    if i < 32 ∧ i < n then BitVec.twoPow 32 i else 0#32 := by
  rw [BitVec.and_comm, BitVec.and_twoPow, getLsbD_full]
  simp

theorem blank?_eq (n : Nat) : blank? n = some (blank n) := by
  unfold blank? blank
  split
  case isTrue h =>
    rw [ones?_eq (show n ≤ 32 from h)]
    rfl
  case isFalse => rfl

theorem fullWord?_eq (n k : Nat) : fullWord? n k = some (fullWord n k) :=
  ones?_eq (w := 64) (Nat.min_le_right ..)

theorem xor_beq_zero {w : Nat} (x y : BitVec w) : (x ^^^ y == 0#w) = decide (x = y) := by
  rw [Bool.eq_iff_iff, beq_iff_eq, BitVec.xor_eq_zero_iff, decide_eq_true_eq]

namespace Tracks

theorem mark_of_le (h : Tracks n p) (hi : n ≤ i) : p.mark i = p := by
  cases h
  case word marked small clear =>
    have unset : ¬(i < 32 ∧ i < n) := by omega
    rw [Presence.mark, twoPow_and_full, if_neg unset, BitVec.or_zero, ite_self]
  case wide words count clear => exact if_neg (Nat.not_lt.mpr hi)

theorem set?_eq (h : Tracks n p) (hi : i < n) : p.set? i = some (p.mark i) := by
  cases h
  case word marked small clear =>
    have lt : i < 32 := Nat.lt_of_lt_of_le hi small
    have bits : i < wordBits := lt
    rw [Presence.mark, if_pos bits, twoPow_and_full, if_pos ⟨lt, hi⟩, set?, bit?_eq lt]
    rfl
  case wide words count clear =>
    have lt : i / wideBits < words.length := count ▸ div_lt_wordCount hi
    have bit : i % wideBits < 64 := Nat.mod_lt _ (by decide)
    rw [Presence.mark, if_pos hi, set?, List.getElem?_eq_getElem lt, bit?_eq bit,
      List.modify_eq_set]
    simp [List.getElem?_eq_getElem lt]

theorem mark?_eq (h : Tracks n p) (i : Nat) : p.mark? i = some (p.mark i) := by
  cases h
  case word marked small clear =>
    by_cases lt : i < 32
    case pos => simp [mark?, Presence.mark, wordBits, lt, bit?_eq lt]
    case neg => simp [mark?, Presence.mark, wordBits, lt]
  case wide words count clear =>
    by_cases hi : i < n
    case pos => rw [mark?, if_pos hi, set?_eq (.wide count clear) hi]
    case neg => rw [mark?, if_neg hi, mark_of_le (.wide count clear) (Nat.not_lt.mp hi)]

theorem isMarked?_eq (h : Tracks n p) (i : Nat) : p.isMarked? i = some (p.isMarked i) := by
  cases h
  case word marked small clear =>
    unfold isMarked? isMarked
    by_cases lt : i < 32
    case pos => simp [wordBits, lt, bit?_eq lt, and_twoPow_bne_zero _ lt]
    case neg => simp [wordBits, lt]
  case wide words count clear =>
    unfold isMarked? isMarked
    by_cases hi : i < n
    case neg => simp [hi]
    case pos =>
      have lt : i / wideBits < words.length := count ▸ div_lt_wordCount hi
      have bit : i % wideBits < 64 := Nat.mod_lt _ (by decide)
      simp [hi, List.getElem?_eq_getElem lt, bit?_eq bit, and_twoPow_bne_zero _ bit]

theorem isComplete?_eq (h : Tracks n p) : p.isComplete? = some p.isComplete := by
  cases h
  case word => rfl
  case wide words count clear =>
    have each : (fun (w, k) => do
        let full ← fullWord? n k
        return w ^^^ full == 0 : BitVec 64 × Nat → Option Bool) =
          fun wk => Pure.pure (decide (wk.1 = fullWord n wk.2)) := by
      funext ⟨w, k⟩
      simp only [fullWord?_eq]
      exact congrArg some (xor_beq_zero w (fullWord n k))
    rw [isComplete?, each, List.allM_pure]
    rfl

theorem foldlM_mark? (h : Tracks n p) (ns : List Nat) :
    ns.foldlM mark? p = some (ns.foldl Presence.mark p) := by
  induction ns generalizing p
  case nil          => rfl
  case cons m ns ih =>
    rw [List.foldlM_cons, h.mark?_eq, List.foldl_cons, ← ih (h.mark m)]
    rfl

-- Marking does nothing for the numbers that are sorted out.
theorem foldlM_set? (h : Tracks n p) (ns : List Nat) :
    (ns.filter (· < n)).foldlM set? p = some (ns.foldl Presence.mark p) := by
  induction ns generalizing p
  case nil          => rfl
  case cons m ns ih =>
    rw [List.foldl_cons, ← ih (h.mark m)]
    by_cases hm : m < n
    case pos =>
      rw [List.filter_cons_of_pos (by simpa using hm), List.foldlM_cons, h.set?_eq hm]
      rfl
    case neg =>
      rw [List.filter_cons_of_neg (by simpa using hm), h.mark_of_le (Nat.not_lt.mp hm)]

end Tracks

theorem seed?_eq (n : Nat) (exempt : List Nat) : seed? n exempt = some (seed n exempt) := by
  rw [seed?, blank?_eq]
  exact (tracks_blank n).foldlM_set? exempt

end RecordDecoding.Presence
