import Mathlib.Algebra.Order.Field.Power
import Mathlib.Data.Rat.Cast.Order
import Mathlib.Tactic.FieldSimp
import Mathlib.Tactic.Linarith
import Mathlib.Tactic.Positivity
import Mathlib.Tactic.Ring
import RecordDecoding.Number.Binary

namespace RecordDecoding

section

variable (num den : Nat) (power : Int)

theorem scaleRatio_eq :
    ((scaleRatio num den power).1 : ℚ) / (scaleRatio num den power).2 = num / den * 2 ^ power := by
  have split : (2 : ℚ) ^ power = 2 ^ power.toNat / 2 ^ (-power).toNat := by
    rw [← zpow_natCast, ← zpow_natCast, ← zpow_sub₀ (by norm_num)]
    congr 1
    omega
  simp only [scaleRatio, Nat.pow_eq, Nat.cast_mul, Nat.cast_pow, Nat.cast_ofNat, split]
  exact mul_div_mul_comm ..

variable {num den}

theorem scaleRatio_snd_pos (h : 0 < den) : 0 < (scaleRatio num den power).2 :=
  Nat.mul_pos h (Nat.two_pow_pos _)

theorem le_scaleRatio_iff (h : 0 < den) :
    (scaleRatio num den power).2 ≤ (scaleRatio num den power).1 ↔
      (1 : ℚ) ≤ num / den * 2 ^ power := by
  rw [← scaleRatio_eq, one_le_div (by exact_mod_cast scaleRatio_snd_pos power h), Nat.cast_le]

end

variable {num den : Nat}

theorem log2_bounds (h : 0 < num) :
    (2 : ℚ) ^ (num.log2 : Int) ≤ num ∧ (num : ℚ) < 2 ^ (num.log2 + 1 : Int) := by
  have lower := Nat.log2_self_le h.ne'
  have upper : num < 2 ^ (num.log2 + 1) := Nat.lt_log2_self
  constructor
  · rw [zpow_natCast]
    exact_mod_cast lower
  · rw [← Int.natCast_succ, zpow_natCast]
    exact_mod_cast upper

-- Moved to the left, a number of few bits has as many as double precision.
theorem moved_bounds (hn : num ≠ 0) (few : num.log2 ≤ 52) :
    2 ^ 52 ≤ num * 2 ^ (52 - num.log2) ∧ num * 2 ^ (52 - num.log2) < 2 ^ 53 := by
  have ⟨lower, upper⟩ : 2 ^ num.log2 ≤ num ∧ num < 2 ^ (num.log2 + 1) :=
    ⟨Nat.log2_self_le hn, Nat.lt_log2_self⟩
  have total : num.log2 + (52 - num.log2) = 52 := by omega
  constructor
  · calc 2 ^ 52 = 2 ^ num.log2 * 2 ^ (52 - num.log2) := by rw [← Nat.pow_add, total]
      _ ≤ num * 2 ^ (52 - num.log2) := Nat.mul_le_mul_right _ lower
  · calc num * 2 ^ (52 - num.log2) < 2 ^ (num.log2 + 1) * 2 ^ (52 - num.log2) :=
          Nat.mul_lt_mul_of_pos_right upper (Nat.two_pow_pos _)
      _ = 2 ^ 53 := by rw [← Nat.pow_add, Nat.add_right_comm, total]

theorem ratioLog2_bounds (hn : 0 < num) (hd : 0 < den) :
    (2 : ℚ) ^ ratioLog2 num den ≤ num / den ∧ (num / den : ℚ) < 2 ^ (ratioLog2 num den + 1) := by
  have ⟨n_le, n_lt⟩ := log2_bounds hn
  have ⟨d_le, d_lt⟩ := log2_bounds hd
  have den_pos : (0 : ℚ) < den := by exact_mod_cast hd
  generalize hg : (num.log2 : Int) - den.log2 = guess
  have power_pos (n : Int) : (0 : ℚ) < 2 ^ n := by positivity
  have upper : (num / den : ℚ) < 2 ^ (guess + 1) := by
    rw [div_lt_iff₀ den_pos]
    calc (num : ℚ) < 2 ^ (guess + 1) * 2 ^ (den.log2 : Int) := by
          rwa [← zpow_add₀ (by norm_num), show guess + 1 + (den.log2 : Int) = num.log2 + 1 by omega]
      _ ≤ 2 ^ (guess + 1) * den := by
          exact mul_le_mul_of_nonneg_left d_le (power_pos _).le
  have lower : (2 : ℚ) ^ (guess - 1) ≤ num / den := by
    rw [le_div_iff₀ den_pos]
    calc (2 : ℚ) ^ (guess - 1) * den ≤ 2 ^ (guess - 1) * 2 ^ (den.log2 + 1 : Int) := by
          exact mul_le_mul_of_nonneg_left d_lt.le (power_pos _).le
      _ ≤ num := by
          rwa [← zpow_add₀ (by norm_num), show guess - 1 + (den.log2 + 1 : Int) = num.log2 by omega]
  have near : (1 : ℚ) ≤ num / den * 2 ^ (-guess) ↔ (2 : ℚ) ^ guess ≤ num / den := by
    rw [zpow_neg, ← div_eq_mul_inv, one_le_div (power_pos _)]
  simp only [ratioLog2, hg, le_scaleRatio_iff _ hd, near]
  split
  case isTrue above  => exact ⟨above, upper⟩
  case isFalse below => exact ⟨lower, by simpa using below⟩

theorem ratioLog2_eq {power : Int} (hn : 0 < num) (hd : 0 < den)
    (lower : (2 : ℚ) ^ power ≤ num / den) (upper : (num / den : ℚ) < 2 ^ (power + 1)) :
    ratioLog2 num den = power := by
  have ⟨le, lt⟩ := ratioLog2_bounds hn hd
  have below := (zpow_lt_zpow_iff_right₀ (one_lt_two (α := ℚ))).mp (le.trans_lt upper)
  have above := (zpow_lt_zpow_iff_right₀ (one_lt_two (α := ℚ))).mp (lower.trans_lt lt)
  omega

-- A whole number is not rounded.
theorem roundHalfEven_of_eq {n : Nat} (hd : 0 < den) (h : (num / den : ℚ) = n) :
    roundHalfEven num den = n := by
  have den_pos : (0 : ℚ) < den := by exact_mod_cast hd
  have whole : num = n * den := by
    rw [div_eq_iff den_pos.ne'] at h
    exact_mod_cast h
  subst whole
  simp [roundHalfEven, Nat.mul_div_cancel n hd]
  omega

section

variable {n : Nat} (hd : 0 < den)
include hd

theorem roundHalfEven_le (h : num < n * den) : roundHalfEven num den ≤ n := by
  have whole : num / den < n := (Nat.div_lt_iff_lt_mul hd).mpr h
  rw [roundHalfEven]
  split <;> omega

theorem le_roundHalfEven (h : n * den ≤ num) : n ≤ roundHalfEven num den := by
  have whole : n ≤ num / den := (Nat.le_div_iff_mul_le hd).mpr h
  rw [roundHalfEven]
  split <;> omega

-- The middle between an odd number and the next one is rounded up.
theorem lt_roundHalfEven_iff (odd : n % 2 = 1) :
    n < roundHalfEven num (2 * den) ↔ (2 * n + 1) * den ≤ num := by
  have pos : 0 < 2 * den := Nat.mul_pos two_pos hd
  have middle : (2 * n + 1) * den = n * (2 * den) + den := by ring
  obtain below | same | above := Nat.lt_trichotomy (num / (2 * den)) n
  · have few : num < n * (2 * den) := (Nat.div_lt_iff_lt_mul pos).mp below
    have := roundHalfEven_le pos few
    omega
  · have parts := Nat.div_add_mod num (2 * den)
    rw [same, Nat.mul_comm] at parts
    rw [roundHalfEven, same, middle]
    split <;> omega
  · have many : (n + 1) * (2 * den) ≤ num := (Nat.le_div_iff_mul_le pos).mp above
    have := le_roundHalfEven pos many
    rw [Nat.add_mul] at many
    omega

end

namespace Binary

variable {f g : Format}

section

variable {m : Nat} (wide : 0 < f.width) (small : m < f.signBit)
include wide small

theorem bits_ofMagnitude (negative : Bool) :
    (ofMagnitude negative m : Binary f).bits.toNat = (if negative then f.signBit else 0) + m := by
  have double : 2 ^ f.width = 2 * f.signBit := by
    rw [Format.signBit, Nat.pow_eq, ← Nat.pow_succ']
    congr 1
    omega
  rw [ofMagnitude, BitVec.toNat_ofNat, Nat.mod_eq_of_lt]
  split <;> omega

theorem magnitude_ofMagnitude (negative : Bool) :
    (ofMagnitude negative m : Binary f).magnitude = m := by
  rw [magnitude, bits_ofMagnitude wide small]
  split
  · rw [Nat.add_mod_left, Nat.mod_eq_of_lt small]
  · rw [Nat.zero_add, Nat.mod_eq_of_lt small]

theorem isNegative_ofMagnitude (negative : Bool) :
    (ofMagnitude negative m : Binary f).isNegative = negative := by
  rw [isNegative, bits_ofMagnitude wide small]
  cases negative <;> simp
  omega

end

-- A ratio with as many significant bits as the format has.
theorem ofRatio_of_significand {significand : Nat} {place : Int} (negative : Bool) (hd : 0 < den)
    (value : (num / den : ℚ) = significand * 2 ^ place) (normal : f.implied ≤ significand)
    (short : significand < 2 * f.implied) (least : f.leastPlace ≤ place) :
    (ofRatio negative num den : Binary f) =
      ofMagnitude negative
        (min ((place - f.leastPlace).toNat * f.implied + significand) f.infinity) := by
  have den_pos : (0 : ℚ) < den := by exact_mod_cast hd
  have implied_pos : 0 < f.implied := Nat.two_pow_pos _
  have implied : (f.implied : ℚ) = 2 ^ ((f.precision - 1 : Nat) : Int) := by
    rw [zpow_natCast, Format.implied]
    exact_mod_cast rfl
  have power_pos : (0 : ℚ) < 2 ^ place := by positivity
  have hn : 0 < num := by
    have : (0 : ℚ) < num / den := by
      rw [value]
      exact mul_pos (by exact_mod_cast implied_pos.trans_le normal) power_pos
    exact_mod_cast (div_pos_iff_of_pos_right den_pos).mp this
  have log : ratioLog2 num den = place + (f.precision - 1 : Nat) := by
    refine ratioLog2_eq hn hd ?_ ?_
    · rw [value, zpow_add₀ (by norm_num), ← implied, mul_comm]
      exact mul_le_mul_of_nonneg_right (by exact_mod_cast normal) power_pos.le
    · rw [value, zpow_add₀ (by norm_num), zpow_add₀ (by norm_num), ← implied, zpow_one,
        mul_comm, mul_assoc, mul_comm _ (2 : ℚ)]
      exact mul_lt_mul_of_pos_left (by exact_mod_cast short) power_pos
  have chosen : max f.leastPlace (ratioLog2 num den - (f.precision - 1 : Nat)) = place := by
    rw [log]
    omega
  have scaled := scaleRatio_eq num den (-place)
  rw [value, mul_assoc, ← zpow_add₀ (by norm_num), add_neg_cancel, zpow_zero, mul_one] at scaled
  rw [ofRatio, if_neg hn.ne']
  simp only [chosen, roundHalfEven_of_eq (scaleRatio_snd_pos _ hd) scaled]

section

variable {above significand : Nat} (normal : f.implied ≤ significand)
variable (short : significand < 2 * f.implied)
include normal short

theorem word_div : (above * f.implied + significand) / f.implied = above + 1 := by
  have implied_pos : 0 < f.implied := Nat.two_pow_pos _
  rw [Nat.div_eq_iff implied_pos, Nat.add_mul]
  omega

theorem word_mod : (above * f.implied + significand) % f.implied = significand - f.implied := by
  have := Nat.div_add_mod (above * f.implied + significand) f.implied
  rw [word_div normal short, Nat.mul_add, Nat.mul_comm f.implied above] at this
  omega

variable (wide : 0 < f.width) (small : above * f.implied + significand < f.signBit)
include wide small

theorem significand_ofMagnitude (negative : Bool) :
    (ofMagnitude negative (above * f.implied + significand) : Binary f).significand =
      significand := by
  rw [Binary.significand, magnitude_ofMagnitude wide small, word_mod normal short]
  split <;> omega

theorem place_ofMagnitude (negative : Bool) :
    (ofMagnitude negative (above * f.implied + significand) : Binary f).place =
      f.leastPlace + above := by
  rw [Binary.place, magnitude_ofMagnitude wide small, word_div normal short]
  rfl

end

-- Two words for the same number, for the same infinity, or for no number.
inductive Same (x : Binary f) (y : Binary g) : Prop
  | nan : x.isNan → y.isNan → Same x y
  | infinite : x.isInfinite → y.isInfinite → x.isNegative = y.isNegative → Same x y
  | finite : x.isFinite → y.isFinite → x.isNegative = y.isNegative →
    (x.significand : ℚ) * 2 ^ x.place = y.significand * 2 ^ y.place → Same x y

theorem significand_lt (x : Binary f) : x.significand < 2 * f.implied := by
  have := Nat.mod_lt x.magnitude (Nat.two_pow_pos (f.precision - 1))
  rw [← Nat.pow_eq, ← Format.implied] at this
  rw [significand]
  split <;> omega

-- A significand that is moved to the left as far as the format goes.
theorem exists_moved {s : Nat} (hs : s ≠ 0) (few : s < 2 * Format.double.implied) :
    ∃ count ≤ 52, Format.double.implied ≤ s * 2 ^ count ∧
      s * 2 ^ count < 2 * Format.double.implied := by
  have log : s.log2 < 53 := by
    rw [Nat.log2_lt hs]
    exact few
  exact ⟨52 - s.log2, Nat.sub_le .., moved_bounds hs (Nat.le_of_lt_succ log)⟩

-- A number that has few enough significant bits is a value in double precision.
theorem ofRatio_exact {s : Nat} {place : Int} (negative : Bool) (hd : 0 < den)
    (value : (num / den : ℚ) = s * 2 ^ place) (few : s < 2 * Format.double.implied)
    (low : -1022 ≤ place) (high : place ≤ 971) :
    let x : Double := ofRatio negative num den
    x.isFinite ∧ x.isNegative = negative ∧ (x.significand : ℚ) * 2 ^ x.place = s * 2 ^ place := by
  by_cases zero : s = 0
  case pos =>
    subst zero
    have : num = 0 := by
      rw [Nat.cast_zero, zero_mul, div_eq_zero_iff] at value
      have : (den : ℚ) ≠ 0 := by exact_mod_cast hd.ne'
      exact_mod_cast value.resolve_right this
    simp only [ofRatio, if_pos this]
    refine ⟨?_, ?_, ?_⟩
    · cases negative <;> rfl
    · cases negative <;> rfl
    · have : (Binary.zero negative : Double).significand = 0 := by cases negative <;> rfl
      rw [this, Nat.cast_zero, zero_mul, zero_mul]
  case neg =>
  have ⟨count, _, normal, short⟩ := exists_moved zero few
  have moved : ((s * 2 ^ count : Nat) : ℚ) * 2 ^ (place - count) = s * 2 ^ place := by
    rw [zpow_sub₀ two_ne_zero, zpow_natCast]
    push_cast
    field_simp
  generalize s * 2 ^ count = significand at normal short moved
  have least : Format.double.leastPlace = -1074 := rfl
  have implied : Format.double.implied = 2 ^ 52 := rfl
  have infinity : Format.double.infinity = 2047 * 2 ^ 52 := rfl
  have signBit : Format.double.signBit = 2 ^ 63 := rfl
  intro x
  have hx : x = ofMagnitude negative _ :=
    ofRatio_of_significand negative hd (value.trans moved.symm) normal short (by omega)
  generalize ha : (place - count - Format.double.leastPlace).toNat = above at hx
  have finite : above * Format.double.implied + significand < Format.double.infinity := by
    rw [implied, infinity]
    omega
  have small : above * Format.double.implied + significand < Format.double.signBit := by
    omega
  rw [Nat.min_eq_left finite.le] at hx
  refine ⟨?_, ?_, ?_⟩
  · rw [hx, isFinite, magnitude_ofMagnitude (by decide) small, decide_eq_true_eq]
    exact finite
  · rw [hx, isNegative_ofMagnitude (by decide) small]
  · rw [hx, significand_ofMagnitude normal short (by decide) small,
      place_ofMagnitude normal short (by decide) small, ← moved]
    congr 2
    omega

-- Single precision is part of double precision.
theorem Same.widened (x : Single) : Same (x.convert : Double) x := by
  rw [convert]
  split
  case isTrue nan => exact .nan rfl nan
  case isFalse not_nan =>
  split
  case isTrue infinite =>
    refine .infinite ?_ infinite ?_ <;> cases x.isNegative <;> rfl
  case isFalse not_infinite =>
  have finite : x.magnitude < Format.single.infinity := by
    simp only [isNan, isInfinite, decide_eq_true_eq] at not_nan not_infinite
    omega
  have infinity : Format.single.infinity = 255 * 2 ^ 23 := rfl
  have implied : Format.single.implied = 2 ^ 23 := rfl
  have least : Format.single.leastPlace = -149 := rfl
  have wider : Format.double.implied = 2 ^ 52 := rfl
  have value := scaleRatio_eq x.significand 1 x.place
  rw [Nat.cast_one, div_one] at value
  have few := x.significand_lt
  have place : x.place = -149 + (x.magnitude / 2 ^ 23 - 1 : Nat) := rfl
  have ⟨widened, sign, same⟩ := ofRatio_exact x.isNegative
    (scaleRatio_snd_pos x.place one_pos) value (by omega) (by omega) (by omega)
  exact .finite widened (decide_eq_true finite) sign same

-- No ratio is rounded to a word for no number.
theorem isNan_ofRatio (wide : 0 < f.width) (room : f.infinity < f.signBit) (negative : Bool)
    (num den : Nat) : (ofRatio negative num den : Binary f).isNan = false := by
  have not_nan {word : Nat} (h : word ≤ f.infinity) :
      (ofMagnitude negative word : Binary f).isNan = false := by
    rw [isNan, magnitude_ofMagnitude wide (h.trans_lt room)]
    exact decide_eq_false h.not_gt
  rw [ofRatio]
  split
  case isTrue  => exact not_nan (Nat.zero_le _)
  case isFalse => exact not_nan (Nat.min_le_right ..)

theorem isFinite_eq {x : Binary f} (h : x.isNan = false) : x.isFinite = !x.isInfinite := by
  simp only [isNan, isFinite, isInfinite, decide_eq_false_iff_not] at h ⊢
  rw [← decide_not, decide_eq_decide]
  omega

-- The middle between the greatest finite value in double precision and the next power of two.
def leastInfinite : Nat := (2 ^ 54 - 1) * 2 ^ 970

section

variable {n : Nat}

theorem ratioLog2_one (hn : n ≠ 0) : ratioLog2 n 1 = n.log2 := by
  have ⟨lower, upper⟩ := log2_bounds (Nat.pos_of_ne_zero hn)
  exact ratioLog2_eq (Nat.pos_of_ne_zero hn) one_pos (by rwa [Nat.cast_one, div_one])
    (by rwa [Nat.cast_one, div_one])

-- The significand of a whole number at the last place that it has room for.
def rounded (n : Nat) : Nat :=
  let (a, b) := scaleRatio n 1 (-(n.log2 - 52))
  roundHalfEven a b

-- The word that a whole number is rounded to, unless it is too great.
def wordOf (n : Nat) : Nat :=
  (n.log2 + 1022) * 2 ^ 52 + rounded n

theorem ofRatio_one (negative : Bool) (hn : n ≠ 0) :
    (ofRatio negative n 1 : Double) =
      ofMagnitude negative (min (wordOf n) Format.double.infinity) := by
  have least : Format.double.leastPlace = -1074 := rfl
  have chosen : max Format.double.leastPlace (n.log2 - (Format.double.precision - 1 : Nat)) =
      n.log2 - 52 := by
    show max _ ((n.log2 : Int) - (52 : Nat)) = _
    omega
  have above : ((n.log2 : Int) - 52 - Format.double.leastPlace).toNat = n.log2 + 1022 := by
    omega
  simp only [ofRatio, if_neg hn, ratioLog2_one hn, chosen, above]
  rfl

theorem isInfinite_ofMagnitude (negative : Bool) (word : Nat) :
    (ofMagnitude negative (min word Format.double.infinity) : Double).isInfinite ↔
      Format.double.infinity ≤ word := by
  have small : min word Format.double.infinity < Format.double.signBit :=
    (Nat.min_le_right ..).trans_lt (by decide)
  rw [isInfinite, magnitude_ofMagnitude (by decide) small, decide_eq_true_eq]
  exact min_eq_right_iff

theorem rounded_of_many (many : 52 ≤ n.log2) :
    rounded n = roundHalfEven n (2 ^ (n.log2 - 52)) := by
  simp only [rounded, scaleRatio, Nat.pow_eq]
  rw [show (-((n.log2 : Int) - 52)).toNat = 0 by omega,
    show (-(-((n.log2 : Int) - 52))).toNat = n.log2 - 52 by omega, Nat.pow_zero, Nat.mul_one,
    Nat.one_mul]

theorem rounded_of_few (few : n.log2 < 52) : rounded n = n * 2 ^ (52 - n.log2) := by
  simp only [rounded, scaleRatio, Nat.pow_eq]
  rw [show (-((n.log2 : Int) - 52)).toNat = 52 - n.log2 by omega,
    show (-(-((n.log2 : Int) - 52))).toNat = 0 by omega, Nat.pow_zero, Nat.one_mul]
  exact roundHalfEven_of_eq one_pos (by rw [Nat.cast_one, div_one])

theorem rounded_bounds (hn : n ≠ 0) : 2 ^ 52 ≤ rounded n ∧ rounded n ≤ 2 ^ 53 := by
  obtain few | many := Nat.lt_or_ge n.log2 52
  · rw [rounded_of_few few]
    exact (moved_bounds hn few.le).imp_right Nat.le_of_lt
  · have total : n.log2 - 52 + 52 = n.log2 := by omega
    rw [rounded_of_many many]
    constructor
    · refine le_roundHalfEven (Nat.two_pow_pos _) ?_
      rw [← Nat.pow_add, Nat.add_comm, total]
      exact Nat.log2_self_le hn
    · refine roundHalfEven_le (Nat.two_pow_pos _) ?_
      rw [← Nat.pow_add, show 53 + (n.log2 - 52) = n.log2 + 1 by omega]
      exact Nat.lt_log2_self

theorem infinity_le_wordOf (hn : n ≠ 0) :
    Format.double.infinity ≤ wordOf n ↔ leastInfinite ≤ n := by
  have infinity : Format.double.infinity = 2047 * 2 ^ 52 := rfl
  have ⟨lower, upper⟩ : 2 ^ n.log2 ≤ n ∧ n < 2 ^ (n.log2 + 1) :=
    ⟨Nat.log2_self_le hn, Nat.lt_log2_self⟩
  have ⟨least, most⟩ := rounded_bounds hn
  -- The power is kept from being evaluated.
  generalize he : 970 = e at *
  have power_pos : 0 < 2 ^ e := Nat.two_pow_pos _
  rw [wordOf, leastInfinite, he]
  obtain few | exact | many := Nat.lt_trichotomy n.log2 1023
  · have : n < 2 ^ 53 * 2 ^ e := by
      rw [← Nat.pow_add]
      exact upper.trans_le (Nat.pow_le_pow_right two_pos (by omega))
    omega
  · have middle : 2 ^ 53 - 1 < roundHalfEven n (2 * 2 ^ e) ↔ _ := lt_roundHalfEven_iff power_pos rfl
    have one_more : 2 * 2 ^ e = 2 ^ (n.log2 - 52) := by
      rw [← Nat.pow_succ']
      congr 1
      omega
    rw [one_more, ← rounded_of_many (by omega)] at middle
    omega
  · have : 2 ^ 54 * 2 ^ e ≤ n := by
      rw [← Nat.pow_add]
      exact (Nat.pow_le_pow_right two_pos (by omega)).trans lower
    omega

-- Only whole numbers from there on are infinite.
theorem isInfinite_ofRatio_one (negative : Bool) :
    (ofRatio negative n 1 : Double).isInfinite ↔ leastInfinite ≤ n := by
  by_cases hn : n = 0
  case pos =>
    subst hn
    have positive : 0 < leastInfinite := by
      rw [leastInfinite]
      positivity
    simp only [ofRatio, if_pos, positive.not_ge, iff_false]
    cases negative <;> decide
  case neg =>
    rw [ofRatio_one negative hn, isInfinite_ofMagnitude, infinity_le_wordOf hn]

end

end Binary

end RecordDecoding
