import Mathlib.Algebra.Group.Nat.Defs
import RecordDecoding.Base64
import RecordDecoding.Proofs.Text.Bytes

namespace RecordDecoding.Base64

def sextet? (c : Char) : Option Nat :=
  if 'A' ≤ c ∧ c ≤ 'Z' then some (c.toNat - 'A'.toNat)
  else if 'a' ≤ c ∧ c ≤ 'z' then some (c.toNat - 'a'.toNat + 26)
  else if '0' ≤ c ∧ c ≤ '9' then some (c.toNat - '0'.toNat + 52)
  else if c = '+' then some 62
  else if c = '/' then some 63
  else none

-- The bytes of groups without padding, a group at a time. The bits that a last group has to spare
-- must be zero.
def decodeGroups? : List Char → Option (List UInt8)
  | [] => some []
  | [_] => none
  | [c₀, c₁] => do
    let s₀ ← sextet? c₀
    let s₁ ← sextet? c₁
    if s₁ % 16 = 0 then return [UInt8.ofNat (s₀ * 4 + s₁ / 16)] else none
  | [c₀, c₁, c₂] => do
    let s₀ ← sextet? c₀
    let s₁ ← sextet? c₁
    let s₂ ← sextet? c₂
    if s₂ % 4 = 0 then
      return [UInt8.ofNat (s₀ * 4 + s₁ / 16), UInt8.ofNat (s₁ % 16 * 16 + s₂ / 4)]
    else none
  | c₀ :: c₁ :: c₂ :: c₃ :: cs => do
    let s₀ ← sextet? c₀
    let s₁ ← sextet? c₁
    let s₂ ← sextet? c₂
    let s₃ ← sextet? c₃
    let bytes ← decodeGroups? cs
    return UInt8.ofNat (s₀ * 4 + s₁ / 16) :: UInt8.ofNat (s₁ % 16 * 16 + s₂ / 4)
      :: UInt8.ofNat (s₂ % 4 * 64 + s₃) :: bytes

-- A symbol is ASCII.
theorem lt_of_sextet? {c : Char} {n : Nat} (h : sextet? c = some n) : c.toNat < 128 := by
  refine Nat.lt_of_not_le fun large => ?_
  have above {d : Char} (hd : d.toNat < 128 := by decide) : ¬c ≤ d := fun h => by
    have : c.toNat ≤ d.toNat := h
    omega
  have plus : c ≠ '+' := by
    rintro rfl
    exact above (d := '+') (by decide) (by decide)
  have slash : c ≠ '/' := by
    rintro rfl
    exact above (d := '/') (by decide) (by decide)
  simp [sextet?, above (d := 'Z'), above (d := 'z'), above (d := '9'), plus, slash] at h

-- Groups whose last symbol has bits that belong to no byte.
def HasLeftover (groups : List Char) : Prop :=
  ∃ c ∈ groups.getLast?, ∃ n ∈ sextet? c,
    groups.length % 4 = 2 ∧ n % 16 ≠ 0 ∨ groups.length % 4 = 3 ∧ n % 4 ≠ 0

theorem decodeGroups?_eq_none_iff (groups : List Char) : decodeGroups? groups = none ↔
    (∃ c ∈ groups, sextet? c = none) ∨ groups.length % 4 = 1 ∨ HasLeftover groups := by
  fun_induction decodeGroups? groups
  case case1 => simp [HasLeftover]
  case case2 => simp
  case case3 c₀ c₁ =>
    cases h₀ : sextet? c₀ <;> cases h₁ : sextet? c₁ <;> simp [HasLeftover, h₀, h₁]
  case case4 c₀ c₁ c₂ =>
    cases h₀ : sextet? c₀ <;> cases h₁ : sextet? c₁ <;> cases h₂ : sextet? c₂ <;>
      simp [HasLeftover, h₀, h₁, h₂]
  case case5 c₀ c₁ c₂ c₃ cs ih =>
    have length : (c₀ :: c₁ :: c₂ :: c₃ :: cs).length % 4 = cs.length % 4 := Nat.add_mod_right _ 4
    have leftover : HasLeftover (c₀ :: c₁ :: c₂ :: c₃ :: cs) ↔ HasLeftover cs := by
      rw [HasLeftover, HasLeftover, length]
      cases cs <;> simp
    rw [length, leftover]
    simp only [List.mem_cons, or_and_right, exists_or]
    cases h₀ : sextet? c₀ <;> cases h₁ : sextet? c₁ <;> cases h₂ : sextet? c₂ <;>
      cases h₃ : sextet? c₃ <;> simp [h₀, h₁, h₂, h₃, ← ih]
    exact Option.eq_none_iff_forall_ne_some.symm

-- The byte of a character is a symbol for the same as the character.
theorem sextetOf?_ascii {c : Char} (h : c.toNat < 128) :
    (sextetOf? (ascii c)).map UInt8.toNat = sextet? c := by
  have all : ∀ n < 128, (sextetOf? (ascii (Char.ofNat n))).map UInt8.toNat =
      sextet? (Char.ofNat n) := by
    decide
  simpa using all c.toNat h

theorem sextetOf?_lt {b s : UInt8} (h : sextetOf? b = some s) : s.toNat < 64 := by
  have all : ∀ n < 256, ∀ s ∈ sextetOf? (.ofNat n), s.toNat < 64 := by
    decide +kernel
  have := all b.toNat b.toNat_lt s
  rw [UInt8.ofNat_toNat] at this
  exact this h

-- Bytes beyond ASCII are no symbols.
theorem sextetOf?_eq_none {b : UInt8} (h : 128 ≤ b.toNat) : sextetOf? b = none := by
  have all : ∀ n < 256, 128 ≤ n → sextetOf? (.ofNat n) = none := by
    decide +kernel
  have := all b.toNat b.toNat_lt h
  rwa [UInt8.ofNat_toNat] at this

-- A character that is no symbol has a byte that is none.
theorem exists_foreign {c : Char} (h : sextet? c = none) :
    ∃ b ∈ String.utf8EncodeChar c, sextetOf? b = none := by
  by_cases small : c.toNat < 128
  case pos =>
    refine ⟨ascii c, by rw [Utf8.encodeChar_ascii small]; exact List.mem_singleton_self _, ?_⟩
    exact Option.map_eq_none_iff.mp ((sextetOf?_ascii small).trans h)
  case neg =>
    have ⟨b, hb⟩ := List.exists_mem_of_ne_nil _ (String.utf8EncodeChar_ne_nil (c := c))
    exact ⟨b, hb, sextetOf?_eq_none (Utf8.le_of_mem_encodeChar (Nat.le_of_not_lt small) hb)⟩

-- What there is when six bits were put behind others.
theorem toNat_shift {acc : UInt32} {s : UInt8} (ha : acc.toNat < 256) (hs : s.toNat < 64) :
    (acc <<< 6 ||| s.toUInt32).toNat = acc.toNat * 64 + s.toNat := by
  have shift : (acc <<< 6).toNat = acc.toNat <<< 6 := by
    rw [UInt32.toNat_shiftLeft]
    show acc.toNat <<< 6 % 2 ^ 32 = _
    rw [Nat.shiftLeft_eq, Nat.mod_eq_of_lt (by omega)]
  rw [UInt32.toNat_or, shift, UInt8.toNat_toUInt32, ← Nat.shiftLeft_add_eq_or_of_lt hs,
    Nat.shiftLeft_eq]

-- The mask leaves the last bits.
theorem toNat_low {n k : UInt32} (hk : k.toNat < 8) :
    (n &&& ((1 <<< k) - 1)).toNat = n.toNat % 2 ^ k.toNat := by
  have small : 2 ^ k.toNat < 2 ^ 8 := Nat.pow_lt_pow_right (by decide) hk
  have one : (1 <<< k).toNat = 2 ^ k.toNat := by
    rw [UInt32.toNat_shiftLeft, Nat.mod_eq_of_lt (by omega : k.toNat < 32), UInt32.toNat_one,
      Nat.shiftLeft_eq, Nat.one_mul, Nat.mod_eq_of_lt (by omega)]
  have le : 1 ≤ (1 : UInt32) <<< k := by
    rw [UInt32.le_iff_toNat_le, one]
    exact Nat.one_le_two_pow
  rw [UInt32.toNat_and, UInt32.toNat_sub_of_le _ _ le, one]
  exact Nat.and_two_pow_sub_one_eq_mod _ _

-- The byte in front of the last bits.
theorem toUInt8_high {n k : UInt32} (hk : k.toNat < 8) :
    (n >>> k).toUInt8 = .ofNat (n.toNat / 2 ^ k.toNat) := by
  rw [← UInt8.toNat_inj, UInt32.toNat_toUInt8, UInt32.toNat_shiftRight,
    Nat.mod_eq_of_lt (by omega : k.toNat < 32), Nat.shiftRight_eq_div_pow, UInt8.toNat_ofNat']

namespace Accumulator

-- There are fewer than eight bits, and the number is made of them alone.
structure Holds (a : Accumulator) (n k : Nat) : Prop where
  acc  : a.acc.toNat = n
  bits : a.bits.toNat = k
  made : n < 2 ^ k
  few  : k < 8

theorem holds_empty : empty.Holds 0 0 where
  acc  := rfl
  bits := rfl
  made := by decide
  few  := by decide

namespace Holds

variable {a : Accumulator} {n k : Nat} {s b : UInt8} {symbols : List UInt8}

-- Nothing is lost of the number: without a byte all of it is kept, and what a byte does not have of
-- it is what stays.
theorem push (h : a.Holds n k) (hs : s.toNat < 64) :
    (k < 2 → ∃ a' : Accumulator, a'.Holds (n * 64 + s.toNat) (k + 6) ∧ a.push s = (none, a')) ∧
    (2 ≤ k → ∃ a' : Accumulator, a'.Holds ((n * 64 + s.toNat) % 2 ^ (k - 2)) (k - 2) ∧
      a.push s = (some (.ofNat ((n * 64 + s.toNat) / 2 ^ (k - 2))), a')) := by
  obtain ⟨rfl, rfl, made, few⟩ := h
  have small : 2 ^ a.bits.toNat < 2 ^ 8 := Nat.pow_lt_pow_right (by decide) few
  have acc : (a.acc <<< 6 ||| s.toUInt32).toNat = a.acc.toNat * 64 + s.toNat :=
    toNat_shift (by omega) hs
  have bits : (a.bits + 6).toNat = a.bits.toNat + 6 := by
    rw [UInt32.toNat_add]
    exact Nat.mod_eq_of_lt (show a.bits.toNat + 6 < 2 ^ 32 by omega)
  constructor
  case left =>
    intro hk
    have none : ¬8 ≤ a.bits + 6 := by
      rw [UInt32.le_iff_toNat_le, bits]
      exact Nat.not_le_of_lt (show a.bits.toNat + 6 < 8 by omega)
    refine ⟨_, ⟨acc, bits, ?_, by omega⟩, if_neg none⟩
    rw [Nat.pow_add]
    omega
  case right =>
    intro hk
    have some : 8 ≤ a.bits + 6 := by
      rw [UInt32.le_iff_toNat_le, bits]
      exact (show 8 ≤ a.bits.toNat + 6 by omega)
    have left : (a.bits + 6 - 8).toNat = a.bits.toNat - 2 := by
      rw [UInt32.toNat_sub_of_le _ _ some, bits]
      rfl
    have few : (a.bits + 6 - 8).toNat < 8 := by omega
    have byte : ((a.acc <<< 6 ||| s.toUInt32) >>> (a.bits + 6 - 8)).toUInt8 =
        .ofNat ((a.acc.toNat * 64 + s.toNat) / 2 ^ (a.bits.toNat - 2)) := by
      rw [toUInt8_high few, acc, left]
    refine ⟨_, ⟨?_, left, Nat.mod_lt _ (Nat.two_pow_pos _), by omega⟩,
      (if_pos some).trans (congrArg (fun byte => (Option.some byte, _)) byte)⟩
    rw [toNat_low few, acc, left]

variable {m : Nat} {c : Char} {cs : List Char}

-- What a character is read as.
theorem read (hc : sextet? c = some m) (a : Accumulator) (symbols : List UInt8) :
    ∃ s : UInt8, s.toNat = m ∧ s.toNat < 64 ∧
      a.unpack? (String.utf8EncodeChar c ++ symbols) =
        (a.push s).2.unpack? symbols >>= fun bytes => some ((a.push s).1.toList ++ bytes) := by
  have small := lt_of_sextet? hc
  obtain ⟨s, hs, rfl⟩ := Option.map_eq_some_iff.mp ((sextetOf?_ascii small).trans hc)
  refine ⟨s, rfl, sextetOf?_lt hs, ?_⟩
  rw [Utf8.encodeChar_ascii small, List.singleton_append, unpack?, hs]
  rfl

theorem keep (h : a.Holds 0 0) (hc : sextet? c = some m) (symbols : List UInt8) :
    ∃ a' : Accumulator, a'.Holds m 6 ∧
      a.unpack? (String.utf8EncodeChar c ++ symbols) = a'.unpack? symbols := by
  obtain ⟨s, rfl, hs, eq⟩ := read hc a symbols
  have ⟨a', h', push⟩ := (h.push hs).1 (by decide)
  refine ⟨a', by simpa using h', ?_⟩
  rw [eq, push]
  exact Option.bind_fun_some _

theorem give (h : a.Holds n k) (hk : 2 ≤ k) (hc : sextet? c = some m) (symbols : List UInt8) :
    ∃ a' : Accumulator, a'.Holds (m % 2 ^ (k - 2)) (k - 2) ∧
      a.unpack? (String.utf8EncodeChar c ++ symbols) =
        (a'.unpack? symbols).map (.ofNat (n * 2 ^ (8 - k) + m / 2 ^ (k - 2)) :: ·) := by
  obtain ⟨s, rfl, hs, eq⟩ := read hc a symbols
  have ⟨a', h', push⟩ := (h.push hs).2 hk
  have few := h.few
  have split : n * 64 = 2 ^ (k - 2) * (n * 2 ^ (8 - k)) := by
    rw [Nat.mul_left_comm, ← Nat.pow_add, show k - 2 + (8 - k) = 6 by omega]
  rw [split, Nat.mul_add_mod] at h'
  rw [split, Nat.mul_add_div (Nat.two_pow_pos _)] at push
  refine ⟨a', h', ?_⟩
  rw [eq, push]
  exact (Option.map_eq_bind ..).symm

theorem unpack?_nil (h : a.Holds n k) : a.unpack? [] = if n = 0 then some [] else none := by
  have zero : a.acc = 0 ↔ n = 0 := by
    rw [← UInt32.toNat_inj, h.acc]
    rfl
  simp only [unpack?, zero]

variable {c₀ c₁ c₂ c₃ : Char} {s₀ s₁ s₂ s₃ : Nat}

theorem two (h : a.Holds 0 0) (h₀ : sextet? c₀ = some s₀) (h₁ : sextet? c₁ = some s₁)
    (cs : List Char) : ∃ a' : Accumulator, a'.Holds (s₁ % 16) 4 ∧
      a.unpack? ((c₀ :: c₁ :: cs).flatMap String.utf8EncodeChar) =
        (a'.unpack? (cs.flatMap String.utf8EncodeChar)).map (.ofNat (s₀ * 4 + s₁ / 16) :: ·) :=
  have ⟨_, h, first⟩ := h.keep h₀ _
  have ⟨a', h, second⟩ := h.give (by decide) h₁ _
  ⟨a', h, first.trans second⟩

theorem third (h : a.Holds n 4) (hc : sextet? c = some m) (cs : List Char) :
    ∃ a' : Accumulator, a'.Holds (m % 4) 2 ∧
      a.unpack? ((c :: cs).flatMap String.utf8EncodeChar) =
        (a'.unpack? (cs.flatMap String.utf8EncodeChar)).map (.ofNat (n * 16 + m / 4) :: ·) :=
  h.give (by decide) hc _

theorem fourth (h : a.Holds n 2) (hc : sextet? c = some m) (cs : List Char) :
    ∃ a' : Accumulator, a'.Holds 0 0 ∧
      a.unpack? ((c :: cs).flatMap String.utf8EncodeChar) =
        (a'.unpack? (cs.flatMap String.utf8EncodeChar)).map (.ofNat (n * 64 + m) :: ·) := by
  have ⟨a', h', eq⟩ := h.give (by decide) hc (cs.flatMap String.utf8EncodeChar)
  rw [show 2 ^ (2 - 2) = 1 from rfl, Nat.mod_one] at h'
  rw [show 2 ^ (2 - 2) = 1 from rfl, Nat.div_one] at eq
  exact ⟨a', h', eq⟩

end Holds

-- A byte that is no symbol is refused wherever it is.
theorem unpack?_eq_none {symbols : List UInt8} (h : ∃ b ∈ symbols, sextetOf? b = none)
    (a : Accumulator) : a.unpack? symbols = none := by
  induction symbols generalizing a
  case nil =>
    obtain ⟨_, hb, _⟩ := h
    cases hb
  case cons b symbols ih =>
    rw [unpack?]
    cases hs : sextetOf? b
    case none   => rfl
    case some s =>
      obtain ⟨b', hb, foreign⟩ := h
      obtain rfl | hb := List.mem_cons.mp hb
      · cases hs.symm.trans foreign
      · simp [ih ⟨b', hb, foreign⟩]

-- One symbol after the other gives the bytes that the groups of symbols stand for.
theorem unpack?_eq_decodeGroups? {a : Accumulator} (h : a.Holds 0 0) {cs : List Char}
    (lone : cs.length % 4 ≠ 1) :
    a.unpack? (cs.flatMap String.utf8EncodeChar) = decodeGroups? cs := by
  by_cases foreign : ∃ c ∈ cs, sextet? c = none
  case pos =>
    rw [(decodeGroups?_eq_none_iff cs).mpr (.inl foreign)]
    obtain ⟨c, hc, none⟩ := foreign
    have ⟨b, hb, none⟩ := exists_foreign none
    exact unpack?_eq_none ⟨b, List.mem_flatMap_of_mem hc hb, none⟩ a
  case neg =>
    have symbols : ∀ c ∈ cs, ∃ s, sextet? c = some s := fun c hc =>
      Option.ne_none_iff_exists'.mp fun none => foreign ⟨c, hc, none⟩
    clear foreign
    fun_induction decodeGroups? cs generalizing a
    case case1 => exact h.unpack?_nil
    case case2 => exact absurd rfl lone
    case case3 c₀ c₁ =>
      obtain ⟨⟨s₀, h₀⟩, ⟨s₁, h₁⟩, -⟩ := by simpa only [List.forall_mem_cons] using symbols
      have ⟨a, h, two⟩ := h.two h₀ h₁ []
      rw [two, List.flatMap_nil, h.unpack?_nil, h₀, h₁]
      simp only [Option.bind_eq_bind, Option.bind_some]
      split <;> rfl
    case case4 c₀ c₁ c₂ =>
      obtain ⟨⟨s₀, h₀⟩, ⟨s₁, h₁⟩, ⟨s₂, h₂⟩, -⟩ := by
        simpa only [List.forall_mem_cons] using symbols
      have ⟨a, h, two⟩ := h.two h₀ h₁ [c₂]
      have ⟨a, h, third⟩ := h.third h₂ []
      rw [two, third, List.flatMap_nil, h.unpack?_nil, h₀, h₁, h₂]
      simp only [Option.bind_eq_bind, Option.bind_some]
      split <;> rfl
    case case5 c₀ c₁ c₂ c₃ cs ih =>
      obtain ⟨⟨s₀, h₀⟩, ⟨s₁, h₁⟩, ⟨s₂, h₂⟩, ⟨s₃, h₃⟩, symbols⟩ := by
        simpa only [List.forall_mem_cons] using symbols
      have lone : cs.length % 4 ≠ 1 := (Nat.add_mod_right cs.length 4) ▸ lone
      have ⟨a, h, two⟩ := h.two h₀ h₁ (c₂ :: c₃ :: cs)
      have ⟨a, h, third⟩ := h.third h₂ (c₃ :: cs)
      have ⟨a, h, fourth⟩ := h.fourth h₃ cs
      rw [two, third, fourth, ih h lone symbols, h₀, h₁, h₂, h₃]
      simp only [Option.bind_eq_bind, Option.bind_some]
      cases decodeGroups? cs <;> rfl

end Accumulator

end RecordDecoding.Base64
