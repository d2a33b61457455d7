namespace RecordDecoding.Hex

def digit (d : Nat) : Char :=
  if d < 10 then Char.ofNat ('0'.toNat + d) else Char.ofNat ('a'.toNat + (d - 10))

def value? (c : Char) : Option Nat :=
  if '0' ≤ c ∧ c ≤ '9' then some (c.toNat - '0'.toNat)
  else if 'a' ≤ c ∧ c ≤ 'f' then some (c.toNat - 'a'.toNat + 10)
  else if 'A' ≤ c ∧ c ≤ 'F' then some (c.toNat - 'A'.toNat + 10)
  else none

-- The last `width` digits of a number, the most significant first.
def fixed : (width n : Nat) → List Char
  | 0, _ => []
  | width + 1, n => fixed width (n / 16) ++ [digit (n % 16)]

-- A number without leading zeros.
def plain (n : Nat) : List Char :=
  fixed (Nat.log2 n / 4 + 1) n

def read? (cs : List Char) : Option Nat :=
  cs.foldlM (fun n c => return n * 16 + (← value? c)) 0

-- Bytes as pairs of digits.
def ofBytes (bytes : List UInt8) : String :=
  String.ofList (bytes.flatMap fun b => fixed 2 b.toNat)

-- The bytes that pairs of digits stand for.
def toBytes? : List Char → Option (List UInt8)
  | [] => some []
  | [_] => none
  | a :: b :: cs => do
    let byte ← read? [a, b]
    return UInt8.ofNat byte :: (← toBytes? cs)

@[simp] theorem length_fixed (width n : Nat) : (fixed width n).length = width := by
  induction width generalizing n with
  | zero => rfl
  | succ _ ih => simp [fixed, ih]

theorem value?_digit : ∀ d < 16, value? (digit d) = some d := by
  decide

theorem digit_ascii : ∀ d < 16, digit d ≠ '-' ∧ (digit d).toNat < 128 := by
  decide

theorem mem_fixed {c : Char} {width n : Nat} (h : c ∈ fixed width n) : c ≠ '-' ∧ c.toNat < 128 := by
  induction width generalizing n with
  | zero => cases h
  | succ _ ih =>
    cases List.mem_append.mp h with
    | inl h => exact ih h
    | inr h => exact List.mem_singleton.mp h ▸ digit_ascii _ (Nat.mod_lt _ (by decide))

theorem read?_concat (cs : List Char) (c : Char) :
    read? (cs ++ [c]) = (read? cs).bind fun n => (value? c).map (n * 16 + ·) := by
  simp only [read?, List.foldlM_append, List.foldlM_cons, List.foldlM_nil, Option.map_eq_bind]
  cases List.foldlM (fun n c => do return n * 16 + (← value? c)) 0 cs <;> cases value? c <;> rfl

theorem read?_fixed (width n : Nat) : read? (fixed width n) = some (n % Nat.pow 16 width) := by
  induction width generalizing n with
  | zero => simp [fixed, read?, Nat.mod_one]
  | succ k ih =>
    have next : Nat.pow 16 (k + 1) = 16 * Nat.pow 16 k := Nat.mul_comm _ _
    rw [fixed, read?_concat, ih, value?_digit _ (Nat.mod_lt _ (by decide)), next, Nat.mod_mul]
    simp [Nat.mul_comm, Nat.add_comm]

end RecordDecoding.Hex
