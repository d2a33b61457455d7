import RecordDecoding.Cursor.Basic
import RecordDecoding.Proofs.Lockstep

namespace RecordDecoding

namespace Forward

variable {ε σ α β : Type} [Readable σ]

-- Steps that do the same wherever less than so much is left to read.
def Agree (n : Nat) (x y : Forward ε σ α) : Prop :=
  ∀ ⦃s⦄, left s < n → x.run s = y.run s

namespace Agree

variable {n m : Nat} {x y : Forward ε σ α} {f g : α → Forward ε σ β}

theorem zero : Agree 0 x y :=
  fun _ h => absurd h (Nat.not_lt_zero _)

theorem refl (x : Forward ε σ α) : Agree n x x :=
  fun _ _ => rfl

theorem mono (h : Agree m x y) (hn : n ≤ m) : Agree n x y :=
  fun _ hs => h (Nat.lt_of_lt_of_le hs hn)

theorem bind (hx : Agree n x y) (hf : ∀ a, Agree n (f a) (g a)) : Agree n (x >>= f) (y >>= g) := by
  intro s hs
  rw [run_bind, run_bind, ← hx hs]
  cases hr : x.run s
  case error => rfl
  case ok    => exact hf _ (Nat.lt_of_le_of_lt (left_le_of_run_ok hr) hs)

theorem after (x : Forward ε σ α) (hf : ∀ a, Agree n (f a) (g a)) : Agree n (x >>= f) (x >>= g) :=
  (refl x).bind hf

-- Behind a step that reads something, less is left.
theorem read (hx : x.Reads) (hf : ∀ a, Agree n (f a) (g a)) :
    Agree (n + 1) (x >>= f) (x >>= g) := by
  intro s hs
  rw [run_bind, run_bind]
  cases hr : x.run s
  case error => rfl
  case ok    => exact hf _ (Nat.lt_of_lt_of_le (hx hr) (Nat.le_of_lt_succ hs))

end Agree

-- A loop with so many rounds, and `beyond` in place of one more.
def loopWithin (beyond : Forward ε σ α) (next : Forward ε σ Unit) (step : β → Forward ε σ (β ⊕ α)) :
    (rounds : Nat) → β → Forward ε σ α
  | 0, _          => beyond
  | rounds + 1, b => step b >>= Sum.elim
      (fun b' => next >>= fun _ => loopWithin beyond next step rounds b') Pure.pure

-- The induction is on the rounds. Each of them leaves less to read.
theorem Agree.loop {n rounds : Nat} {beyond : Forward ε σ α} {next : Forward ε σ Unit}
    {reads : next.Reads} {step step' : β → Forward ε σ (β ⊕ α)}
    (h : ∀ b, Agree n (step b) (step' b)) (hn : n ≤ rounds) (b : β) :
    Agree n (loopWithin beyond next step rounds b) (loop next reads step' b) := by
  induction rounds generalizing n b
  case zero => exact Nat.le_zero.mp hn ▸ .zero
  case succ rounds ih =>
    cases n
    case zero   => exact .zero
    case succ n =>
      rw [loopWithin, loop_eq]
      refine (h b).bind fun r => ?_
      cases r
      case inl b' =>
        have less (b : β) : Agree n (step b) (step' b) := (h b).mono (Nat.le_succ n)
        exact .read reads fun _ => ih less (Nat.le_of_succ_le_succ hn) b'
      case inr a  => exact .refl _

end Forward

namespace Cursor

open Forward

variable {σ : Type} [Cursor σ]

-- Skips the current value in so many rounds.
def skipWithin (beyond : Forward CursorError σ Unit) (rounds : Nat) :
    Forward CursorError σ Unit := do
  if (← view kind).opensContainer then
    advance
    loopWithin beyond advance skipValue.close rounds 1

theorem skipWithin_agrees {beyond : Forward CursorError σ Unit} {n rounds : Nat} (hn : n ≤ rounds) :
    Agree n (skipWithin beyond rounds) skipValue := by
  refine .after _ fun k => ?_
  split
  case isFalse => exact .refl _
  case isTrue  => exact .after _ fun _ => .loop (fun _ => .refl _) hn 1

end Cursor

end RecordDecoding
