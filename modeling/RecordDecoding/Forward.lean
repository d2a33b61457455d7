namespace RecordDecoding

-- How much of its input a state has left to read.
class Readable (σ : Type) where
  left : σ → Nat

export Readable (left)

-- The end of a step: an answer or an error, and the state it left behind.
inductive Outcome (ε σ α : Type) where
  | ok (value : α) (state : σ)
  | error (error : ε) (state : σ)
  deriving DecidableEq, Repr

namespace Outcome

variable {ε ε' σ τ α β : Type}

def state : Outcome ε σ α → σ
  | ok _ s | error _ s => s

@[simp] theorem state_ok (a : α) (s : σ) : (ok a s : Outcome ε σ α).state = s := rfl

@[simp] theorem state_error (e : ε) (s : σ) : (error e s : Outcome ε σ α).state = s := rfl

def result : Outcome ε σ α → Except ε α
  | ok a _ => .ok a
  | error e _ => .error e

end Outcome

-- A step never leaves more to read than it found, by which a loop ends whose rounds all read.
structure Forward (ε σ : Type) [Readable σ] (α : Type) where
  run : σ → Outcome ε σ α
  run_le (s : σ) : left (run s).state ≤ left s

namespace Forward

variable {ε σ α β γ : Type} [Readable σ]

theorem ext {x y : Forward ε σ α} (h : ∀ s, x.run s = y.run s) : x = y := by
  cases x; cases y
  congr
  exact funext h

theorem left_le_of_run_ok {x : Forward ε σ α} {s s' : σ} {a : α} (h : x.run s = .ok a s') :
    left s' ≤ left s := by
  simpa [h] using x.run_le s

theorem left_le_of_run_error {x : Forward ε σ α} {s s' : σ} {e : ε} (h : x.run s = .error e s') :
    left s' ≤ left s := by
  simpa [h] using x.run_le s

-- The state, as it is.
def look : Forward ε σ σ where
  run s := .ok s s
  run_le _ := Nat.le_refl _

-- Some view of the state.
def view (f : σ → α) : Forward ε σ α where
  run s := .ok (f s) s
  run_le _ := Nat.le_refl _

def fail (e : ε) : Forward ε σ α where
  run s := .error e s
  run_le _ := Nat.le_refl _

def change (f : σ → σ) (h : ∀ s, left (f s) ≤ left s := by intro _; exact Nat.le_refl _) :
    Forward ε σ Unit where
  run s := .ok () (f s)
  run_le := h

-- An answer that depends on the state and leaves it alone.
def check (f : σ → Except ε α) : Forward ε σ α where
  run s := match f s with
    | .ok a => .ok a s
    | .error e => .error e s
  run_le s := by split <;> exact Nat.le_refl _

protected def bind (x : Forward ε σ α) (f : α → Forward ε σ β) : Forward ε σ β where
  run s := match x.run s with
    | .ok a s' => (f a).run s'
    | .error e s' => .error e s'
  run_le s := by
    have h := x.run_le s
    split <;> simp_all
    exact Nat.le_trans ((f _).run_le _) h

instance : Monad (Forward ε σ) where
  pure a := { run := fun s => .ok a s, run_le := fun _ => Nat.le_refl _ }
  bind := Forward.bind

@[simp] theorem run_pure (a : α) (s : σ) : (pure a : Forward ε σ α).run s = .ok a s := rfl

@[simp] theorem run_bind (x : Forward ε σ α) (f : α → Forward ε σ β) (s : σ) :
    (x >>= f).run s = match x.run s with
      | .ok a s' => (f a).run s'
      | .error e s' => .error e s' := rfl

@[simp] theorem run_look (s : σ) : (look : Forward ε σ σ).run s = .ok s s := rfl

@[simp] theorem run_view (f : σ → α) (s : σ) : (view f : Forward ε σ α).run s = .ok (f s) s := rfl

@[simp] theorem run_fail (e : ε) (s : σ) : (fail e : Forward ε σ α).run s = .error e s := rfl

@[simp] theorem run_change (f : σ → σ) (h) (s : σ) :
    (change f h : Forward ε σ Unit).run s = .ok () (f s) := rfl

instance : LawfulMonad (Forward ε σ) := .mk' _
  (fun x => ext fun s => by
    show (match x.run s with | .ok a s' => _ | .error e s' => _) = _
    cases x.run s <;> rfl)
  (fun _ _ => ext fun _ => rfl)
  (fun x f g => ext fun s => by
    simp only [run_bind]
    cases x.run s <;> rfl)

-- A step reads something if it leaves less than it found whenever it succeeds.
def Reads (x : Forward ε σ α) : Prop :=
  ∀ ⦃s a s'⦄, x.run s = .ok a s' → left s' < left s

theorem Reads.bind_left {x : Forward ε σ α} (hx : x.Reads) (f : α → Forward ε σ β) :
    (x >>= f).Reads := by
  intro s b s' h
  simp only [run_bind] at h
  split at h
  case h_1 h' => exact Nat.lt_of_le_of_lt (left_le_of_run_ok h) (hx h')
  case h_2 => cases h

theorem Reads.bind_right (x : Forward ε σ α) {f : α → Forward ε σ β} (hf : ∀ a, (f a).Reads) :
    (x >>= f).Reads := by
  intro s b s' h
  simp only [run_bind] at h
  split at h
  case h_1 h' => exact Nat.lt_of_lt_of_le (hf _ h) (left_le_of_run_ok h')
  case h_2 => cases h

theorem Reads.fail (e : ε) : (Forward.fail e : Forward ε σ α).Reads := by
  intro _ _ _ h
  cases h

-- Repeats `step` and `next` in turn until `step` answers with `inr`. Every round reads something,
-- since `next` does.
def loop (next : Forward ε σ Unit) (reads : next.Reads) (step : β → Forward ε σ (β ⊕ γ)) (b : β) :
    Forward ε σ γ where
  run s := (go b s).1
  run_le s := (go b s).2
where
  go (b : β) (s : σ) : { o : Outcome ε σ γ // left o.state ≤ left s } :=
    match h : (step b).run s with
    | .error e s₁ => ⟨.error e s₁, left_le_of_run_error h⟩
    | .ok (.inr c) s₁ => ⟨.ok c s₁, left_le_of_run_ok h⟩
    | .ok (.inl b') s₁ =>
      match h' : next.run s₁ with
      | .error e s₂ => ⟨.error e s₂, Nat.le_trans (left_le_of_run_error h') (left_le_of_run_ok h)⟩
      | .ok _ s₂ =>
        have lt : left s₂ < left s := Nat.lt_of_lt_of_le (reads h') (left_le_of_run_ok h)
        ⟨(go b' s₂).1, Nat.le_trans (go b' s₂).2 (Nat.le_of_lt lt)⟩
  termination_by left s

-- One round of a loop.
theorem run_loop (next : Forward ε σ Unit) (reads : next.Reads)
    (step : β → Forward ε σ (β ⊕ γ)) (b : β) (s : σ) :
    (loop next reads step b).run s = match (step b).run s with
      | .error e s₁ => .error e s₁
      | .ok (.inr c) s₁ => .ok c s₁
      | .ok (.inl b') s₁ => match next.run s₁ with
        | .error e s₂ => .error e s₂
        | .ok _ s₂ => (loop next reads step b').run s₂ := by
  show (loop.go next reads step b s).1 = _
  rw [loop.go]
  split
  case h_1 h => simp [h]
  case h_2 h => simp [h]
  case h_3 h =>
    simp only [h]
    split
    case h_1 h' => simp [h']
    case h_2 h' => simp [h', loop]

end Forward

end RecordDecoding
