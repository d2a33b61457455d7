import RecordDecoding.Forward

namespace RecordDecoding

variable {ε ε' σ τ α α' β β' : Type}

-- Ends of the same sort whose parts are related.
inductive Outcome.Matches (E : ε → ε' → Prop) (A : α → α' → Prop) (R : σ → τ → Prop) :
    Outcome ε σ α → Outcome ε' τ α' → Prop
  | ok {a a' s t} : A a a' → R s t → Matches E A R (.ok a s) (.ok a' t)
  | error {e e' s t} : E e e' → R s t → Matches E A R (.error e s) (.error e' t)

namespace Outcome.Matches

variable {R : σ → τ → Prop} {o : Outcome ε σ α}

theorem state {E : ε → ε' → Prop} {A : α → α' → Prop} {o' : Outcome ε' τ α'}
    (m : Matches E A R o o') : R o.state o'.state := by
  cases m <;> assumption

theorem result_eq {o' : Outcome ε τ α} (m : Matches Eq Eq R o o') : o.result = o'.result := by
  cases m
  case ok h _    => exact congrArg _ h
  case error h _ => exact congrArg _ h

end Outcome.Matches

namespace Forward

variable [Readable σ] [Readable τ]
variable {E : ε → ε' → Prop} {A : α → α' → Prop} {B : β → β' → Prop} {R : σ → τ → Prop}

def Lockstep (R : σ → τ → Prop) (E : ε → ε' → Prop) (A : α → α' → Prop) (x : Forward ε σ α)
    (y : Forward ε' τ α') : Prop :=
  ∀ ⦃s t⦄, R s t → Outcome.Matches E A R (x.run s) (y.run t)

namespace Lockstep

theorem pure {a : α} {a' : α'} (h : A a a') :
    Lockstep R E A (pure a : Forward ε σ α) (pure a' : Forward ε' τ α') :=
  fun _ _ hs => .ok h hs

theorem fail {e : ε} {e' : ε'} (h : E e e') :
    Lockstep R E A (fail e : Forward ε σ α) (fail e' : Forward ε' τ α') :=
  fun _ _ hs => .error h hs

theorem view {f : σ → α} {g : τ → α'} (h : ∀ {s t}, R s t → A (f s) (g t)) :
    Lockstep R E A (view f : Forward ε σ α) (view g : Forward ε' τ α') :=
  fun _ _ hs => .ok (h hs) hs

theorem change {f : σ → σ} {g : τ → τ} {hf hg} (h : ∀ {s t}, R s t → R (f s) (g t)) :
    Lockstep R E Eq (change f hf : Forward ε σ Unit) (change g hg : Forward ε' τ Unit) :=
  fun _ _ hs => .ok rfl (h hs)

theorem bind {x : Forward ε σ α} {y : Forward ε' τ α'} {f : α → Forward ε σ β}
    {g : α' → Forward ε' τ β'} (h : Lockstep R E A x y)
    (hf : ∀ {a a'}, A a a' → Lockstep R E B (f a) (g a')) :
    Lockstep R E B (x >>= f) (y >>= g) := by
  intro s t hs
  have m := h hs
  simp only [run_bind]
  generalize x.run s = o, y.run t = o' at m
  cases m
  case ok ha hs    => exact hf ha hs
  case error he hs => exact .error he hs

theorem seq {x : Forward ε σ α} {y : Forward ε' τ α} {z : Forward ε σ β} {w : Forward ε' τ β'}
    (h : Lockstep R E Eq x y) (hz : Lockstep R E B z w) :
    Lockstep R E B (x >>= fun _ => z) (y >>= fun _ => w) :=
  h.bind fun _ => hz

end Lockstep

variable {next : Forward ε σ Unit} {reads : next.Reads} {step : β → Forward ε σ (β ⊕ α)}

-- A loop as its first round and what follows it.
theorem loop_eq (b : β) :
    loop next reads step b =
      step b >>= Sum.elim (fun b' => next >>= fun _ => loop next reads step b') Pure.pure := by
  refine ext fun s => ?_
  rw [run_loop, run_bind]
  cases (step b).run s
  case error => rfl
  case ok c s' =>
    cases c
    case inr => rfl
    case inl =>
      simp only [Sum.elim_inl, run_bind]
      cases next.run s' <;> rfl

-- The induction is on what the left side has left to read.
theorem Lockstep.loop {next' : Forward ε' τ Unit} {reads' : next'.Reads}
    {step' : β' → Forward ε' τ (β' ⊕ α')}
    (hstep : ∀ {b b'}, B b b' → Lockstep R E (Sum.LiftRel B A) (step b) (step' b'))
    (hnext : Lockstep R E Eq next next') {b : β} {b' : β'} (hb : B b b') :
    Lockstep R E A (loop next reads step b) (loop next' reads' step' b') := by
  intro s t hs
  induction hn : left s using Nat.strongRecOn generalizing b b' s t
  case ind ih =>
    have m := hstep hb hs
    rw [loop_eq, loop_eq, run_bind, run_bind]
    generalize hx : (step b).run s = o, (step' b').run t = o' at m
    cases m
    case error he hs => exact .error he hs
    case ok hc hs₁ =>
      cases hc
      case inr hc => exact .ok hc hs₁
      case inl s₁ t₁ _ _ hb =>
        have m := hnext hs₁
        simp only [Sum.elim_inl, run_bind]
        generalize hy : next.run s₁ = o, next'.run t₁ = o' at m
        cases m
        case error he hs => exact .error he hs
        case ok _ hs₂ =>
          have lt := Nat.lt_of_lt_of_le (reads hy) (left_le_of_run_ok hx)
          exact ih _ (hn ▸ lt) hb hs₂ rfl

end Forward

end RecordDecoding
