import RecordDecoding.Proofs.Answers
import RecordDecoding.Proofs.Lockstep

namespace RecordDecoding

variable {ε σ α β γ : Type}

-- An end of which one thing holds if it is an answer, and another if it is an error.
inductive Outcome.Satisfies (A : α → σ → Prop) (E : ε → σ → Prop) : Outcome ε σ α → Prop
  | ok {a s} : A a s → Satisfies A E (.ok a s)
  | error {e s} : E e s → Satisfies A E (.error e s)

namespace Forward

variable [Readable σ]

def Answers (x : Forward ε σ α) (A : α → Prop) : Prop :=
  ∀ ⦃s a s'⦄, x.run s = .ok a s' → A a

namespace Answers

variable {x : Forward ε σ α} {f : α → Forward ε σ β} {A A' : α → Prop} {B : β → Prop}

theorem imp (hx : x.Answers A) (h : ∀ {a}, A a → A' a) : x.Answers A' :=
  fun _ _ _ hr => h (hx hr)

theorem pure {a : α} (h : A a) : (pure a : Forward ε σ α).Answers A := by
  intro _ _ _ hr
  cases hr
  exact h

theorem fail (e : ε) : (Forward.fail e : Forward ε σ α).Answers A :=
  nofun

theorem bind (hx : x.Answers A) (hf : ∀ {a}, A a → (f a).Answers B) : (x >>= f).Answers B := by
  intro _ _ _ h
  have ⟨_, _, hr, h⟩ := exists_of_bind_ok h
  exact hf (hx hr) h

-- What comes after a step may promise something by itself.
theorem after (hf : ∀ a, (f a).Answers B) : (x >>= f).Answers B :=
  bind (A := fun _ => True) (fun _ _ _ _ => trivial) fun _ => hf _

theorem loop {next : Forward ε σ Unit} {reads : next.Reads} {step : α → Forward ε σ (α ⊕ β)}
    (h : ∀ {a}, A a → (step a).Answers (Sum.elim A B)) {a : α} (ha : A a) :
    (loop next reads step a).Answers B := by
  intro _ _ _ hr
  refine loop_ok (P := fun a _ b _ => A a → B b) ?stop ?more hr ha
  case stop => exact fun hs ha => h ha hs
  case more => exact fun hs _ ih ha => ih (h ha hs)

end Answers

-- From states of a sort, the step answers and leaves behind what `A` says, or fails as `E` says.
def Meets (x : Forward ε σ α) (P : σ → Prop) (A : α → σ → Prop) (E : ε → σ → Prop) : Prop :=
  ∀ ⦃s⦄, P s → (x.run s).Satisfies A E

namespace Meets

variable {x : Forward ε σ α} {f : α → Forward ε σ β} {P P' : σ → Prop} {A A' : α → σ → Prop}
  {B : β → σ → Prop} {E E' : ε → σ → Prop}

theorem imp (h : x.Meets P A E) (hp : ∀ {s}, P' s → P s) (ha : ∀ {a s}, A a s → A' a s)
    (he : ∀ {e s}, E e s → E' e s) : x.Meets P' A' E' := by
  intro s hs
  have sat := h (hp hs)
  generalize x.run s = o at sat
  cases sat
  case ok h    => exact .ok (ha h)
  case error h => exact .error (he h)

theorem and_answers {B : α → Prop} (h : x.Meets P A E) (hb : x.Answers B) :
    x.Meets P (fun a s => B a ∧ A a s) E := by
  intro s hs
  have sat := h hs
  generalize hr : x.run s = o at sat
  cases sat
  case ok h    => exact .ok ⟨hb hr, h⟩
  case error h => exact .error h

-- What each end keeps is kept.
theorem state (h : x.Meets P (fun _ => P) fun _ => P) {s : σ} (hs : P s) : P (x.run s).state := by
  have sat := h hs
  generalize x.run s = o at sat
  cases sat <;> assumption

theorem pure {a : α} (h : ∀ {s}, P s → A a s) : (pure a : Forward ε σ α).Meets P A E :=
  fun _ hs => .ok (h hs)

theorem fail {e : ε} (h : ∀ {s}, P s → E e s) : (Forward.fail e : Forward ε σ α).Meets P A E :=
  fun _ hs => .error (h hs)

theorem change {A : Unit → σ → Prop} {g : σ → σ} {hg} (h : ∀ {s}, P s → A () (g s)) :
    (Forward.change g hg : Forward ε σ Unit).Meets P A E :=
  fun _ hs => .ok (h hs)

theorem bind (hx : x.Meets P A E) (hf : ∀ a, (f a).Meets (A a) B E) : (x >>= f).Meets P B E := by
  intro s hs
  have sat := hx hs
  rw [run_bind]
  generalize x.run s = o at sat
  cases sat
  case ok h    => exact hf _ h
  case error h => exact .error h

-- What comes after a view of the state may depend on what is seen.
theorem view {g : σ → γ} {f : γ → Forward ε σ β}
    (h : ∀ a, (f a).Meets (fun s => P s ∧ g s = a) B E) : (Forward.view g >>= f).Meets P B E :=
  fun s hs => h (g s) ⟨hs, rfl⟩

-- Each round goes from `J` over `M` to `J` again.
theorem loop {next : Forward ε σ Unit} {reads : next.Reads} {step : α → Forward ε σ (α ⊕ β)}
    {J M : α → σ → Prop} (hstep : ∀ a, (step a).Meets (J a) (Sum.elim M B) E)
    (hnext : ∀ a, next.Meets (M a) (fun _ => J a) E) (a : α) :
    (loop next reads step a).Meets (J a) B E := by
  intro s hs
  induction hn : left s using Nat.strongRecOn generalizing a s
  case ind ih =>
    have sat := hstep a hs
    rw [run_loop]
    generalize hx : (step a).run s = o at sat
    cases sat
    case error h => exact .error h
    case ok c s₁ h =>
      cases c
      case inr => exact .ok h
      case inl a' =>
        have sat := hnext a' h
        dsimp only
        generalize hy : next.run s₁ = o at sat
        cases sat
        case error h => exact .error h
        case ok s₂ h =>
          have lt := Nat.lt_of_lt_of_le (reads hy) (left_le_of_run_ok hx)
          exact ih _ (hn ▸ lt) a' h rfl

end Meets
end Forward
end RecordDecoding
