import RecordDecoding.Proofs.Promises

namespace RecordDecoding

open Forward

-- A change of states that makes steps stop early. It goes unnoticed from `Live` states on, unless a
-- step ends in a `Past` state; then the changed one is `Stopped` by an error.
structure Cutting (ε σ : Type) where
  cut : σ → σ
  Live : σ → Prop
  Past : σ → Prop
  Stopped : ε → σ → Prop

namespace Cutting

variable {ε σ α β : Type} (C : Cutting ε σ)

-- How a step ends, and how it ends where it is cut.
inductive Ends : Outcome ε σ α → Outcome ε σ α → Prop
  | ok {a s} : C.Live s → Ends (.ok a s) (.ok a (C.cut s))
  | error {e s} : ¬C.Past s → Ends (.error e s) (.error e (C.cut s))
  | stopped {o e t} : C.Past o.state → C.Stopped e t → Ends o (.error e t)

variable [Readable σ]

structure Cuts (x : Forward ε σ α) : Prop where
  past : x.Meets C.Past (fun _ => C.Past) fun _ => C.Past
  ends : ∀ {s}, C.Live s → C.Ends (x.run s) (x.run (C.cut s))

variable {C} {x : Forward ε σ α} {f : α → Forward ε σ β}

omit [Readable σ] in
theorem past_of_satisfies {o : Outcome ε σ α}
    (h : o.Satisfies (fun _ => C.Past) fun _ => C.Past) : C.Past o.state := by
  cases h <;> assumption

-- What follows a step that is cut is cut with it.
theorem ends_bind {s : σ} (hx : C.Ends (x.run s) (x.run (C.cut s)))
    (past : ∀ a, (f a).Meets C.Past (fun _ => C.Past) fun _ => C.Past)
    (hf : ∀ {a s'}, x.run s = .ok a s' → C.Live s' →
      C.Ends ((f a).run s') ((f a).run (C.cut s'))) :
    C.Ends ((x >>= f).run s) ((x >>= f).run (C.cut s)) := by
  rw [run_bind, run_bind]
  generalize x.run s = o, x.run (C.cut s) = o' at hx hf
  cases hx
  case ok h    => exact hf rfl h
  case error h => exact .error h
  case stopped stops h =>
    refine .stopped ?_ stops
    cases o
    case error => exact h
    case ok    => exact past_of_satisfies (past _ h)

namespace Cuts

theorem pure (a : α) : C.Cuts (Pure.pure a : Forward ε σ α) where
  past := .pure id
  ends h := .ok h

theorem view {g : σ → α} (h : ∀ s, g (C.cut s) = g s) : C.Cuts (Forward.view g) where
  past _ hs := .ok hs
  ends {s} hs := by
    rw [run_view, run_view, h]
    exact .ok hs

theorem check {g : σ → Except ε α} (live : ∀ {s}, C.Live s → ¬C.Past s)
    (h : ∀ s, g (C.cut s) = g s) : C.Cuts (Forward.check g) where
  past s hs := by
    simp only [Forward.check]
    split
    · exact .ok hs
    · exact .error hs
  ends {s} hs := by
    simp only [Forward.check, h]
    cases g s
    case ok    => exact .ok hs
    case error => exact .error (live hs)

theorem change {g : σ → σ} {hg} (h : ∀ s, g (C.cut s) = C.cut (g s))
    (live : ∀ s, C.Live s → C.Live (g s)) (past : ∀ s, C.Past s → C.Past (g s)) :
    C.Cuts (Forward.change g hg) where
  past := .change (past _)
  ends {s} hs := by
    rw [run_change, run_change, h]
    exact .ok (live s hs)

theorem fail (e : ε) (h : ∀ {s}, C.Live s → ¬C.Past s) :
    C.Cuts (Forward.fail e : Forward ε σ α) where
  past := .fail id
  ends hs := .error (h hs)

theorem bind (hx : C.Cuts x) (hf : ∀ a, C.Cuts (f a)) : C.Cuts (x >>= f) where
  past := hx.past.bind fun a => (hf a).past
  ends hs := ends_bind (hx.ends hs) (fun a => (hf a).past) fun _ => (hf _).ends

section Loop

variable {next : Forward ε σ Unit} {reads : next.Reads} {step : β → Forward ε σ (β ⊕ α)}
variable (hnext : C.Cuts next) (hstep : ∀ b, C.Cuts (step b))
include hnext hstep

theorem past_loop (b : β) :
    (Forward.loop next reads step b).Meets C.Past (fun _ => C.Past) fun _ => C.Past := by
  refine .loop (J := fun _ => C.Past) (M := fun _ => C.Past) (fun b => ?_) (fun _ => hnext.past) b
  exact (hstep b).past.imp id (fun {c _} h => by cases c <;> exact h) id

-- The induction is on what there is left to read.
theorem loop (b : β) : C.Cuts (Forward.loop next reads step b) where
  past := past_loop hnext hstep b
  ends {s} hs := by
    have past (b : β) : (Forward.loop next reads step b).Meets _ _ _ := past_loop hnext hstep b
    induction hn : left s using Nat.strongRecOn generalizing b s
    case ind ih =>
      rw [loop_eq]
      refine ends_bind ((hstep b).ends hs) (fun c => ?_) fun {c s₁} hx hs₁ => ?_
      · cases c
        case inl b => exact hnext.past.bind fun _ => past b
        case inr c => exact .pure id
      · cases c
        case inr c => exact .ok hs₁
        case inl b =>
          refine ends_bind (hnext.ends hs₁) (fun _ => past b) fun {_ s₂} hy hs₂ => ?_
          have lt := Nat.lt_of_lt_of_le (reads hy) (left_le_of_run_ok hx)
          exact ih _ (hn ▸ lt) b hs₂ rfl

end Loop

end Cuts
end Cutting
end RecordDecoding
