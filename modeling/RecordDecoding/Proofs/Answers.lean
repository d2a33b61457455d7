import Mathlib.Data.List.Forall2
import RecordDecoding.Forward

namespace RecordDecoding

variable {ε σ α β : Type}

theorem exists_of_isOk {x : Except ε α} (h : x.isOk) : ∃ a, x = .ok a := by
  cases x
  case error => cases h
  case ok a  => exact ⟨a, rfl⟩

theorem ok_of_bind_ok {x : Except ε α} {f : α → Except ε β} {b : β} (h : x >>= f = .ok b) :
    ∃ a, x = .ok a ∧ f a = .ok b := by
  cases x
  case error => cases h
  case ok a  => exact ⟨a, rfl, h⟩

theorem error_of_bind_error {x : Except ε α} {f : α → Except ε β} {e : ε} (h : x >>= f = .error e) :
    x = .error e ∨ ∃ a, x = .ok a ∧ f a = .error e := by
  cases x
  case error => exact .inl (congrArg _ (Except.error.inj h))
  case ok a  => exact .inr ⟨a, rfl, h⟩

theorem eq_of_map_eq {f : α → β} (hf : f.Injective) {x y : Except ε α} (h : f <$> x = f <$> y) :
    x = y := by
  cases x <;> cases y
  case error.error => exact congrArg _ (Except.error.inj h)
  case ok.ok       => exact congrArg _ (hf (Except.ok.inj h))
  all_goals nomatch h

theorem mem_of_mapM_ok {f : α → Except ε β} {as : List α} {bs : List β} (h : as.mapM f = .ok bs)
    {b : β} (hb : b ∈ bs) : ∃ a ∈ as, f a = .ok b := by
  induction as generalizing bs
  case nil => cases h; cases hb
  case cons a as ih =>
    rw [List.mapM_cons] at h
    have ⟨b', hf, h⟩ := ok_of_bind_ok h
    have ⟨bs', hm, h⟩ := ok_of_bind_ok h
    cases h
    cases hb
    case head    => exact ⟨a, List.mem_cons_self .., hf⟩
    case tail hb =>
      have ⟨a', ha, hf⟩ := ih hm hb
      exact ⟨a', List.mem_cons_of_mem _ ha, hf⟩

theorem length_of_mapM_ok {f : α → Except ε β} {as : List α} {bs : List β}
    (h : as.mapM f = .ok bs) : bs.length = as.length := by
  induction as generalizing bs
  case nil => cases h; rfl
  case cons a as ih =>
    rw [List.mapM_cons] at h
    have ⟨b', _, h⟩ := ok_of_bind_ok h
    have ⟨bs', hm, h⟩ := ok_of_bind_ok h
    cases h
    exact congrArg (· + 1) (ih hm)

theorem exists_right_of_forall₂ {R : α → β → Prop} {as : List α} {bs : List β} {a : α}
    (h : List.Forall₂ R as bs) (ha : a ∈ as) : ∃ b ∈ bs, R a b := by
  induction h
  case nil => cases ha
  case cons hr _ ih =>
    cases ha
    case head    => exact ⟨_, List.mem_cons_self .., hr⟩
    case tail ha =>
      have ⟨b, hb, hr⟩ := ih ha
      exact ⟨b, List.mem_cons_of_mem _ hb, hr⟩

theorem exists_left_of_forall₂ {R : α → β → Prop} {as : List α} {bs : List β} {b : β}
    (h : List.Forall₂ R as bs) (hb : b ∈ bs) : ∃ a ∈ as, R a b :=
  exists_right_of_forall₂ h.flip hb

theorem map_eq_map_iff_forall₂ {γ : Type} {f : α → γ} {g : β → γ} {as : List α} {bs : List β} :
    as.map f = bs.map g ↔ List.Forall₂ (fun a b => f a = g b) as bs := by
  rw [← List.forall₂_eq_eq_eq, List.forall₂_map_left_iff, List.forall₂_map_right_iff]

theorem map_eq_of_forall₂ {γ : Type} {f : α → γ} {g : β → γ} {as : List α} {bs : List β}
    (h : List.Forall₂ (fun a b => f a = g b) as bs) : as.map f = bs.map g :=
  map_eq_map_iff_forall₂.mpr h

theorem mapM_ok_iff {f : α → Except ε β} {as : List α} {bs : List β} :
    as.mapM f = .ok bs ↔ List.Forall₂ (fun a b => f a = .ok b) as bs := by
  constructor
  case mp =>
    intro h
    induction as generalizing bs
    case nil => cases h; exact .nil
    case cons a as ih =>
      rw [List.mapM_cons] at h
      have ⟨b, hf, h⟩ := ok_of_bind_ok h
      have ⟨bs, hm, h⟩ := ok_of_bind_ok h
      cases h
      exact .cons hf (ih hm)
  case mpr =>
    intro h
    induction h
    case nil => rfl
    case cons hf _ ih =>
      rw [List.mapM_cons, ih, hf]
      rfl

theorem forall₂_of_mapM_ok {γ : Type} {R : γ → α → Prop} {S : γ → β → Prop} {f : α → Except ε β}
    {cs : List γ} {as : List α} {bs : List β} (h : List.Forall₂ R cs as) (hm : as.mapM f = .ok bs)
    (hs : ∀ {c a b}, R c a → f a = .ok b → S c b) : List.Forall₂ S cs bs := by
  have hf := mapM_ok_iff.mp hm
  clear hm
  induction h generalizing bs
  case nil =>
    cases hf
    exact .nil
  case cons hr _ ih =>
    cases hf
    case cons hf hfs => exact .cons (hs hr hf) (ih hfs)

theorem exists_forall₂ {R : α → β → Prop} {as : List α} (h : ∀ a ∈ as, ∃ b, R a b) :
    ∃ bs, List.Forall₂ R as bs := by
  induction as
  case nil => exact ⟨[], .nil⟩
  case cons a as ih =>
    have ⟨ha, has⟩ := List.forall_mem_cons.mp h
    have ⟨b, hb⟩ := ha
    have ⟨bs, hbs⟩ := ih has
    exact ⟨b :: bs, .cons hb hbs⟩

theorem exists_mapM_ok {f : α → Except ε β} {as : List α} (h : ∀ a ∈ as, ∃ b, f a = .ok b) :
    ∃ bs, as.mapM f = .ok bs :=
  have ⟨bs, hbs⟩ := exists_forall₂ h
  ⟨bs, mapM_ok_iff.mpr hbs⟩

namespace Forward

variable [Readable σ] {x : Forward ε σ α} {f : α → Forward ε σ β} {s s' : σ} {a : α} {b : β}

theorem run_bind_of_ok (h : x.run s = .ok a s') : (x >>= f).run s = (f a).run s' := by
  rw [run_bind, h]

theorem exists_of_bind_ok (h : (x >>= f).run s = .ok b s') :
    ∃ a s₁, x.run s = .ok a s₁ ∧ (f a).run s₁ = .ok b s' := by
  rw [run_bind] at h
  split at h
  case h_1 a s₁ hx => exact ⟨a, s₁, hx, h⟩
  case h_2         => cases h

theorem error_of_run_bind {e : ε} (h : (x >>= f).run s = .error e s') :
    x.run s = .error e s' ∨ ∃ a s₁, x.run s = .ok a s₁ ∧ (f a).run s₁ = .error e s' := by
  rw [run_bind] at h
  split at h
  case h_1 a s₁ hx => exact .inr ⟨a, s₁, hx, h⟩
  case h_2 hx      => cases h; exact .inl hx

-- What an answer of a loop says, from the last round of it to the first.
theorem loop_ok {γ : Type} {next : Forward ε σ Unit} {reads : next.Reads}
    {step : β → Forward ε σ (β ⊕ γ)} {P : β → σ → γ → σ → Prop}
    (stop : ∀ {b s c s'}, (step b).run s = .ok (.inr c) s' → P b s c s')
    (more : ∀ {b s b' s₁ s₂ c s'}, (step b).run s = .ok (.inl b') s₁ → next.run s₁ = .ok () s₂ →
      P b' s₂ c s' → P b s c s')
    {b : β} {c : γ} (h : (loop next reads step b).run s = .ok c s') : P b s c s' := by
  induction hn : left s using Nat.strongRecOn generalizing b s
  case ind n ih =>
    rw [run_loop] at h
    split at h
    case h_1 => cases h
    case h_2 hs =>
      cases h
      exact stop hs
    case h_3 b' s₁ hs =>
      split at h
      case h_1 => cases h
      case h_2 s₂ hn' =>
        have lt : left s₂ < left s := Nat.lt_of_lt_of_le (reads hn') (left_le_of_run_ok hs)
        exact more hs hn' (ih _ (hn ▸ lt) h rfl)

end Forward

theorem Outcome.exists_of_result {o : Outcome ε σ α} {a : α} (h : o.result = .ok a) :
    ∃ s, o = .ok a s := by
  cases o <;> cases h
  exact ⟨_, rfl⟩

-- An end that is the answer which was said, or an error that may stand for the one which was said.
inductive Outcome.Gives (E : ε → ε → Prop) (P : σ → Prop) : Outcome ε σ α → Except ε α → Prop
  | ok {a s} : P s → Gives E P (.ok a s) (.ok a)
  | error {e e' s} : E e e' → Gives E P (.error e s) (.error e')

namespace Outcome.Gives

variable {E : ε → ε → Prop} {P Q : σ → Prop} {o : Outcome ε σ α} {r : Except ε α}

theorem result_eq (h : o.Gives Eq P r) : o.result = r := by
  cases h
  case ok      => rfl
  case error h => exact congrArg _ h

theorem of_result {a : α} (h : o.Gives E P r) (ho : o.result = .ok a) : r = .ok a ∧ P o.state := by
  cases h <;> cases ho
  case ok hs => exact ⟨rfl, hs⟩

theorem imp (h : o.Gives E P r) (hp : ∀ {s}, P s → Q s) : o.Gives E Q r := by
  cases h
  case ok h    => exact .ok (hp h)
  case error h => exact .error h

theorem exists_ok {a : α} (h : o.Gives E P (.ok a)) : ∃ s, o = .ok a s ∧ P s := by
  cases h
  case ok s hs => exact ⟨s, rfl, hs⟩

theorem exists_error {e : ε} (h : o.Gives E P (.error e)) : ∃ e' s, o = .error e' s ∧ E e' e := by
  cases h
  case error e' s he => exact ⟨e', s, rfl, he⟩

theorem bind [Readable σ] {x : Forward ε σ α} {f : α → Forward ε σ β} {s : σ} {g : α → Except ε β}
    (h : (x.run s).Gives E P r) (hf : ∀ {a s'}, P s' → ((f a).run s').Gives E Q (g a)) :
    ((x >>= f).run s).Gives E Q (r >>= g) := by
  rw [Forward.run_bind]
  generalize x.run s = o at h
  cases h
  case ok hs    => exact hf hs
  case error he => exact .error he

end Outcome.Gives
end RecordDecoding
