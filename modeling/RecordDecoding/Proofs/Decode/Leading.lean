import RecordDecoding.Proofs.Decode.Session
import RecordDecoding.Proofs.Promises

namespace RecordDecoding

open Decoding Forward

variable {σ α β γ : Type} [Cursor σ]

def Decoding.Leads (E : DecodeError → σ → Prop) (x : Decoding σ α) (P : σ → Prop)
    (Q : α → σ → Prop) : Prop :=
  x.Meets (fun s => P s.cursor) (fun a s => Q a s.cursor) fun e s => E e s.cursor

namespace Decoding.Leads

variable {E E' : DecodeError → σ → Prop} {x : Decoding σ α} {f : α → Decoding σ β}
variable {P P' : σ → Prop} {R R' : α → σ → Prop} {Q : β → σ → Prop}

theorem imp (h : Leads E x P R) (hp : ∀ {c}, P' c → P c) (hr : ∀ {a c}, R a c → R' a c) :
    Leads E x P' R' :=
  Meets.imp h hp hr id

theorem pure {a : α} (h : ∀ {c}, P c → R a c) : Leads E (pure a) P R :=
  Meets.pure h

theorem fail {e : DecodeError} (h : ∀ {c}, P c → E e c) : Leads E (Forward.fail e) P R :=
  Meets.fail h

theorem bind (hx : Leads E x P R) (hf : ∀ a, Leads E (f a) (R a) Q) : Leads E (x >>= f) P Q :=
  Meets.bind hx hf

theorem kind {f : TokenKind → Decoding σ β}
    (h : ∀ k, Leads E (f k) (fun c => P c ∧ Cursor.kind c = k) Q) :
    Leads E (Decoding.kind >>= f) P Q :=
  Meets.view h

-- What is only noted down in the session may come first.
theorem noting {g : Session σ → Session σ} {hg} {x : Decoding σ β}
    (h : ∀ s, (g s).cursor = s.cursor) (hx : Leads E x P Q) :
    Leads E (Forward.change g hg >>= fun _ => x) P Q :=
  Meets.bind (A := fun _ (s : Session σ) => P s.cursor)
    (.change fun {s} hs => by rwa [h s]) fun _ => hx

-- What is known of the step itself.
theorem of_and {q : Prop} (h : q → Leads E x P R) : Leads E x (fun c => q ∧ P c) R :=
  fun _ ⟨hq, hs⟩ => h hq hs

-- Each state may be looked at by itself.
theorem of_eq (h : ∀ c, P c → Leads E x (· = c) R) : Leads E x P R :=
  fun s hs => h s.cursor hs rfl

theorem and (h : Leads E x P R) (h' : Leads E' x P R') :
    Leads E x P fun a c => R a c ∧ R' a c := by
  intro s hs
  have sat := h hs
  have sat' := h' hs
  generalize x.run s = o at sat sat'
  cases sat
  case error h => exact .error h
  case ok h =>
    cases sat'
    case ok h' => exact .ok ⟨h, h'⟩

-- Each round takes something from `P` on up to `M`, and what is left of it is to move on.
theorem loop {step : γ → Decoding σ (γ ⊕ α)} {M : γ → σ → Prop} {P : γ → σ → Prop}
    (hstep : ∀ b, Leads E (step b) (P b) (Sum.elim M R))
    (hnext : ∀ b, Leads E Decoding.advance (M b) fun _ => P b) (b : γ) :
    Leads E (Forward.loop Decoding.advance advance_reads step b) (P b) R := by
  refine Meets.loop (J := fun b (s : Session σ) => P b s.cursor)
    (M := fun b (s : Session σ) => M b s.cursor)
    (fun b => Meets.imp (hstep b) id (fun {next s} h => ?_) id) hnext b
  cases next <;> exact h

theorem onCursor {x : Forward CursorError σ α}
    (h : x.Meets P R fun e c => E (.cursor e) c) : Leads E (Decoding.onCursor x) P R := by
  intro s hs
  have sat := h hs
  simp only [Decoding.onCursor]
  generalize x.run s.cursor = o at sat
  cases sat
  case ok h    => exact .ok h
  case error h => exact .error h

theorem fieldName {f : MemberName → Decoding σ β}
    (named : ∀ name, Leads E (f name) (fun c => P c ∧ Cursor.fieldName c = .ok name) Q)
    (fails : ∀ {c e}, P c → Cursor.fieldName c = .error e → E (.cursor e) c) :
    Leads E (Decoding.fieldName >>= f) P Q := by
  intro s hs
  cases hn : Cursor.fieldName s.cursor
  case ok name =>
    rw [run_fieldName_bind hn]
    exact named name ⟨hs, hn⟩
  case error e =>
    rw [run_fieldName_bind_error hn]
    exact .error (fails hs hn)

-- Names match only if their texts do.
theorem matchName (schema : Schema) (field : Field) (name : MemberName) :
    Leads E (ValueDecoding.matchName schema field name) P
      fun found c => (found → name.text = field.name) ∧ P c := by
  unfold ValueDecoding.matchName
  split
  case isTrue h => exact noting (fun _ => rfl) (.pure fun hc => ⟨fun _ => by rw [h]; rfl, hc⟩)
  case isFalse =>
    split
    case isTrue h => exact .pure fun hc => ⟨fun _ => h, hc⟩
    case isFalse  => exact noting (fun _ => rfl) (.pure fun hc => ⟨nofun, hc⟩)

end Decoding.Leads
end RecordDecoding
