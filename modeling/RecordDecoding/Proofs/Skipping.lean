import RecordDecoding.Cursor.Basic
import RecordDecoding.Proofs.Lockstep
import RecordDecoding.Proofs.Promises

namespace RecordDecoding

open Forward

variable {σ τ : Type} [Cursor σ] [Cursor τ]

namespace Forward

theorem Lockstep.skipValue {R : σ → τ → Prop} {E : CursorError → CursorError → Prop}
    (kind_eq : ∀ {c d}, R c d → Cursor.kind c = Cursor.kind d)
    (advance : Lockstep R E Eq Cursor.advance Cursor.advance) :
    Lockstep R E Eq (Cursor.skipValue (σ := σ)) (Cursor.skipValue (σ := τ)) := by
  have kind : Lockstep R E Eq (Forward.view Cursor.kind) (Forward.view Cursor.kind) := .view kind_eq
  apply kind.bind
  rintro k _ rfl
  split
  case isFalse => exact .pure rfl
  case isTrue =>
    refine advance.seq (.loop (B := Eq) ?_ advance rfl)
    rintro depth _ rfl
    apply kind.bind
    rintro k _ rfl
    cases Cursor.depthAfter depth k
    case zero => exact .pure (.inr rfl)
    case succ => exact .pure (.inl rfl)

-- Inside a container that is being skipped, `J` holds with the number of containers that were open
-- before the current token.
theorem Meets.skipValue {P Q : σ → Prop} {J : Nat → σ → Prop} {E : CursorError → σ → Prop}
    (scalar : ∀ {c}, P c → (Cursor.kind c).opensContainer = false → Q c)
    (start : Cursor.advance.Meets (fun c => P c ∧ (Cursor.kind c).opensContainer)
      (fun _ => J 1) E)
    (more : ∀ depth, Cursor.advance.Meets
      (fun c => ∃ before, J before c ∧ Cursor.depthAfter before (Cursor.kind c) = depth + 1)
      (fun _ => J (depth + 1)) E)
    (stop : ∀ {depth c}, J depth c → Cursor.depthAfter depth (Cursor.kind c) = 0 → Q c) :
    Cursor.skipValue.Meets P (fun _ => Q) E := by
  refine .view fun k => ?_
  split
  case isFalse hk => exact .pure fun h => scalar h.1 (by simpa [h.2] using hk)
  case isTrue hk =>
    refine Meets.bind (start.imp (fun h => ⟨h.1, h.2 ▸ hk⟩) id id) fun _ => ?_
    refine .loop (M := fun depth c => ∃ before, J before c ∧
      Cursor.depthAfter before (Cursor.kind c) = depth ∧ depth ≠ 0) (fun depth => ?_)
      (fun depth => ?_) 1
    · refine .view fun k => ?_
      cases hd : Cursor.depthAfter depth k
      case zero => exact .pure fun h => stop h.1 (h.2 ▸ hd)
      case succ => exact .pure fun h => ⟨depth, h.1, h.2 ▸ hd, Nat.succ_ne_zero _⟩
    · cases depth
      case zero =>
        rintro _ ⟨_, _, _, ne⟩
        exact absurd rfl ne
      case succ depth =>
        refine (more depth).imp ?_ id id
        rintro _ ⟨before, hj, hd, _⟩
        exact ⟨before, hj, hd⟩

-- What moving on keeps is kept.
theorem Meets.skipValue_of_advance {P : σ → Prop} {E : CursorError → σ → Prop}
    (h : Cursor.advance.Meets P (fun _ => P) E) : Cursor.skipValue.Meets P (fun _ => P) E :=
  .skipValue (J := fun _ => P) (fun h _ => h) (h.imp And.left id id)
    (fun _ => h.imp (fun ⟨_, h, _⟩ => h) id id) fun h _ => h

end Forward

namespace Cursor

-- Moves on until so many containers are closed that are open behind the current token.
def leave : Nat → Forward CursorError σ Unit
  | 0         => pure ()
  | depth + 1 => advance >>= fun _ => loop advance advance_reads skipValue.close (depth + 1)

-- Moves on likewise, where the containers were open before the current token.
def leaveFrom (depth : Nat) : Forward CursorError σ Unit :=
  view kind >>= fun k => leave (depthAfter depth k)

theorem loop_close (depth : Nat) :
    loop advance advance_reads (skipValue.close (σ := σ)) depth = leaveFrom depth := by
  rw [loop_eq, skipValue.close, bind_assoc]
  refine bind_congr fun k => ?_
  cases depthAfter depth k <;> exact pure_bind ..

theorem leave_succ (depth : Nat) :
    leave (σ := σ) (depth + 1) = advance >>= fun _ => leaveFrom (depth + 1) := by
  rw [leave, loop_close]

-- To skip a value is to leave the containers that it opens.
theorem skipValue_eq : skipValue (σ := σ) = leaveFrom 0 := by
  refine Forward.ext fun s => ?_
  simp only [skipValue, leaveFrom, run_bind, run_view, depthAfter]
  cases (kind s).opensContainer
  case true  => rfl
  case false => cases (kind s).closesContainer <;> rfl

end Cursor
end RecordDecoding
