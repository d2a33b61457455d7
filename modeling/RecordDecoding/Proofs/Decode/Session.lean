import RecordDecoding.Decode.Members
import RecordDecoding.Proofs.Lockstep

namespace RecordDecoding

open Decoding Forward

variable {σ α : Type} [Cursor σ] {s : Session σ} {name : MemberName} {e : CursorError}

namespace Decoding

theorem run_kind_bind (s : Session σ) (g : TokenKind → Decoding σ α) :
    (kind >>= g).run s = (g (Cursor.kind s.cursor)).run s :=
  rfl

theorem run_fieldName_bind (h : Cursor.fieldName s.cursor = .ok name)
    (g : MemberName → Decoding σ α) : (fieldName >>= g).run s = (g name).run s := by
  simp only [run_bind, fieldName, check, h]
  rfl

theorem run_fieldName_bind_error (h : Cursor.fieldName s.cursor = .error e)
    (g : MemberName → Decoding σ α) : (fieldName >>= g).run s = .error (.cursor e) s := by
  simp only [run_bind, fieldName, check, h]
  rfl

theorem run_onCursor_bind {β : Type} {x : Forward CursorError σ β} {b : β} {c : σ}
    (h : x.run s.cursor = .ok b c) (g : β → Decoding σ α) :
    (onCursor x >>= g).run s = (g b).run { s with cursor := c } := by
  simp only [run_bind, onCursor, h]

end Decoding

namespace ValueDecoding

variable {v : ValueDecoding σ} {schema : Schema} {field : Field} {fields : List Field}
variable {f : Filling} {opt : DecodeOptions}

-- A name that is matched counts as recognised if it is the very one that the field was given.
theorem run_matchName (schema : Schema) (s : Session σ) (h : name.text = field.name) :
    (matchName schema field name).run s = .ok true { s with
      stats := { s.stats with
        identityHits := s.stats.identityHits + if name = schema.nameOf field then 1 else 0 } } := by
  unfold matchName
  by_cases given : name = schema.nameOf field
  case pos =>
    rw [if_pos given, if_pos given]
    rfl
  case neg =>
    rw [if_neg given, if_pos h, if_neg given]
    rfl

theorem run_matchName_miss (schema : Schema) (s : Session σ) (h : name.text ≠ field.name) :
    ∃ log, (matchName schema field name).run s = .ok false { s with log } := by
  have hi : name ≠ schema.nameOf field := fun he => h (congrArg MemberName.text he)
  simp only [matchName, if_neg hi, if_neg h]
  exact ⟨_, rfl⟩

theorem run_inOrder_stop (hk : Cursor.kind s.cursor ≠ .fieldName) :
    (v.inOrder schema fields f).run s = .ok f s := by
  cases fields
  case nil => rfl
  case cons =>
    rw [inOrder, run_kind_bind]
    split <;> first | rfl | contradiction

theorem run_inOrder_error (hk : Cursor.kind s.cursor = .fieldName)
    (hn : Cursor.fieldName s.cursor = .error e) :
    (v.inOrder schema (field :: fields) f).run s = .error (.cursor e) s := by
  rw [inOrder, run_kind_bind, hk]
  exact run_fieldName_bind_error hn _

theorem run_inOrder_miss (v : ValueDecoding σ) (schema : Schema) (fields : List Field)
    (f : Filling) (hk : Cursor.kind s.cursor = .fieldName)
    (hn : Cursor.fieldName s.cursor = .ok name) (h : name.text ≠ field.name) :
    ∃ log, (v.inOrder schema (field :: fields) f).run s = .ok f { s with log } := by
  have ⟨log, hm⟩ := run_matchName_miss schema s h
  rw [inOrder, run_kind_bind, hk]
  dsimp only
  rw [run_fieldName_bind hn, run_bind, hm]
  exact ⟨log, rfl⟩

theorem run_inOrder_match (v : ValueDecoding σ) (schema : Schema) (fields : List Field)
    (f : Filling) (hk : Cursor.kind s.cursor = .fieldName)
    (hn : Cursor.fieldName s.cursor = .ok name) (h : name.text = field.name) :
    (v.inOrder schema (field :: fields) f).run s = Forward.run (do
      advance
      let f ← v.store schema field f
      count fun s => { s with inOrder := s.inOrder + 1 }
      advance
      v.inOrder schema fields f) { s with
        stats := { s.stats with
          identityHits :=
            s.stats.identityHits + if name = schema.nameOf field then 1 else 0 } } := by
  rw [inOrder, run_kind_bind, hk]
  dsimp only
  rw [run_fieldName_bind hn, run_bind, run_matchName schema s h]
  rfl

theorem dispatch_eq (f : Filling) : v.dispatch opt schema f =
    v.lookedUp opt schema f >>= Sum.elim (fun f => advance >>= fun _ => v.dispatch opt schema f)
      pure :=
  loop_eq f

theorem run_dispatch_error (hk : Cursor.kind s.cursor = .fieldName)
    (hn : Cursor.fieldName s.cursor = .error e) :
    (v.dispatch opt schema f).run s = .error (.cursor e) s := by
  rw [dispatch_eq, lookedUp, bind_assoc, run_kind_bind, hk]
  dsimp only
  rw [bind_assoc]
  exact run_fieldName_bind_error hn _

theorem run_dispatch_known (hk : Cursor.kind s.cursor = .fieldName)
    (hn : Cursor.fieldName s.cursor = .ok name) (h : schema.fieldNamed? name.text = some field) :
    (v.dispatch opt schema f).run s = Forward.run (do
      advance
      let f ← v.store schema field f
      count fun s => { s with dispatched := s.dispatched + 1 }
      advance
      v.dispatch opt schema f) s := by
  rw [dispatch_eq, lookedUp, bind_assoc, run_kind_bind, hk]
  dsimp only
  rw [bind_assoc, run_fieldName_bind hn]
  simp only [h, bind_assoc, pure_bind, Sum.elim_inl]

theorem run_dispatch_unknown (hk : Cursor.kind s.cursor = .fieldName)
    (hn : Cursor.fieldName s.cursor = .ok name) (h : schema.fieldNamed? name.text = none) :
    (v.dispatch opt schema f).run s = Forward.run (do
      skipMember opt schema name.text
      advance
      v.dispatch opt schema f) s := by
  conv => lhs; rw [dispatch_eq, lookedUp, bind_assoc, run_kind_bind, hk]
  dsimp only
  rw [bind_assoc, run_fieldName_bind hn]
  simp only [h, bind_assoc, pure_bind, Sum.elim_inl]

end ValueDecoding
end RecordDecoding
