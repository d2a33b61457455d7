import RecordDecoding.Proofs.Decode.Correspondence
import RecordDecoding.Proofs.Decode.Verdict

namespace RecordDecoding

open Decoding Forward

variable [UuidFormat]

structure Feed (σ : Type) [Cursor σ] where
  -- The cursor sits on the first of these tokens, and so many are before it.
  On : σ → Nat → List Token → Prop
  read : LeafReading
  -- The error on the left may stand for the one on the right.
  error : DecodeError → DecodeError → Prop
  kind_eq {c index token tokens} : On c index (token :: tokens) → Cursor.kind c = token.kind
  fieldName {c index name tokens} : On c index (.fieldName name :: tokens) →
    Cursor.fieldName c = .ok name
  advance {c index token tokens} : On c index (token :: tokens) → tokens ≠ [] →
    ∃ c', Cursor.advance.run c = .ok () c' ∧ On c' (index + 1) tokens
  scalar {s : Session σ} {index l tokens} (schema field k) :
    On s.cursor index (l.token :: tokens) →
    ((Level.scalar schema field k).run s).Gives error (· = s)
      ((read index k l).mapError (.scalarAt schema field k))
  error_refl (e) : error e e
  -- The position of an error may be told or not.
  error_at {c index tokens} (e : DecodeError) : On c index tokens →
    error (e.at (Cursor.position c)) (e.at none)

namespace Feed

variable {σ : Type} [Cursor σ] (feed : Feed σ)

-- The cursor sits on the token before these.
def Before (c : σ) (index : Nat) (tokens : List Token) : Prop :=
  ∃ token before, feed.On c before (token :: tokens) ∧ before + 1 = index

variable {feed} {c : σ} {index : Nat} {token : Token} {tokens : List Token}

theorem before (h : feed.On c index (token :: tokens)) : feed.Before c (index + 1) tokens :=
  ⟨token, index, h, rfl⟩

theorem Before.advance (h : feed.Before c index tokens) (ht : tokens ≠ []) :
    ∃ c', Cursor.advance.run c = .ok () c' ∧ feed.On c' index tokens := by
  obtain ⟨_, _, on, rfl⟩ := h
  exact feed.advance on ht

end Feed

namespace TokenTree

variable {σ : Type} [Cursor σ] {feed : Feed σ}
variable {c : σ} {index : Nat} {token : Token} {tokens : List Token}

theorem kind_of_on {t : TokenTree} (h : feed.On c index (t.tokens ++ tokens)) :
    Cursor.kind c = t.kind := by
  cases t <;> exact feed.kind_eq h

-- A null is its only token.
theorem before_of_null {t : TokenTree} (h : feed.On c index (t.tokens ++ tokens))
    (hk : t.kind = .null) : feed.Before c (index + t.size) tokens := by
  cases t
  case leaf => exact feed.before h
  all_goals cases hk

section Skip

open Cursor

variable {depth depth' : Nat}

abbrev skipping (depth : Nat) : Forward CursorError σ Unit :=
  loop advance advance_reads skipValue.close depth

theorem run_skipping (depth depth' : Nat) (h : feed.On c index (token :: tokens))
    (hd : depthAfter depth token.kind = depth' + 1) (ht : tokens ≠ []) :
    ∃ c', feed.On c' (index + 1) tokens ∧
      (skipping depth).run c = (skipping (depth' + 1)).run c' := by
  have ⟨c', ha, hc⟩ := feed.advance h ht
  have close : (skipValue.close depth).run c = .ok (.inl (depth' + 1)) c := by
    simp [skipValue.close, feed.kind_eq h, hd]
  refine ⟨c', hc, ?_⟩
  rw [skipping, run_loop, close]
  simp [ha]

mutual

-- Inside a container that is skipped, whole values are passed over.
theorem run_skipping_tree : ∀ (t : TokenTree) (depth : Nat) {tokens : List Token} {c : σ}
    {index : Nat}, feed.On c index (t.tokens ++ tokens) → tokens ≠ [] →
    ∃ c', feed.On c' (index + t.size) tokens ∧
      (skipping (depth + 1)).run c = (skipping (depth + 1)).run c'
  | leaf l, depth, _, _, index, h, ht => by
    have hd : depthAfter (depth + 1) l.token.kind = depth + 1 := by
      simp [depthAfter, l.opensContainer_eq_false, l.closesContainer_eq_false]
    exact run_skipping (depth + 1) depth h hd ht
  | array items, depth, _, _, index, h, ht => by
    simp only [TokenTree.tokens, List.cons_append, List.append_assoc, List.nil_append] at h
    have ⟨c₁, h₁, e₁⟩ := run_skipping (depth + 1) (depth + 1) h rfl (by simp)
    have ⟨c₂, h₂, e₂⟩ := run_skipping_items items (depth + 1) h₁ (by simp)
    have ⟨c₃, h₃, e₃⟩ := run_skipping (depth + 2) depth h₂ rfl ht
    refine ⟨c₃, ?_, e₁.trans (e₂.trans e₃)⟩
    rw [size_array]
    convert h₃ using 1
    omega
  | object members, depth, _, _, index, h, ht => by
    simp only [TokenTree.tokens, List.cons_append, List.append_assoc, List.nil_append] at h
    have ⟨c₁, h₁, e₁⟩ := run_skipping (depth + 1) (depth + 1) h rfl (by simp)
    have ⟨c₂, h₂, e₂⟩ := run_skipping_members members (depth + 1) h₁ (by simp)
    have ⟨c₃, h₃, e₃⟩ := run_skipping (depth + 2) depth h₂ rfl ht
    refine ⟨c₃, ?_, e₁.trans (e₂.trans e₃)⟩
    rw [size_object]
    convert h₃ using 1
    omega

theorem run_skipping_items : ∀ (items : List TokenTree) (depth : Nat) {tokens : List Token}
    {c : σ} {index : Nat}, feed.On c index (itemTokens items ++ tokens) → tokens ≠ [] →
    ∃ c', feed.On c' (index + (itemTokens items).length) tokens ∧
      (skipping (depth + 1)).run c = (skipping (depth + 1)).run c'
  | [], _, _, c, _, h, _ => ⟨c, h, rfl⟩
  | item :: items, depth, _, _, index, h, ht => by
    simp only [itemTokens, List.append_assoc] at h
    have ⟨c₁, h₁, e₁⟩ := run_skipping_tree item depth h (by simp [ht])
    have ⟨c₂, h₂, e₂⟩ := run_skipping_items items depth h₁ ht
    refine ⟨c₂, ?_, e₁.trans e₂⟩
    rw [itemTokens, List.length_append, ← Nat.add_assoc]
    exact h₂

theorem run_skipping_members : ∀ (members : List (MemberName × TokenTree)) (depth : Nat)
    {tokens : List Token} {c : σ} {index : Nat},
    feed.On c index (memberTokens members ++ tokens) → tokens ≠ [] →
    ∃ c', feed.On c' (index + (memberTokens members).length) tokens ∧
      (skipping (depth + 1)).run c = (skipping (depth + 1)).run c'
  | [], _, _, c, _, h, _ => ⟨c, h, rfl⟩
  | (name, value) :: members, depth, _, _, index, h, ht => by
    simp only [memberTokens, List.cons_append, List.append_assoc] at h
    have ⟨c₁, h₁, e₁⟩ := run_skipping (depth + 1) depth h rfl (by simp [ht])
    have ⟨c₂, h₂, e₂⟩ := run_skipping_tree value depth h₁ (by simp [ht])
    have ⟨c₃, h₃, e₃⟩ := run_skipping_members members depth h₂ ht
    refine ⟨c₃, ?_, e₁.trans (e₂.trans e₃)⟩
    rw [memberTokens, List.length_cons, List.length_append]
    convert h₃ using 1
    simp only [size]
    omega

end

theorem run_skipping_end (h : feed.On c index (token :: tokens))
    (hd : depthAfter depth token.kind = 0) : (skipping depth).run c = .ok () c := by
  have close : (skipValue.close depth).run c = .ok (.inr ()) c := by
    simp [skipValue.close, feed.kind_eq h, hd]
  rw [skipping, run_loop, close]

-- A container is skipped up to its end, given that what is inside is passed over.
theorem run_skipValue_container {first last : Token} {inner : List Token}
    (h : feed.On c index (first :: (inner ++ last :: tokens))) (hf : first.kind.opensContainer)
    (hl : depthAfter 1 last.kind = 0)
    (hi : ∀ {c}, feed.On c (index + 1) (inner ++ last :: tokens) → ∃ c',
      feed.On c' (index + 1 + inner.length) (last :: tokens) ∧
        (skipping 1).run c = (skipping 1).run c') :
    ∃ c', skipValue.run c = .ok () c' ∧ feed.Before c' (index + (inner.length + 2)) tokens := by
  have ⟨c₁, ha, h₁⟩ := feed.advance h (by simp)
  have ⟨c₂, h₂, e₂⟩ := hi h₁
  refine ⟨c₂, ?_, ?_⟩
  · simp [skipValue, feed.kind_eq h, hf, ha, e₂, run_skipping_end h₂ hl]
  · convert feed.before h₂ using 1
    omega

theorem run_skipValue (t : TokenTree) (h : feed.On c index (t.tokens ++ tokens)) :
    ∃ c', skipValue.run c = .ok () c' ∧ feed.Before c' (index + t.size) tokens := by
  cases t
  case leaf l =>
    refine ⟨c, ?_, feed.before h⟩
    simp [skipValue, kind_of_on h, kind, l.opensContainer_eq_false]
  case array items =>
    rw [size_array]
    simp only [TokenTree.tokens, List.cons_append, List.append_assoc, List.nil_append] at h
    exact run_skipValue_container h rfl rfl fun h => run_skipping_items items 0 h (by simp)
  case object members =>
    rw [size_object]
    simp only [TokenTree.tokens, List.cons_append, List.append_assoc, List.nil_append] at h
    exact run_skipValue_container h rfl rfl fun h => run_skipping_members members 0 h (by simp)

end Skip
end TokenTree
end RecordDecoding
