import RecordDecoding.Decode.Record
import RecordDecoding.Proofs.Decode.Session

namespace RecordDecoding

open Decoding Forward

-- Steps that are put together from some of which more is known.
inductive Forward.Composed {ε σ : Type} [Readable σ] (Atom : {α : Type} → Forward ε σ α → Prop) :
    {α : Type} → Forward ε σ α → Prop
  | atom {α} {x : Forward ε σ α} : Atom x → Composed Atom x
  | pure {α} (a : α) : Composed Atom (Pure.pure a)
  | bind {α β} {x : Forward ε σ α} {f : α → Forward ε σ β} : Composed Atom x →
    (∀ a, Composed Atom (f a)) → Composed Atom (x >>= f)
  | loop {α β} {next : Forward ε σ Unit} {reads : next.Reads} {step : β → Forward ε σ (β ⊕ α)}
    (b : β) : Composed Atom next → (∀ b, Composed Atom (step b)) →
    Composed Atom (Forward.loop next reads step b)

variable {σ α β : Type} [Cursor σ]

-- What skipping a value does to a cursor.
inductive Cursor.Atom : {α : Type} → Forward CursorError σ α → Prop
  | kind : Atom (view Cursor.kind)
  | advance : Atom Cursor.advance

-- Once the token has been read, only an error looks at the session again.
theorem Level.scalar_eq [UuidFormat] (schema : Schema) (field : Field) (k : ScalarKind) :
    Level.scalar schema field k = (do
      match ← view fun s : Session σ => k.read s.cursor with
      | .ok v => return v
      | .error (.mismatch expected actual) => Level.mismatch schema field expected actual
      | .error (.invalid reason) =>
        Forward.fail (.invalidScalar schema.typeName field.name k reason (← position))
      | .error (.source e) => Forward.fail (.cursor e)) :=
  rfl

namespace Decoding

-- The name of a member where there is one, and the kind of any other token.
def heading : Decoding σ ({k : TokenKind // k ≠ .fieldName} ⊕ MemberName) :=
  check fun s =>
    if h : Cursor.kind s.cursor = .fieldName then
      (.inr <$> Cursor.fieldName s.cursor).mapError .cursor
    else .ok (.inl ⟨Cursor.kind s.cursor, h⟩)

-- What decoding does to a session. The account is kept without regard to the cursor, and only what
-- reads the cursor may fail with an error of the cursor.
inductive Atom [UuidFormat] : {α : Type} → Decoding σ α → Prop
  | kind : Atom kind
  | position : Atom position
  | heading : Atom heading
  | scalar (schema : Schema) (field : Field) (k : ScalarKind) : Atom (Level.scalar schema field k)
  | fail {α : Type} {e : DecodeError} : (∀ e', e ≠ .cursor e') →
    Atom (Forward.fail e : Decoding σ α)
  | note {f : Session σ → Session σ} {hf : ∀ s, left (f s) ≤ left s} :
    (∀ s c, f { s with cursor := c } = { f s with cursor := c }) → Atom (change f hf)
  | onCursor {α : Type} {x : Forward CursorError σ α} : Forward.Composed Cursor.Atom x →
    Atom (onCursor x)

abbrev Composed [UuidFormat] (x : Decoding σ α) : Prop :=
  Forward.Composed Atom x

omit [Cursor σ] in
theorem cursor_of_note {f : Session σ → Session σ}
    (h : ∀ s c, f { s with cursor := c } = { f s with cursor := c }) (s : Session σ) :
    (f s).cursor = s.cursor := by
  have same := congrArg Session.cursor (h s s.cursor)
  exact same

end Decoding

variable [UuidFormat]

namespace Forward.Composed

theorem kind {f : TokenKind → Decoding σ β} (h : ∀ k, Decoding.Composed (f k)) :
    Decoding.Composed (Decoding.kind >>= f) :=
  .bind (.atom .kind) h

-- The name is asked for where the kind is that of a name.
theorem named {f : TokenKind → Decoding σ α} {g : MemberName → Decoding σ α}
    (hf : f .fieldName = fieldName >>= g) (hg : ∀ name, Decoding.Composed (g name))
    (others : ∀ k ≠ .fieldName, Decoding.Composed (f k)) :
    Decoding.Composed (Decoding.kind >>= f) := by
  have eq : Decoding.kind >>= f = heading >>= Sum.elim (fun k => f k.1) g := by
    refine ext fun s => ?_
    by_cases h : Cursor.kind s.cursor = .fieldName
    case pos =>
      rw [run_kind_bind, h, hf]
      simp only [run_bind, fieldName, heading, check, h, dif_pos]
      cases Cursor.fieldName s.cursor <;> rfl
    case neg =>
      rw [run_kind_bind]
      simp only [run_bind, heading, check, dif_neg h, Sum.elim_inl]
  rw [eq]
  refine .bind (.atom .heading) fun r => ?_
  cases r
  case inl k    => exact others k.1 k.2
  case inr name => exact hg name

theorem fail {e : DecodeError} (he : ∀ e', e ≠ .cursor e' := by simp) :
    Decoding.Composed (Forward.fail e : Decoding σ α) :=
  .atom (.fail he)

-- A failure that tells the position.
theorem failAt {e : Option Position → DecodeError}
    (he : ∀ pos e', e pos ≠ .cursor e' := by simp) :
    Decoding.Composed (position >>= fun pos => (Forward.fail (e pos) : Decoding σ α)) :=
  .bind (.atom .position) fun pos => .fail (he pos)

theorem note {f : Session σ → Session σ} {hf} {x : Decoding σ α} (hx : Decoding.Composed x)
    (h : ∀ s c, f { s with cursor := c } = { f s with cursor := c } := by intros; rfl) :
    Decoding.Composed (Forward.change f hf >>= fun _ => x) :=
  .bind (.atom (.note h)) fun _ => hx

theorem advance : Decoding.Composed (Decoding.advance (σ := σ)) :=
  .atom (.onCursor (.atom .advance))

theorem skipValue : Decoding.Composed (Decoding.onCursor (Cursor.skipValue (σ := σ))) := by
  refine .atom (.onCursor (.bind (.atom .kind) fun k => ?_))
  split
  case isFalse => exact .pure ()
  case isTrue =>
    refine .bind (.atom .advance) fun _ => .loop 1 (.atom .advance) fun depth => ?_
    refine .bind (.atom .kind) fun k => ?_
    cases Cursor.depthAfter depth k <;> exact .pure _

end Forward.Composed

open Decoding (Composed)

namespace ValueDecoding

-- However values are decoded, that is put together from the steps of decoding.
def Composes (v : ValueDecoding σ) : Prop :=
  ∀ schema field k, Composed (v schema field k)

namespace Composes

variable {v : ValueDecoding σ} {schema : Schema} {field : Field} (f : Filling)
variable (composes : v.Composes)
include composes

theorem state : Composed (v.state schema field) := by
  refine .kind fun k => ?_
  cases k
  case null =>
    dsimp only
    split
    · exact .failAt
    · exact .pure _
  all_goals exact .bind (composes ..) fun _ => .pure _

theorem store : Composed (v.store schema field f) :=
  .bind composes.state fun _ => .pure _

omit composes in
theorem matchName (name : MemberName) :
    Composed (ValueDecoding.matchName (σ := σ) schema field name) := by
  unfold ValueDecoding.matchName
  split
  · exact .note (.pure _)
  · split
    · exact .pure _
    · exact .note (.pure _)

theorem inOrder (fields : List Field) : Composed (v.inOrder schema fields f) := by
  induction fields generalizing f
  case nil => exact .pure _
  case cons field fields ih =>
    refine .named rfl (fun name => .bind (matchName name) fun found => ?_) fun k hk => ?_
    case refine_1 =>
      split
      case isTrue =>
        refine .bind .advance fun _ => .bind (composes.store f) fun f => ?_
        exact .note (.bind .advance fun _ => ih f)
      case isFalse => exact .pure _
    case refine_2 => cases k <;> first | exact absurd rfl hk | exact .pure _

omit composes in
theorem skipMember (opt : DecodeOptions) (name : String) :
    Composed (ValueDecoding.skipMember (σ := σ) opt schema name) := by
  unfold ValueDecoding.skipMember
  split
  · exact .failAt
  · exact .note (.bind .advance fun _ => .bind .skipValue fun _ => .atom (.note fun _ _ => rfl))

theorem lookedUp (opt : DecodeOptions) : Composed (v.lookedUp opt schema f) := by
  refine .named rfl (fun name => ?_) fun k hk => ?_
  case refine_1 =>
    split
    case h_1 => exact .bind .advance fun _ => .bind (composes.store f) fun f => .note (.pure _)
    case h_2 => exact .bind (skipMember opt _) fun _ => .pure _
  case refine_2 =>
    cases k
    case fieldName => exact absurd rfl hk
    case objectEnd => exact .pure _
    all_goals exact .failAt

theorem members (opt : DecodeOptions) : Composed (v.members opt schema) := by
  have complete (f : Filling) : Composed (f.complete (σ := σ) schema) := by
    unfold Filling.complete
    split
    · exact .pure _
    · exact .note .failAt
  have dispatch (f : Filling) : Composed (v.dispatch opt schema f) :=
    .loop f .advance fun f => composes.lookedUp f opt
  unfold ValueDecoding.members
  split
  · refine .bind (composes.inOrder _ _) fun f => .bind (dispatch f) complete
  · rw [pure_bind]
    exact .bind (dispatch _) complete

end Composes
end ValueDecoding

namespace Level

variable {set : SchemaSet} {opt : DecodeOptions} {schema : Schema} {field : Field}

-- The next level is put together likewise, if there is one.
def Composes (level : Option (Level σ)) : Prop :=
  ∀ l ∈ level, l.value.Composes

namespace Composes

variable {level : Option (Level σ)} (composes : Composes level)
include composes

theorem enter {f : Level σ → Decoding σ α} (h : ∀ l : Level σ, l.value.Composes → Composed (f l)) :
    Composed (Level.enter opt level >>= f) := by
  cases level
  case none   =>
    have stop : Level.enter opt none >>= f = Forward.fail (.depthExceeded opt.maxDepth) :=
      ext fun _ => rfl
    rw [stop]
    exact .fail
  case some l =>
    have pass : Level.enter opt (some l) >>= f = reachDepth l.depth >>= fun _ => f l :=
      ext fun _ => rfl
    rw [pass]
    exact .note (h l (composes l rfl))

theorem object (schema : Schema) : Composed (Level.object opt level schema) :=
  composes.enter fun _ values => .note (.bind .advance fun _ => values.members opt)

theorem list (schema : Schema) (field : Field) (inner : FieldKind) :
    Composed (Level.list opt level schema field inner) := by
  refine composes.enter fun l values => .bind .advance fun _ => .loop _ .advance fun items => ?_
  refine .kind fun k => ?_
  cases k
  case arrayEnd => exact .pure _
  case null     => exact .failAt
  all_goals
    dsimp only
    split
    · exact .fail
    · exact .note (.bind (values ..) fun _ => .pure _)

theorem nested (schema : Schema) (field : Field) (target : Schema) :
    Composed (Level.nested opt level schema field target) := by
  refine .kind fun k => ?_
  cases k
  case objectStart => exact .note (.bind (composes.object target) fun _ => .pure _)
  all_goals exact .failAt

theorem decodeValue : (Level.decodeValue set opt level).Composes := by
  intro schema field k
  cases k
  case scalar k  => exact .atom (.scalar schema field k)
  case recursive => exact composes.nested schema field schema
  case nested id =>
    simp only [Level.decodeValue]
    split
    · exact composes.nested ..
    · exact .fail
  case list inner =>
    refine .kind fun k => ?_
    cases k
    case arrayStart => exact .bind (composes.list schema field inner) fun _ => .pure _
    all_goals exact .failAt

omit composes in
theorem next (room : Nat) : Composes (Level.next (σ := σ) set opt room) := by
  induction room
  case zero         => exact nofun
  case succ room ih =>
    rintro _ ⟨⟩
    exact decodeValue ih

end Composes
end Level

theorem Decoding.Composed.decodeRecord (set : SchemaSet) (id : SchemaId) (opt : DecodeOptions) :
    Composed (decodeRecord (σ := σ) set id opt) := by
  unfold RecordDecoding.decodeRecord
  split
  case h_2 => exact .fail
  case h_1 =>
    refine .kind fun k => ?_
    cases k
    case null        => exact .pure _
    case objectStart => exact .bind ((Level.Composes.next _).object _) fun _ => .pure _
    all_goals exact .failAt

end RecordDecoding
