import RecordDecoding.Proofs.Decode.Feeding
import RecordDecoding.Proofs.Decode.Leading
import RecordDecoding.Proofs.Json.Walking

namespace RecordDecoding

open Decoding Forward

-- An error that blames the value, and neither the source of the tokens nor the set of schemas.
def DecodeError.BlamesValue : DecodeError → Prop
  | cursor _ | unknownSchema _ => False
  | _                          => True

variable [UuidFormat]

-- A walk of which is also known how accessors fail on the way, and which errors decoding may end
-- with.
structure Passage extends Walk where
  Errs : DecodeError → Prop
  fails {e : CursorError} : Fails e → Errs (.cursor e)
  blames {e : DecodeError} : e.BlamesValue → Errs e
  name {c : TextCursor} {e : CursorError} : On c → c.kind = .fieldName → c.fieldName = .error e →
    Errs (.cursor e)
  scalar {c : TextCursor} {k : ScalarKind} {e : CursorError} : On c →
    k.read c = .error (.source e) → Errs (.cursor e)

-- A walk of which it does not matter what decoding fails with.
def Walk.passage (w : Walk) : Passage where
  toWalk := w
  Errs _ := True
  fails _ := trivial
  blames _ := trivial
  name _ _ _ := trivial
  scalar _ _ := trivial

namespace Passage

variable {α β : Type} (p : Passage)

-- A step from one sort of place to another.
def Takes (x : Decoding TextCursor α) (P : TextCursor → Prop) (Q : α → TextCursor → Prop) : Prop :=
  Leads (fun e _ => p.Errs e) x P Q

variable {p}

namespace Takes

variable {P : TextCursor → Prop} {R : α → TextCursor → Prop} {Q : β → TextCursor → Prop}

theorem fail {e : DecodeError} (he : e.BlamesValue) : p.Takes (Forward.fail e) P R :=
  Leads.fail fun _ => p.blames he

-- A failure that tells the position.
theorem failAt {e : Option Position → DecodeError} (he : ∀ pos, (e pos).BlamesValue) :
    p.Takes (position >>= fun pos => Forward.fail (e pos)) P R :=
  Meets.view fun pos => Meets.fail fun _ => p.blames (he pos)

theorem onCursor {x : Forward CursorError TextCursor α} (h : x.Meets P R fun e _ => p.Fails e) :
    p.Takes (onCursor x) P R :=
  Leads.onCursor (Meets.imp h id id p.fails)

variable {inner : List Container}

theorem fieldName {f : MemberName → Decoding TextCursor β}
    (h : ∀ name, p.Takes (f name) (fun c => p.AtMember inner c ∧ c.kind = .fieldName) Q) :
    p.Takes (Decoding.fieldName >>= f) (fun c => p.AtMember inner c ∧ c.kind = .fieldName) Q :=
  Leads.fieldName (fun name => Leads.imp (h name) And.left id) fun h hn => p.name h.1.on h.2 hn

end Takes

-- A value that is decoded for a field in a scope is taken up to its last token.
def Passes (p : Passage) {set : SchemaSet} (scope : set.Scope) (v : ValueDecoding TextCursor) :
    Prop :=
  ∀ {schema : Schema}, scope.schemas schema → ∀ field {k}, scope.Has k →
    ∀ inner, p.Takes (v schema field k) (p.Before inner) fun _ => p.Behind inner

namespace Passes

open Walk

variable {set : SchemaSet} {scope : set.Scope} {v : ValueDecoding TextCursor} {schema : Schema}
variable {field : Field} {inner : List Container} (f : Filling)
variable (passes : p.Passes scope v) (hs : scope.schemas schema)
include passes hs

theorem state (hf : field ∈ schema.fields) :
    p.Takes (v.state schema field) (p.Before inner) fun _ => p.Behind inner := by
  refine .kind fun k => ?_
  cases k
  case null =>
    dsimp only
    split
    · exact Takes.failAt fun _ => trivial
    · exact .pure fun ⟨h, hk⟩ => ⟨h.on, h.begins.ends (congrArg TokenKind.opensContainer hk)⟩
  all_goals
    refine Leads.bind ((passes hs field (scope.among hs hf) inner).imp And.left id) fun _ => ?_
    exact .pure id

theorem store (hf : field ∈ schema.fields) :
    p.Takes (v.store schema field f) (p.Before inner) fun _ => p.Behind inner :=
  (passes.state hs hf).bind fun _ => .pure id

theorem inOrder {fields : List Field} (sub : fields ⊆ schema.fields) :
    p.Takes (v.inOrder schema fields f) (p.AtMember inner) fun _ => p.AtMember inner := by
  induction fields generalizing f
  case nil => exact .pure id
  case cons field fields ih =>
    have ⟨hf, sub⟩ := List.cons_subset.mp sub
    refine .kind fun k => ?_
    cases k
    case fieldName =>
      refine Takes.fieldName fun name => ?_
      refine Leads.bind (Leads.imp (.matchName schema field name) id And.right) fun found => ?_
      split
      case isTrue =>
        refine (Takes.onCursor advance_to_value).bind fun _ => ?_
        refine (passes.store f hs hf).bind fun f => .noting (fun _ => rfl) ?_
        exact (Takes.onCursor advance_to_member).bind fun _ => ih f sub
      case isFalse => exact .pure And.left
    all_goals exact .pure And.left

omit passes hs in
theorem skipMember (opt : DecodeOptions) (schema : Schema) (name : String) :
    p.Takes (ValueDecoding.skipMember opt schema name)
      (fun c => p.AtMember inner c ∧ c.kind = .fieldName) fun _ => p.Behind (.object :: inner) := by
  unfold ValueDecoding.skipMember
  split
  · exact Takes.failAt fun _ => trivial
  · refine .noting (fun _ => rfl) ((Takes.onCursor advance_to_value).bind fun _ => ?_)
    refine (Takes.onCursor skipValue_meets).bind fun _ => ?_
    exact Meets.change id

theorem lookedUp (opt : DecodeOptions) : p.Takes (v.lookedUp opt schema f) (p.AtMember inner)
    (Sum.elim (fun _ => p.Behind (.object :: inner)) fun _ => p.Behind inner) := by
  refine .kind fun k => ?_
  cases k
  case objectEnd =>
    refine .pure fun {c} ⟨h, hk⟩ => ⟨h.on, (h.place.ends ?_).2⟩
    rw [show c.place.kind = _ from hk]
    nofun
  case fieldName =>
    refine Takes.fieldName fun name => ?_
    split
    case h_1 hf =>
      have hf := Schema.mem_of_fieldNamed? hf
      refine (Takes.onCursor advance_to_value).bind fun _ => (passes.store f hs hf).bind fun f => ?_
      exact .noting (fun _ => rfl) (.pure id)
    case h_2 => exact (skipMember opt schema _).bind fun _ => .pure id
  all_goals exact Takes.failAt fun _ => trivial

theorem dispatch (opt : DecodeOptions) :
    p.Takes (v.dispatch opt schema f) (p.AtMember inner) fun _ => p.Behind inner :=
  .loop (fun f => passes.lookedUp f hs opt) (fun _ => Takes.onCursor advance_to_member) f

theorem members (opt : DecodeOptions) :
    p.Takes (v.members opt schema) (p.AtMember inner) fun _ => p.Behind inner := by
  have complete (f : Filling) :
      p.Takes (f.complete (σ := TextCursor) schema) (p.Behind inner) fun _ => p.Behind inner := by
    unfold Filling.complete
    split
    · exact .pure id
    · exact .noting (fun _ => rfl) (Takes.failAt fun _ => trivial)
  unfold ValueDecoding.members
  split
  · refine (passes.inOrder _ hs (List.Subset.refl _)).bind fun f => ?_
    exact (passes.dispatch f hs opt).bind complete
  · exact (passes.dispatch _ hs opt).bind complete

end Passes

-- The values inside of the next level are taken as they should be, if there is one.
def PassesLevel (p : Passage) {set : SchemaSet} (scope : set.Scope)
    (level : Option (Level TextCursor)) : Prop :=
  ∀ l ∈ level, p.Passes scope l.value

namespace PassesLevel

open Walk

variable {set : SchemaSet} {scope : set.Scope} {level : Option (Level TextCursor)} {schema : Schema}
variable {opt : DecodeOptions} {inner : List Container}
variable (passes : p.PassesLevel scope level) (hs : scope.schemas schema)
include passes

theorem enter {P : TextCursor → Prop} :
    p.Takes (Level.enter opt level) P fun l c => p.Passes scope l.value ∧ P c := by
  cases level
  case none   => exact Takes.fail trivial
  case some l => exact .noting (fun _ => rfl) (.pure fun h => ⟨passes l rfl, h⟩)

theorem object (hs : scope.schemas schema) : p.Takes (Level.object opt level schema)
    (fun c => p.Before inner c ∧ c.kind = .objectStart) fun _ => p.Behind inner := by
  refine passes.enter.bind fun _ => .of_and fun values => .noting (fun _ => rfl) ?_
  exact (Takes.onCursor advance_to_first_member).bind fun _ => values.members hs opt

theorem list (hs : scope.schemas schema) (field : Field) {k : FieldKind} (hk : scope.Has k) :
    p.Takes (Level.list opt level schema field k)
      (fun c => p.Before inner c ∧ c.kind = .arrayStart) fun _ => p.Behind inner := by
  refine passes.enter.bind fun l => .of_and fun values => ?_
  refine (Takes.onCursor advance_to_first_item).bind fun _ => ?_
  refine .loop (fun items => .kind fun k => ?_) (fun _ => Takes.onCursor advance_to_item) []
  cases k
  case arrayEnd => exact .pure fun ⟨h, hk⟩ => ⟨h.on, h.place.ends hk⟩
  case null     => exact Takes.failAt fun _ => trivial
  all_goals
    dsimp only
    split
    · exact Takes.fail trivial
    · refine .noting (fun _ => rfl) ?_
      refine Leads.bind ((values hs field hk _).imp (fun ⟨h, hk⟩ => ?_) id) fun _ => .pure id
      refine ⟨h.on, h.place.begins fun he => ?_⟩
      cases hk.symm.trans he

theorem nested {target : Schema} (hs : scope.schemas target) (schema : Schema) (field : Field) :
    p.Takes (Level.nested opt level schema field target) (p.Before inner)
      fun _ => p.Behind inner := by
  refine .kind fun k => ?_
  cases k
  case objectStart => exact .noting (fun _ => rfl) ((passes.object hs).bind fun _ => .pure id)
  all_goals exact Takes.failAt fun _ => trivial

omit passes in
theorem scalar (schema : Schema) (field : Field) (k : ScalarKind) :
    p.Takes (Level.scalar schema field k) (p.Before inner) fun _ => p.Behind inner := by
  intro s h
  simp only [Level.scalar, Level.mismatch, run_bind, run_look]
  cases hr : k.read s.cursor
  case error fault =>
    cases fault
    case source e => exact .error (p.scalar h.on hr)
    all_goals exact .error (p.blames trivial)
  case ok =>
    unfold ScalarKind.read at hr
    split at hr
    case isFalse   => cases hr
    case isTrue hk => exact .ok ⟨h.on, h.begins.ends (ScalarKind.not_opensContainer hk)⟩

theorem decodeValue : p.Passes scope (Level.decodeValue set opt level) := by
  intro schema hs field k hk inner
  cases k
  case scalar k => exact scalar schema field k
  case nested id =>
    have ⟨target, ht, hs⟩ := hk.get
    simp only [Level.decodeValue, ht]
    exact passes.nested hs schema field
  case recursive => exact passes.nested hs schema field
  case list k =>
    refine .kind fun kind => ?_
    cases kind
    case arrayStart => exact (passes.list hs field hk.inner).bind fun _ => .pure id
    all_goals exact Takes.failAt fun _ => trivial

omit passes in
theorem next (room : Nat) : p.PassesLevel scope (Level.next set opt room) := by
  induction room
  case zero         => exact nofun
  case succ room ih =>
    rintro _ ⟨⟩
    exact decodeValue ih

end PassesLevel

-- The root is one value.
theorem decodeRecord_takes (p : Passage) {set : SchemaSet} (wf : set.WellFormed) {id : SchemaId}
    {schema : Schema} (found : set.get? id = some schema) (opt : DecodeOptions)
    (inner : List Container) :
    p.Takes (decodeRecord set id opt) (p.Before inner) fun _ => p.Behind inner := by
  have passes : p.PassesLevel wf.all (Level.next set opt opt.maxDepth) := .next opt.maxDepth
  have hs : schema ∈ set.schemas := List.mem_of_getElem? found
  simp only [decodeRecord, found]
  refine .kind fun k => ?_
  cases k
  case null =>
    exact .pure fun h => ⟨h.1.on, h.1.begins.ends (congrArg TokenKind.opensContainer h.2)⟩
  case objectStart => exact (passes.object hs).bind fun _ => .pure fun h => h
  all_goals exact Takes.failAt fun _ => trivial

end Passage
end RecordDecoding
