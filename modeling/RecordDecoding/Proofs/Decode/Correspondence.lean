import RecordDecoding.Decode.Record
import RecordDecoding.Proofs.Schema.Scope
import RecordDecoding.Proofs.Skipping

namespace RecordDecoding

open Decoding Forward

-- The same error about a token at another position.
def DecodeError.at (e : DecodeError) (p : Option Position) : DecodeError :=
  match e with
  | tokenMismatch type field expected actual _ => tokenMismatch type field expected actual p
  | nullViolation type field _                 => nullViolation type field p
  | missingFields type fields _                => missingFields type fields p
  | invalidScalar type field kind reason _     => invalidScalar type field kind reason p
  | unknownField type field _                  => unknownField type field p
  | e                                          => e

structure Correspondence (σ τ : Type) where
  cursor : σ → τ → Prop
  stats  : DecodeStats → DecodeStats → Prop
  name   : MemberName → MemberName → Prop
  error  : DecodeError → DecodeError → Prop

namespace Correspondence

section

variable {σ τ α α' : Type} [Cursor σ] [Cursor τ] (K : Correspondence σ τ)

structure Sessions (s : Session σ) (t : Session τ) : Prop where
  cursor : K.cursor s.cursor t.cursor
  stats  : K.stats s.stats t.stats
  extent : s.extent = t.extent

abbrev Steps (A : α → α' → Prop) (x : Decoding σ α) (y : Decoding τ α') : Prop :=
  Lockstep K.Sessions K.error A x y

abbrev CursorSteps (A : α → α' → Prop) (x : Forward CursorError σ α)
    (y : Forward CursorError τ α') : Prop :=
  Lockstep K.cursor (fun e e' => K.error (.cursor e) (.cursor e')) A x y

-- What the relations have to satisfy for decoding to go the same way, where these scalars are read.
structure Lawful [UuidFormat] (scalars : ScalarKind → Prop) : Prop where
  kind_eq {c d} : K.cursor c d → Cursor.kind c = Cursor.kind d
  text_eq {n n'} : K.name n n' → n.text = n'.text
  advance : K.CursorSteps Eq Cursor.advance Cursor.advance
  fieldName : K.Steps K.name fieldName fieldName
  matchName {n n'} (schema field) : K.name n n' →
    K.Steps Eq (ValueDecoding.matchName schema field n) (ValueDecoding.matchName schema field n')
  scalar (schema field) {k} : scalars k →
    K.Steps Eq (Level.scalar schema field k) (Level.scalar schema field k)
  error_refl (e) : K.error e e
  error_at {c d} (e : DecodeError) : K.cursor c d →
    K.error (e.at (Cursor.position c)) (e.at (Cursor.position d))
  objects {s t} : K.stats s t →
    K.stats { s with objects := s.objects + 1 } { t with objects := t.objects + 1 }
  inOrder {s t} : K.stats s t →
    K.stats { s with inOrder := s.inOrder + 1 } { t with inOrder := t.inOrder + 1 }
  dispatched {s t} : K.stats s t →
    K.stats { s with dispatched := s.dispatched + 1 } { t with dispatched := t.dispatched + 1 }
  skipped {s t} : K.stats s t →
    K.stats { s with skipped := s.skipped + 1 } { t with skipped := t.skipped + 1 }

end

variable {σ τ α α' : Type} [Cursor σ] [Cursor τ] {K : Correspondence σ τ} {A : α → α' → Prop}

theorem Steps.onCursor {x : Forward CursorError σ α} {y : Forward CursorError τ α'}
    (h : K.CursorSteps A x y) : K.Steps A (onCursor x) (onCursor y) := by
  intro s t hs
  have m := h hs.cursor
  simp only [Decoding.onCursor]
  generalize x.run s.cursor = o, y.run t.cursor = o' at m
  cases m
  case ok ha hc    => exact .ok ha { hs with cursor := hc }
  case error he hc => exact .error he { hs with cursor := hc }

theorem Steps.count {f g : DecodeStats → DecodeStats}
    (h : ∀ {s t}, K.stats s t → K.stats (f s) (g t)) : K.Steps Eq (count f) (count g) :=
  Lockstep.change fun hs => { hs with stats := h hs.stats }

theorem Steps.report (e e' : Event) : K.Steps Eq (report e) (report e') :=
  Lockstep.change fun hs => { hs with }

theorem Steps.reachDepth (depth : Nat) : K.Steps Eq (reachDepth depth) (reachDepth depth) :=
  Lockstep.change fun hs => { hs with extent := by rw [hs.extent] }

theorem Steps.reachLength (length : Nat) : K.Steps Eq (reachLength length) (reachLength length) :=
  Lockstep.change fun hs => { hs with extent := by rw [hs.extent] }

-- Cursors that give the same name give related names.
theorem Steps.fieldName (same : ∀ {c d}, K.cursor c d → Cursor.fieldName c = Cursor.fieldName d)
    (name : ∀ n, K.name n n) (error : ∀ e, K.error e e) :
    K.Steps K.name Decoding.fieldName Decoding.fieldName := by
  intro s t hs
  simp only [Decoding.fieldName, check, same hs.cursor]
  cases Cursor.fieldName t.cursor
  case ok    => exact .ok (name _) hs
  case error => exact .error (error _) hs

-- The same name is matched in the same way.
theorem Steps.matchName (identityHits : ∀ {s t}, K.stats s t →
      K.stats { s with identityHits := s.identityHits + 1 }
        { t with identityHits := t.identityHits + 1 })
    (schema : Schema) (field : Field) (name : MemberName) :
    K.Steps Eq (ValueDecoding.matchName schema field name)
      (ValueDecoding.matchName schema field name) := by
  unfold ValueDecoding.matchName
  split
  · exact Lockstep.seq (Steps.count identityHits) (.pure rfl)
  · split
    · exact .pure rfl
    · exact (Steps.report ..).seq (.pure rfl)

variable [UuidFormat]

-- A scalar that reads the same on both sides is decoded in the same way.
theorem Steps.scalar {k : ScalarKind} (read : ∀ {c d}, K.cursor c d → k.read c = k.read d)
    (error_refl : ∀ e, K.error e e)
    (error_at : ∀ (e : DecodeError) {c d}, K.cursor c d →
      K.error (e.at (Cursor.position c)) (e.at (Cursor.position d)))
    (schema : Schema) (field : Field) :
    K.Steps Eq (Level.scalar schema field k) (Level.scalar schema field k) := by
  intro s t hs
  simp only [Level.scalar, Level.mismatch, run_bind, run_look, read hs.cursor]
  cases k.read t.cursor
  case ok          => exact .ok rfl hs
  case error fault =>
    cases fault
    case mismatch expected actual =>
      exact .error (error_at (.tokenMismatch _ _ expected actual none) hs.cursor) hs
    case invalid reason => exact .error (error_at (.invalidScalar _ _ k reason none) hs.cursor) hs
    case source         => exact .error (error_refl _) hs

namespace Lawful

variable {scalars : ScalarKind → Prop} (lawful : K.Lawful scalars)
include lawful

theorem kind : K.Steps Eq kind kind :=
  Lockstep.view fun hs => lawful.kind_eq hs.cursor

theorem advance_steps : K.Steps Eq Decoding.advance Decoding.advance :=
  .onCursor lawful.advance

theorem fail (e : DecodeError) : K.Steps A (fail e) (fail e) :=
  Lockstep.fail (lawful.error_refl e)

-- A failure which tells the position of the current token.
theorem failAt (e : DecodeError) :
    K.Steps A (position >>= fun p => Forward.fail (e.at p))
      (position >>= fun p => Forward.fail (e.at p)) :=
  fun _ _ hs => .error (lawful.error_at e hs.cursor) hs

theorem skipValue : K.CursorSteps Eq Cursor.skipValue Cursor.skipValue :=
  .skipValue lawful.kind_eq lawful.advance

end Lawful

variable {set : SchemaSet} {scope : set.Scope}

-- Ways to decode values that correspond for the fields in a scope.
def Values (K : Correspondence σ τ) (scope : set.Scope) (v : ValueDecoding σ)
    (w : ValueDecoding τ) : Prop :=
  ∀ {schema : Schema}, scope.schemas schema →
    ∀ field {k}, scope.Has k → K.Steps Eq (v schema field k) (w schema field k)

namespace Values

variable {v : ValueDecoding σ} {w : ValueDecoding τ} (values : K.Values scope v w)
variable (lawful : K.Lawful scope.scalars) {schema : Schema} (hs : scope.schemas schema)
include values lawful hs

theorem state {field : Field} (hf : field ∈ schema.fields) :
    K.Steps Eq (v.state schema field) (w.state schema field) := by
  apply lawful.kind.bind
  rintro k _ rfl
  cases k
  case null =>
    dsimp only
    split
    · exact lawful.failAt (.nullViolation _ _ none)
    · exact .pure rfl
  all_goals
    refine (values hs field (scope.among hs hf)).bind ?_
    rintro x _ rfl
    exact .pure rfl

theorem store {field : Field} (hf : field ∈ schema.fields) (f : Filling) :
    K.Steps Eq (v.store schema field f) (w.store schema field f) := by
  refine (values.state lawful hs hf).bind ?_
  rintro x _ rfl
  exact .pure rfl

theorem inOrder {fields : List Field} (sub : fields ⊆ schema.fields) (f : Filling) :
    K.Steps Eq (v.inOrder schema fields f) (w.inOrder schema fields f) := by
  induction fields generalizing f
  case nil => exact .pure rfl
  case cons field fields ih =>
    have ⟨hf, sub⟩ := List.cons_subset.mp sub
    apply lawful.kind.bind
    rintro k _ rfl
    cases k
    case fieldName =>
      refine lawful.fieldName.bind fun hn => (lawful.matchName schema field hn).bind ?_
      rintro found _ rfl
      split
      · refine lawful.advance_steps.seq ((values.store lawful hs hf f).bind ?_)
        rintro f _ rfl
        exact (Steps.count lawful.inOrder).seq (lawful.advance_steps.seq (ih sub f))
      · exact .pure rfl
    all_goals exact .pure rfl

omit values hs in
theorem skipMember (opt : DecodeOptions) (schema : Schema) (name : String) :
    K.Steps Eq (ValueDecoding.skipMember opt schema name)
      (ValueDecoding.skipMember opt schema name) := by
  unfold ValueDecoding.skipMember
  split
  · exact lawful.failAt (.unknownField _ _ none)
  · refine (Steps.report ..).seq (lawful.advance_steps.seq ?_)
    exact (Steps.onCursor lawful.skipValue).seq (Steps.count lawful.skipped)

theorem lookedUp (opt : DecodeOptions) (f : Filling) :
    K.Steps (Sum.LiftRel Eq Eq) (v.lookedUp opt schema f) (w.lookedUp opt schema f) := by
  apply lawful.kind.bind
  rintro k _ rfl
  cases k
  case objectEnd => exact .pure (.inr rfl)
  case fieldName =>
    refine lawful.fieldName.bind fun hn => ?_
    simp only [lawful.text_eq hn]
    split
    case h_1 hf =>
      have hf := Schema.mem_of_fieldNamed? hf
      refine lawful.advance_steps.seq ((values.store lawful hs hf f).bind ?_)
      rintro f _ rfl
      exact (Steps.count lawful.dispatched).seq (.pure (.inl rfl))
    case h_2 => exact (skipMember lawful opt schema _).seq (.pure (.inl rfl))
  all_goals exact lawful.failAt (.tokenMismatch _ _ _ _ none)

theorem dispatch (opt : DecodeOptions) (f : Filling) :
    K.Steps Eq (v.dispatch opt schema f) (w.dispatch opt schema f) := by
  refine .loop (B := Eq) ?_ lawful.advance_steps rfl
  rintro f _ rfl
  exact values.lookedUp lawful hs opt f

omit values hs in
theorem complete (f : Filling) (schema : Schema) :
    K.Steps Eq (f.complete (σ := σ) schema) (f.complete (σ := τ) schema) := by
  unfold Filling.complete
  split
  · exact .pure rfl
  · exact (Steps.report ..).seq (lawful.failAt (.missingFields _ _ none))

theorem members (opt : DecodeOptions) :
    K.Steps Eq (v.members opt schema) (w.members opt schema) := by
  unfold ValueDecoding.members
  split
  · refine (values.inOrder lawful hs (List.Subset.refl _) _).bind ?_
    rintro f _ rfl
    refine (values.dispatch lawful hs opt f).bind ?_
    rintro f _ rfl
    exact complete lawful f schema
  · refine (values.dispatch lawful hs opt _).bind ?_
    rintro f _ rfl
    exact complete lawful f schema

end Values

-- The next levels that may be opened on both sides, if there are any.
inductive Levels (K : Correspondence σ τ) (scope : set.Scope) :
    Option (Level σ) → Option (Level τ) → Prop
  | none : Levels K scope none none
  | some {depth v w} : K.Values scope v w → Levels K scope (some ⟨depth, v⟩) (some ⟨depth, w⟩)

-- Two ways to treat the members of objects that go the same way, and agree on the limits.
structure SameMembers (K : Correspondence σ τ) (scope : set.Scope) (opt opt' : DecodeOptions) :
    Prop where
  maxDepth : opt.maxDepth = opt'.maxDepth
  maxListLength : opt.maxListLength = opt'.maxListLength
  members {v w} (values : K.Values scope v w) {schema : Schema} (hs : scope.schemas schema) :
    K.Steps Eq (v.members opt schema) (w.members opt' schema)

namespace SameMembers

variable {opt opt' : DecodeOptions} {schema : Schema}
variable {l : Option (Level σ)} {m : Option (Level τ)}
variable (lawful : K.Lawful scope.scalars) (same : K.SameMembers scope opt opt')
include lawful same

theorem enter (levels : K.Levels scope l m) :
    K.Steps (fun l m => K.Levels scope (some l) (some m))
      (Level.enter opt l) (Level.enter opt' m) := by
  cases levels
  case none =>
    unfold Level.enter
    rw [same.maxDepth]
    exact lawful.fail _
  case some depth v w values => exact (Steps.reachDepth depth).seq (.pure (.some values))

theorem object (levels : K.Levels scope l m) (hs : scope.schemas schema) :
    K.Steps Eq (Level.object opt l schema) (Level.object opt' m schema) := by
  refine (same.enter lawful levels).bind fun h => ?_
  cases h
  case some values =>
    exact (Steps.count lawful.objects).seq (lawful.advance_steps.seq (same.members values hs))

theorem item (hs : scope.schemas schema) (field : Field) {inner : FieldKind} (hk : scope.Has inner)
    {open₁ : Level σ} {open₂ : Level τ} (h : K.Levels scope (some open₁) (some open₂))
    (items : List Value) :
    K.Steps (Sum.LiftRel Eq Eq) (open₁.item opt schema field inner items)
      (open₂.item opt' schema field inner items) := by
  cases h
  case some values =>
    apply lawful.kind.bind
    rintro k _ rfl
    cases k
    case arrayEnd => exact .pure (.inr rfl)
    case null => exact lawful.failAt (.nullViolation _ _ none)
    all_goals
      dsimp only
      rw [same.maxListLength]
      split
      · exact lawful.fail _
      · refine (Steps.reachLength _).seq ((values hs field hk).bind ?_)
        rintro v _ rfl
        exact .pure (.inl rfl)

theorem list (levels : K.Levels scope l m) (hs : scope.schemas schema) (field : Field)
    {inner : FieldKind} (hk : scope.Has inner) :
    K.Steps Eq (Level.list opt l schema field inner) (Level.list opt' m schema field inner) := by
  refine (same.enter lawful levels).bind fun h => ?_
  refine lawful.advance_steps.seq (.loop (B := Eq) ?_ lawful.advance_steps rfl)
  rintro items _ rfl
  exact same.item lawful hs field hk h items

theorem nested (levels : K.Levels scope l m) (field : Field) {target : Schema}
    (hs : scope.schemas target) : K.Steps Eq (Level.nested opt l schema field target)
      (Level.nested opt' m schema field target) := by
  apply lawful.kind.bind
  rintro k _ rfl
  cases k
  case objectStart =>
    refine (Steps.report ..).seq ((same.object lawful levels hs).bind ?_)
    rintro r _ rfl
    exact .pure rfl
  all_goals exact lawful.failAt (.tokenMismatch _ _ _ _ none)

theorem decodeValue (levels : K.Levels scope l m) :
    K.Values scope (Level.decodeValue set opt l) (Level.decodeValue set opt' m) := by
  intro schema hs field k hk
  cases k
  case scalar k => exact lawful.scalar schema field (hk.scalar k rfl)
  case nested id =>
    have ⟨target, ht, hs⟩ := hk.get
    simp only [Level.decodeValue, ht]
    exact same.nested lawful levels field hs
  case recursive => exact same.nested lawful levels field hs
  case list inner =>
    apply lawful.kind.bind
    rintro k _ rfl
    cases k
    case arrayStart =>
      refine (same.list lawful levels hs field hk.inner).bind ?_
      rintro items _ rfl
      exact .pure rfl
    all_goals exact lawful.failAt (.tokenMismatch _ _ _ _ none)

theorem next (room : Nat) :
    K.Levels scope (Level.next set opt room) (Level.next set opt' room) := by
  induction room
  case zero => exact .none
  case succ room ih =>
    simp only [Level.next, same.maxDepth]
    exact .some (same.decodeValue lawful ih)

theorem decodeRecord (id : SchemaId) (found : ∀ schema ∈ set.get? id, scope.schemas schema) :
    K.Steps Eq (decodeRecord set id opt) (decodeRecord set id opt') := by
  unfold RecordDecoding.decodeRecord
  split
  case h_2 => exact lawful.fail _
  case h_1 schema h =>
    apply lawful.kind.bind
    rintro k _ rfl
    cases k
    case null => exact .pure rfl
    case objectStart =>
      dsimp only
      rw [same.maxDepth]
      refine (same.object lawful (same.next lawful _) (found schema h)).bind ?_
      rintro r _ rfl
      exact .pure rfl
    all_goals exact lawful.failAt (.tokenMismatch _ _ _ _ none)

end SameMembers

-- Under the same options members are treated in the same way.
theorem Lawful.sameMembers (lawful : K.Lawful scope.scalars) (opt : DecodeOptions) :
    K.SameMembers scope opt opt where
  maxDepth := rfl
  maxListLength := rfl
  members values _ hs := values.members lawful hs opt

-- Between cursors and what a function sees of them.
def through (f : σ → τ) : Correspondence σ τ where
  cursor c d := f c = d
  stats := Eq
  name := Eq
  error := Eq

-- A cursor that goes the same way as what is seen of it, and gives the same answers.
theorem lawful_through {f : σ → τ} (kind : ∀ c, Cursor.kind (f c) = Cursor.kind c)
    (fieldName : ∀ c, Cursor.fieldName (f c) = Cursor.fieldName c)
    (position : ∀ c, Cursor.position (f c) = Cursor.position c)
    (read : ∀ c (k : ScalarKind), k.read (f c) = k.read c)
    (advance : (through f).CursorSteps Eq Cursor.advance Cursor.advance) :
    (through f).Lawful fun _ => True where
  kind_eq h := h ▸ (kind _).symm
  text_eq h := congrArg _ h
  advance := advance
  fieldName := .fieldName (fun h => h ▸ (fieldName _).symm) (fun _ => rfl) fun _ => rfl
  matchName := by
    rintro n _ schema field rfl
    exact .matchName (fun h => by cases h; rfl) schema field n
  scalar schema field {k} _ := .scalar (fun h => h ▸ (read _ k).symm) (fun _ => rfl)
    (fun e _ _ h => h ▸ congrArg e.at (position _).symm) schema field
  error_refl _ := rfl
  error_at e h := h ▸ congrArg e.at (position _).symm
  objects h := by cases h; rfl
  inOrder h := by cases h; rfl
  dispatched h := by cases h; rfl
  skipped h := by cases h; rfl

-- With a well-formed set, whatever record is decoded over corresponding cursors.
theorem Lawful.decodeRecord (lawful : K.Lawful fun _ => True) (wf : set.WellFormed) (id : SchemaId)
    (opt : DecodeOptions) :
    K.Steps Eq (RecordDecoding.decodeRecord set id opt) (RecordDecoding.decodeRecord set id opt) :=
  have lawful : K.Lawful wf.all.scalars := lawful
  (lawful.sameMembers opt).decodeRecord lawful id fun _ found => List.mem_of_getElem? found

end Correspondence
end RecordDecoding
