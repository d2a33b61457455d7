import RecordDecoding.Cursor.Replay
import RecordDecoding.Cursor.Text
import RecordDecoding.External.Uuid
import RecordDecoding.Proofs.Decode.Correspondence
import RecordDecoding.Proofs.Decode.Session

namespace RecordDecoding

open Decoding Forward

variable {σ : Type} [Cursor σ] {set : SchemaSet}

namespace Correspondence

-- Over the same cursor the same members are counted, however they were matched.
def anyMatch (σ : Type) [Cursor σ] : Correspondence σ σ where
  cursor := Eq
  stats s t := s.objects = t.objects ∧ s.skipped = t.skipped ∧
    s.inOrder + s.dispatched = t.inOrder + t.dispatched
  name := Eq
  error := Eq

namespace anyMatch

theorem cursorSteps {α : Type} (x : Forward CursorError σ α) :
    (anyMatch σ).CursorSteps Eq x x := by
  rintro c _ rfl
  cases x.run c
  case ok    => exact .ok rfl rfl
  case error => exact .error rfl rfl

theorem lawful [UuidFormat] (scalars : ScalarKind → Prop) : (anyMatch σ).Lawful scalars where
  kind_eq h := congrArg _ h
  text_eq h := congrArg _ h
  advance := cursorSteps _
  fieldName := .fieldName (congrArg _) (fun _ => rfl) fun _ => rfl
  matchName := by
    rintro n _ schema field rfl
    exact Steps.matchName (K := anyMatch σ) (fun h => ⟨h.1, h.2⟩) schema field n
  scalar schema field {k} _ := .scalar (congrArg k.read) (fun _ => rfl)
    (fun e _ _ h => congrArg (fun c => e.at (Cursor.position c)) h) schema field
  error_refl _ := rfl
  error_at e h := congrArg (fun c => e.at (Cursor.position c)) h
  objects h := ⟨congrArg (· + 1) h.1, h.2⟩
  inOrder h := ⟨h.1, h.2.1, by have := h.2.2; dsimp only; omega⟩
  dispatched h := ⟨h.1, h.2.1, by have := h.2.2; dsimp only; omega⟩
  skipped h := ⟨h.1, congrArg (· + 1) h.2.1, h.2.2⟩

-- A member that is matched in order counts as one that is looked up.
theorem crossed : (anyMatch σ).Steps Eq
    (count fun s => { s with inOrder := s.inOrder + 1 })
    (count fun s => { s with dispatched := s.dispatched + 1 }) := by
  refine Steps.count fun h => ⟨h.1, h.2.1, ?_⟩
  have := h.2.2
  dsimp only
  omega

end anyMatch

namespace Values

variable {scope : set.Scope} {v w : ValueDecoding σ}
variable (values : (anyMatch σ).Values scope v w) {schema : Schema} (hs : scope.schemas schema)
variable (opt : DecodeOptions)
include values hs

-- Matching the next fields in order and looking up the names of the rest does what looking up all
-- of them does. The induction is on the fields that are still to be matched.
theorem inOrder_dispatch [UuidFormat] {fields : List Field} (sub : fields ⊆ schema.fields)
    (f : Filling) : (anyMatch σ).Steps Eq (v.inOrder schema fields f >>= v.dispatch opt schema)
      (w.dispatch opt schema f) := by
  have lawful : (anyMatch σ).Lawful scope.scalars := anyMatch.lawful _
  have dispatch (f) := values.dispatch lawful hs opt f
  induction fields generalizing f
  case nil => exact dispatch f
  case cons field fields ih =>
    have ⟨hf, sub⟩ := List.cons_subset.mp sub
    intro s t st
    have hc : s.cursor = t.cursor := st.cursor
    by_cases hk : Cursor.kind s.cursor = .fieldName
    case neg =>
      rw [run_bind, ValueDecoding.run_inOrder_stop hk]
      exact dispatch f st
    case pos =>
      cases hn : Cursor.fieldName s.cursor
      case error e =>
        rw [run_bind, ValueDecoding.run_inOrder_error hk hn,
          ValueDecoding.run_dispatch_error (hc ▸ hk) (hc ▸ hn)]
        exact .error rfl st
      case ok name =>
        by_cases ht : name.text = field.name
        case neg =>
          have ⟨log, hr⟩ := v.run_inOrder_miss schema fields f hk hn ht
          rw [run_bind, hr]
          exact dispatch f { st with }
        case pos =>
          have hn' : schema.fieldNamed? name.text = some field :=
            ht ▸ (scope.wellFormed hs).fieldNamed?_name hf
          rw [run_bind, v.run_inOrder_match schema fields f hk hn ht,
            ValueDecoding.run_dispatch_known (hc ▸ hk) (hc ▸ hn) hn', ← run_bind]
          simp only [bind_assoc]
          have st' (hits : Nat) : (anyMatch σ).Sessions
            { s with stats := { s.stats with identityHits := hits } } t := { st with }
          refine Lockstep.seq lawful.advance_steps ?_ (st' _)
          refine (values.store lawful hs hf f).bind ?_
          rintro f _ rfl
          refine anyMatch.crossed.seq (lawful.advance_steps.seq ?_)
          exact ih sub f

omit values hs in
-- Looking up names does not depend on whether another way was tried first.
theorem dispatch_fastPath (b : Bool) (f : Filling) :
    v.dispatch { opt with fastPath := b } schema f = v.dispatch opt schema f :=
  rfl

theorem members_fast [UuidFormat] : (anyMatch σ).Steps Eq
    (v.members { opt with fastPath := true } schema)
    (w.members { opt with fastPath := false } schema) := by
  have h := values.inOrder_dispatch hs opt (List.Subset.refl _) (.blank schema)
  have complete (f : Filling) :=
    Values.complete (K := anyMatch σ) (anyMatch.lawful scope.scalars) f schema
  simp only [ValueDecoding.members, if_true, if_false, Bool.false_eq_true, pure_bind,
    dispatch_fastPath, ← bind_assoc]
  apply h.bind
  rintro f _ rfl
  exact complete f

end Values

theorem anyMatch.sameMembers [UuidFormat] (scope : set.Scope) (opt : DecodeOptions) :
    (anyMatch σ).SameMembers scope { opt with fastPath := true }
      { opt with fastPath := false } where
  maxDepth := rfl
  maxListLength := rfl
  members values _ hs := values.members_fast hs opt

end Correspondence

-- The token without the memory of what its name was given to.
def Token.plain : Token → Token
  | fieldName name => fieldName (.fresh name.text)
  | t              => t

-- What is left of a replay if all names are fresh.
def Replay.plain (r : Replay) : Replay :=
  { r with current := r.current.plain, ahead := r.ahead.map Token.plain }

namespace Replay

variable {r r' : Replay}

theorem kind_plain (r : Replay) : Cursor.kind r.plain = Cursor.kind r := by
  obtain ⟨current, _, _, _, _⟩ := r
  cases current <;> rfl

theorem fieldName_plain (r : Replay) :
    Cursor.fieldName r.plain = (Cursor.fieldName r).map fun n => .fresh n.text := by
  obtain ⟨current, _, _, _, _⟩ := r
  cases current <;> rfl

theorem read_plain [UuidFormat] (k : ScalarKind) (r : Replay) : k.read r.plain = k.read r := by
  obtain ⟨current, _, _, _, _⟩ := r
  cases current <;> rfl

theorem advance_plain (r : Replay) :
    Cursor.advance.run r.plain = match Cursor.advance.run r with
      | .ok _ r'    => .ok () r'.plain
      | .error e r' => .error e r'.plain := by
  have hc : r.plain.isCancelled = r.isCancelled := rfl
  simp only [Cursor.advance, advance, hc]
  split
  · rfl
  · cases ha : r.ahead <;> simp [plain, onto, ha]

end Replay

namespace Correspondence

-- Between replays which differ at most in the origins of names.
def plain : Correspondence Replay Replay where
  cursor r r' := r.plain = r'.plain
  stats s t := { s with identityHits := 0 } = { t with identityHits := 0 }
  name n n' := n.text = n'.text
  error := Eq

namespace plain

theorem kind_eq {r r' : Replay} (h : plain.cursor r r') : Cursor.kind r = Cursor.kind r' := by
  rw [← r.kind_plain, ← r'.kind_plain, show r.plain = r'.plain from h]

theorem advance : plain.CursorSteps Eq Cursor.advance Cursor.advance := by
  intro r r' (h : r.plain = r'.plain)
  have hr := r.advance_plain
  rw [h, r'.advance_plain] at hr
  generalize Cursor.advance.run r = o, Cursor.advance.run r' = o' at hr
  cases o <;> cases o' <;> injection hr
  case ok.ok h       => exact .ok rfl h.symm
  case error.error h => exact .error (congrArg _ ‹_ = _›.symm) h.symm

theorem fieldName : plain.Steps plain.name Decoding.fieldName Decoding.fieldName := by
  intro s t hs
  have h : s.cursor.plain = t.cursor.plain := hs.cursor
  have hn := s.cursor.fieldName_plain
  rw [h, t.cursor.fieldName_plain] at hn
  simp only [Decoding.fieldName, check]
  generalize Cursor.fieldName s.cursor = n, Cursor.fieldName t.cursor = n' at hn
  cases n <;> cases n' <;> injection hn
  case error.error h => exact .error (congrArg _ h.symm) hs
  case ok.ok h       => exact .ok (MemberName.mk.inj h.symm).1 hs

theorem matchName {n n' : MemberName} (h : plain.name n n') (schema : Schema) (field : Field) :
    plain.Steps Eq (ValueDecoding.matchName schema field n)
      (ValueDecoding.matchName schema field n') := by
  have h : n.text = n'.text := h
  intro s t hs
  by_cases ht : n.text = field.name
  case pos =>
    rw [ValueDecoding.run_matchName schema s ht, ValueDecoding.run_matchName schema t (h ▸ ht)]
    exact .ok rfl { hs with stats := hs.stats }
  case neg =>
    have ⟨log, hr⟩ := ValueDecoding.run_matchName_miss schema s ht
    have ⟨log', hr'⟩ := ValueDecoding.run_matchName_miss schema t (h ▸ ht)
    rw [hr, hr']
    exact .ok rfl { hs with }

theorem read_eq [UuidFormat] (k : ScalarKind) {r r' : Replay} (h : plain.cursor r r') :
    k.read r = k.read r' := by
  rw [← r.read_plain, ← r'.read_plain, show r.plain = r'.plain from h]

-- Any other count goes on without regard to the names recognised by their origin.
theorem count (f : DecodeStats → DecodeStats)
    (hf : ∀ s, { f s with identityHits := 0 } = f { s with identityHits := 0 }) {s t : DecodeStats}
    (h : plain.stats s t) : plain.stats (f s) (f t) := by
  have h : { s with identityHits := 0 } = { t with identityHits := 0 } := h
  show _ = _
  rw [hf, h, hf]

theorem lawful [UuidFormat] (scalars : ScalarKind → Prop) : plain.Lawful scalars where
  kind_eq := kind_eq
  text_eq h := h
  advance := advance
  fieldName := fieldName
  matchName schema field h := matchName h schema field
  scalar schema field {k} _ := .scalar (read_eq k) (fun _ => rfl) (fun _ _ _ _ => rfl) schema field
  error_refl _ := rfl
  error_at _ _ := rfl
  objects := count (fun s => { s with objects := s.objects + 1 }) fun _ => rfl
  inOrder := count (fun s => { s with inOrder := s.inOrder + 1 }) fun _ => rfl
  dispatched := count (fun s => { s with dispatched := s.dispatched + 1 }) fun _ => rfl
  skipped := count (fun s => { s with skipped := s.skipped + 1 }) fun _ => rfl

end plain
end Correspondence

theorem SchemaSet.WellFormed.fastPath_steps [UuidFormat] (wf : set.WellFormed) (id : SchemaId)
    (opt : DecodeOptions) : (Correspondence.anyMatch σ).Steps Eq
      (decodeRecord set id { opt with fastPath := true })
      (decodeRecord set id { opt with fastPath := false }) :=
  (Correspondence.anyMatch.sameMembers wf.all opt).decodeRecord
    (Correspondence.anyMatch.lawful _) id fun _ found => List.mem_of_getElem? found

theorem SchemaSet.WellFormed.plain_steps [UuidFormat] (wf : set.WellFormed) (id : SchemaId)
    (opt : DecodeOptions) :
    Correspondence.plain.Steps Eq (decodeRecord set id opt) (decodeRecord set id opt) :=
  have lawful := Correspondence.plain.lawful wf.all.scalars
  (lawful.sameMembers opt).decodeRecord lawful id fun _ found => List.mem_of_getElem? found

-- Trying the order of the fields first shows in neither the answer nor the cursor, whatever the
-- cursor reads from, and what is counted divides differently at most. Likewise for names that have
-- the same text, which only the count of names recognised by their origin tells apart.
theorem decodeRecord_fastPath_unobservable [UuidFormat] {types : List TypeDecl}
    (built : SchemaSet.build types = .ok set) (id : SchemaId) (opt : DecodeOptions) :
    (∀ (σ : Type) [Cursor σ] (s : Session σ),
      let fast := (decodeRecord set id { opt with fastPath := true }).run s
      let slow := (decodeRecord set id { opt with fastPath := false }).run s
      fast.result = slow.result ∧
      fast.state.cursor = slow.state.cursor ∧
      fast.state.stats.objects = slow.state.stats.objects ∧
      fast.state.stats.skipped = slow.state.stats.skipped ∧
      fast.state.stats.inOrder + fast.state.stats.dispatched =
        slow.state.stats.inOrder + slow.state.stats.dispatched) ∧
    (∀ (s : Session Replay) (renamed : Replay), renamed.plain = s.cursor.plain →
      let o := (decodeRecord set id opt).run s
      let o' := (decodeRecord set id opt).run { s with cursor := renamed }
      o.result = o'.result ∧
      o.state.cursor.plain = o'.state.cursor.plain ∧
      { o.state.stats with identityHits := 0 } = { o'.state.stats with identityHits := 0 }) := by
  have wf := SchemaSet.wellFormed_of_build built
  constructor
  case left =>
    intro σ _ s
    have m := wf.fastPath_steps id opt (s := s) (t := s) ⟨rfl, ⟨rfl, rfl, rfl⟩, rfl⟩
    exact ⟨m.result_eq, m.state.cursor, m.state.stats⟩
  case right =>
    intro s renamed h
    have m := wf.plain_steps id opt (s := s) (t := { s with cursor := renamed }) ⟨h.symm, rfl, rfl⟩
    exact ⟨m.result_eq, m.state.cursor, m.state.stats⟩

theorem decodeRecord_fastPath_unobservable_flag :
    let _ : UuidFormat := .hyphenated
    let types : List TypeDecl := [⟨"Flag", [{ name := "on", type := .scalar .bool }]⟩]
    let set : SchemaSet := ⟨[⟨⟨0⟩, "Flag", [⟨"on", 0, .scalar .bool, false, false⟩]⟩]⟩
    let replay (origin : Option FieldPlace) : Replay :=
      ⟨.objectStart, [.fieldName ⟨"on", origin⟩, .bool true, .objectEnd], 0, 0, none⟩
    let run (b : Bool) (origin : Option FieldPlace) :=
      (decodeRecord set ⟨0⟩ { DecodeOptions.default with fastPath := b }).run
        { cursor := replay origin }
    SchemaSet.build types = .ok set ∧
    (replay none).plain = (replay (some ⟨0, 0⟩)).plain ∧
    (run true (some ⟨0, 0⟩)).result = (run false (some ⟨0, 0⟩)).result ∧
    (run true (some ⟨0, 0⟩)).result = (run true none).result := by
  intro _ types set replay run
  have built : SchemaSet.build types = .ok set := by rfl
  have h := decodeRecord_fastPath_unobservable built ⟨0⟩ .default
  exact ⟨built, rfl, (h.1 _ ⟨replay (some ⟨0, 0⟩), {}, {}, #[]⟩).1,
    (h.2 ⟨replay (some ⟨0, 0⟩), {}, {}, #[]⟩ (replay none) rfl).1⟩

end RecordDecoding
