import RecordDecoding.External.Uuid
import RecordDecoding.Proofs.Decode.Culprits
import RecordDecoding.Proofs.Decode.Filling
import RecordDecoding.Proofs.Decode.Passing

namespace RecordDecoding

open Decoding Forward TextCursor

namespace Request

variable {r : Request} {schema : Schema} {field : Field} {k : FieldKind} {c o v : TextCursor}

section Faults

variable [UuidFormat]

-- An error that tells a position tells that of the cursor, and blames the token there.
def Fault (r : Request) (e : DecodeError) (c : TextCursor) : Prop :=
  ∀ p, e.position = some p → p = c.position ∧ Trail [] r.first c ∧ r.Blames c e

theorem fault_of_none {e : DecodeError} (h : e.position = none) : r.Fault e c := by
  intro p hp
  rw [h] at hp
  cases hp

section Failing

variable {α : Type} {P : TextCursor → Prop} {Q : α → TextCursor → Prop}

theorem fail {e : DecodeError} (h : e.position = none) : Leads r.Fault (Forward.fail e) P Q :=
  Leads.fail fun _ => fault_of_none h

-- A failure that tells the position.
theorem failAt {e : Option Position → DecodeError} (he : ∀ pos, (e pos).position = pos)
    (h : ∀ {c}, P c → Trail [] r.first c ∧ ∀ pos, r.Blames c (e pos)) :
    Leads r.Fault (position >>= fun pos => Forward.fail (e pos)) P Q := by
  intro s hs
  refine .error fun p hp => ?_
  have ⟨trail, blames⟩ := h hs
  have hp := (he _).symm.trans hp
  exact ⟨(Option.some.inj hp).symm, trail, blames _⟩

theorem advance_leads {P Q : TextCursor → Prop}
    (h : ∀ {c c'}, P c → TextCursor.advance.run c = .ok () c' → Q c') :
    Leads r.Fault Decoding.advance P fun _ => Q := by
  refine Leads.onCursor fun c hc => ?_
  show (TextCursor.advance.run c).Satisfies _ _
  cases hr : TextCursor.advance.run c
  case ok    => exact .ok (h hc hr)
  case error => exact .error (fault_of_none rfl)

end Failing

-- Decoding values takes them as it should, and faults are as said.
structure Points (r : Request) (wf : r.set.WellFormed) (v : ValueDecoding TextCursor) : Prop where
  passes (p : Passage) : p.Passes wf.all v
  faults {schema : Schema} {field : Field} {k : FieldKind} {c : TextCursor}
      {base : List Container} :
    schema ∈ r.set.schemas → wf.all.Has k → r.ValueOf schema field k c → c.place.Begins base →
      Leads r.Fault (v schema field k) (· = c) fun _ _ => True

namespace Points

variable {wf : r.set.WellFormed} {values : ValueDecoding TextCursor} {base : List Container}
variable (points : r.Points wf values) (hs : schema ∈ r.set.schemas)
include points hs

theorem value (hk : wf.all.Has k) (value : r.ValueOf schema field k c)
    (begins : c.place.Begins base) :
    Leads r.Fault (values schema field k) (· = c) fun _ => (throughValue c base).Behind [] := by
  have passes := points.passes (throughValue c base).passage hs field hk []
  have faults := points.faults hs hk value begins
  refine (faults.and (passes.imp ?_ id)).imp id And.right
  rintro _ rfl
  exact ⟨.start begins, begins⟩

theorem state (hf : field ∈ schema.fields) (value : r.ValueOf schema field field.kind c)
    (begins : c.place.Begins base) :
    Leads r.Fault (values.state schema field) (· = c) fun _ => (throughValue c base).Behind [] := by
  refine .kind fun kind => ?_
  cases kind
  case null =>
    dsimp only
    split
    case isTrue =>
      refine failAt (fun _ => rfl) ?_
      rintro _ ⟨rfl, hk⟩
      exact ⟨value.trail, fun _ => ⟨hk, field.kind, schema, field, value, rfl, rfl⟩⟩
    case isFalse =>
      refine .pure ?_
      rintro _ ⟨rfl, hk⟩
      exact ⟨.start begins, begins.ends (congrArg TokenKind.opensContainer hk)⟩
  all_goals
    refine Leads.bind ((points.value hs (wf.all.among hs hf) value begins).imp And.left id) ?_
    exact fun _ => .pure id

end Points

end Faults

-- An object that is being decoded, in containers that were open before it.
structure Opened (r : Request) where
  schema : Schema
  start : TextCursor
  base : List Container
  mem : schema ∈ r.set.schemas
  object : r.ObjectOf schema start
  begins : start.place.Begins base

namespace Opened

section Places

variable (o : r.Opened)

theorem start_place : o.start.place = ⟨.objectStart, .keyOrEnd, .object :: o.base⟩ :=
  o.begins.of_objectStart o.object.kind

theorem start_stack : o.start.stack = .object :: o.base :=
  congrArg Place.stack o.start_place

-- Inside of the object or at the end of it: the members of which no field was filled in are ahead.
structure Amid (f : Filling) (c : TextCursor) : Prop where
  trail : Trail o.start.stack o.start c
  holds : ∃ states, f.Holds o.schema states
  ahead : Ahead o.start (f.Pending o.schema) c

-- On the name of a member, or on the end of the object.
structure AtMember (f : Filling) (c : TextCursor) : Prop extends o.Amid f c where
  place : c.place.AtMember o.base

-- On the first token of what is to fill in a field.
structure AtValue (field : Field) (f : Filling) (c : TextCursor) : Prop where
  value : r.ValueOf o.schema field field.kind c
  begins : c.place.Begins (.object :: o.base)
  amid (state : TriState Value) : o.Amid (f.put field state) c

-- On the last token of a member.
structure Behind (f : Filling) (c : TextCursor) : Prop extends o.Amid f c where
  ends : c.place.Ends (.object :: o.base)
  kind : c.kind ≠ .fieldName

-- On the end of the object.
structure AtEnd (f : Filling) (c : TextCursor) : Prop extends o.Amid f c where
  closes : Closes o.start c
  kind : c.kind = .objectEnd

end Places

variable {o : r.Opened} {f : Filling} {c' : TextCursor} {name : String}

theorem Amid.advance (h : o.Amid f c) (inside : o.start.stack <:+ c.stack)
    (hr : advance.run c = .ok () c')
    (hn : ∀ name, f.Pending o.schema name → c.fieldName ≠ .ok (.fresh name)) : o.Amid f c' where
  trail := h.trail.tail ⟨inside, hr⟩
  holds := h.holds
  ahead := h.ahead.advance hr hn

theorem Behind.of_value (h : o.Amid f v) (hc : (throughValue v (.object :: o.base)).Behind [] c) :
    o.Behind f c where
  trail := h.trail.trans (o.start_stack ▸ hc.on.trail)
  holds := h.holds
  ahead := h.ahead.inValue (o.start_stack ▸ hc.on)
  ends  := hc.ends
  kind  := hc.on.kind hc.ends.stack

theorem Behind.advance (h : o.Behind f c) (hr : advance.run c = .ok () c') : o.AtMember f c' := by
  have stack : c.stack = .object :: o.base := h.ends.stack
  have moves := moves_of_advance h.ends.within.suits hr
  refine ⟨h.toAmid.advance ?_ hr fun _ _ hn => h.kind (fieldName_ok hn).1, ?_⟩
  · exact (o.start_stack.trans stack.symm) ▸ List.suffix_rfl
  · exact moves.atMember stack (by rw [h.ends.expect]; nofun)

namespace AtMember

variable (h : o.AtMember f c)
include h

theorem directly (hk : c.kind = .fieldName) : DirectlyIn o.start c where
  trail := h.trail
  stack := by
    rw [o.start_stack]
    exact congrArg Place.stack (h.place.of_name hk)

theorem atEnd (hk : c.kind ≠ .fieldName) : o.AtEnd f c := by
  have ⟨last, ends⟩ := h.place.ends hk
  refine ⟨h.toAmid, ⟨h.trail, ?_⟩, last⟩
  rw [o.start_stack]
  exact ends.stack

variable (hn : c.fieldName = .ok (.fresh name)) (hr : advance.run c = .ok () c')
include hn hr

theorem begins : c'.place.Begins (.object :: o.base) := by
  have place := h.place.of_name (fieldName_ok hn).1
  have suits : c.place.expect.Suits c.place.stack := by
    rw [place]
    trivial
  have begins := (moves_of_advance suits hr).begins (by rw [place])
  rwa [place] at begins

-- A name that no field has may be passed.
theorem unknown (hu : ∀ field ∈ o.schema.fields, field.name ≠ name) : o.Amid f c' := by
  refine h.toAmid.advance ?_ hr ?_
  · exact (h.directly (fieldName_ok hn).1).stack ▸ List.suffix_rfl
  · rintro _ ⟨field, hf, rfl, _⟩ he
    cases hn.symm.trans he
    exact hu field hf rfl

end AtMember

theorem AtMember.value (wf : r.set.WellFormed) (h : o.AtMember f c)
    (hf : field ∈ o.schema.fields) (hn : c.fieldName = .ok (.fresh field.name))
    (hr : advance.run c = .ok () v) : o.AtValue field f v := by
  have directly := h.directly (fieldName_ok hn).1
  obtain ⟨states, holds⟩ := h.holds
  have wf := wf.schemas _ o.mem
  refine ⟨.member o.object hf ⟨directly, hn⟩ hr, h.begins hn hr, fun state => ?_⟩
  refine ⟨directly.advance hr, ⟨_, holds.put wf hf state⟩, ?_⟩
  have less {name : String} (hp : (f.put field state).Pending o.schema name) :=
    hp.of_put wf holds hf
  refine (h.ahead.imp fun name hp => (less hp).1).advance hr fun name hp he => ?_
  cases hn.symm.trans he
  exact (less hp).2 rfl

theorem atMember_of_start (wf : r.set.WellFormed) (hr : advance.run o.start = .ok () c) :
    o.AtMember (.blank o.schema) c := by
  have place := o.start_place
  have amid : o.Amid (.blank o.schema) o.start :=
    ⟨.refl, ⟨[], Filling.holds_blank (wf.schemas _ o.mem)⟩, .start⟩
  have moves := moves_of_advance o.begins.within.suits hr
  refine ⟨amid.advance List.suffix_rfl hr fun _ _ hn => ?_, ?_⟩
  · cases o.object.kind.symm.trans (fieldName_ok hn).1
  · refine moves.atMember ?_ ?_ <;> simp [place]

-- In the object in which a field is missing at the end, no member has its name.
theorem AtEnd.missing (wf : r.set.WellFormed) (h : o.AtEnd f c)
    (hname : name ∈ (f.missing o.schema).map (·.name)) :
    (∃ field ∈ o.schema.fields, field.name = name ∧ field.isRequired) ∧
      ¬∃ m, NamesMember o.start name m := by
  obtain ⟨field, hf, rfl⟩ := List.mem_map.mp hname
  obtain ⟨states, holds⟩ := h.holds
  have ⟨mem, required, pending⟩ := holds.pending_of_missing (wf.schemas _ o.mem) hf
  refine ⟨⟨field, mem, rfl, required⟩, h.ahead.none_of_closes h.closes ?_ ?_ pending⟩
  · rw [o.start_stack]
    exact List.cons_ne_nil _ _
  · rw [h.kind]
    nofun

end Opened

variable [UuidFormat]

namespace Points

variable {wf : r.set.WellFormed} {values : ValueDecoding TextCursor} {f : Filling}
variable {opt : DecodeOptions} (o : r.Opened)

section

variable (points : r.Points wf values)
include points

theorem store (f : Filling) (hf : field ∈ o.schema.fields) :
    Leads r.Fault (values.store o.schema field f) (o.AtValue field f) o.Behind := by
  refine .of_eq fun c h => ?_
  refine (points.state o.mem hf h.value h.begins).bind fun state => .pure fun hc => ?_
  exact .of_value (h.amid state) hc

omit points in
theorem to_value (wf : r.set.WellFormed) {name : MemberName} (hf : field ∈ o.schema.fields)
    (same : name.text = field.name) :
    Leads r.Fault Decoding.advance (fun c => o.AtMember f c ∧ c.fieldName = .ok name)
      fun _ => o.AtValue field f := by
  refine advance_leads fun ⟨h, hn⟩ hr => h.value wf hf ?_ hr
  have fresh := (fieldName_ok hn).2
  rw [same] at fresh
  exact fresh ▸ hn

theorem inOrder {fields : List Field} (sub : fields ⊆ o.schema.fields) :
    Leads r.Fault (values.inOrder o.schema fields f) (o.AtMember f) o.AtMember := by
  induction fields generalizing f
  case nil => exact .pure id
  case cons field fields ih =>
    have ⟨hf, sub⟩ := List.cons_subset.mp sub
    refine .kind fun kind => ?_
    cases kind
    case fieldName =>
      refine .fieldName (fun name => ?_) fun _ _ => fault_of_none rfl
      refine Leads.bind (.matchName o.schema field name) fun found => ?_
      split
      case isFalse => exact .pure fun h => h.2.1.1
      case isTrue matched =>
        refine Leads.bind (.of_and fun same => ?_) fun _ => (points.store o f hf).bind fun f => ?_
        · exact (to_value o wf hf (same matched)).imp (fun h => ⟨h.1.1, h.2⟩) id
        · refine .noting (fun _ => rfl) ?_
          exact (advance_leads Opened.Behind.advance).bind fun _ => ih sub
    all_goals exact .pure And.left

omit points in
theorem skipMember (name : String) (unknown : ∀ field ∈ o.schema.fields, field.name ≠ name) :
    Leads r.Fault (ValueDecoding.skipMember opt o.schema name)
      (fun c => o.AtMember f c ∧ c.fieldName = .ok (.fresh name)) fun _ => o.Behind f := by
  unfold ValueDecoding.skipMember
  split
  case isTrue =>
    refine failAt (fun _ => rfl) fun {c} ⟨h, hn⟩ => ?_
    have directly := h.directly (fieldName_ok hn).1
    refine ⟨o.object.trail.trans (h.trail.mono List.nil_suffix), fun _ => ?_⟩
    exact ⟨o.schema, o.start, o.object, rfl, ⟨directly, hn⟩, unknown⟩
  case isFalse =>
    let Value (c : TextCursor) : Prop := o.Amid f c ∧ c.place.Begins (.object :: o.base)
    refine .noting (fun _ => rfl) (Leads.bind (advance_leads (Q := Value) ?_) fun _ => ?_)
    · exact fun ⟨h, hn⟩ hr => ⟨h.unknown hn hr unknown, h.begins hn hr⟩
    · refine Leads.bind (.of_eq fun c ⟨amid, begins⟩ => Leads.onCursor ?_) fun _ => Meets.change id
      have walk : (throughValue c (.object :: o.base)).Before [] c := ⟨.start begins, begins⟩
      refine Walk.skipValue_meets.imp ?_ (.of_value amid) fun _ => fault_of_none rfl
      rintro _ rfl
      exact walk

theorem lookedUp (f : Filling) :
    Leads r.Fault (values.lookedUp opt o.schema f) (o.AtMember f) (Sum.elim o.Behind o.AtEnd) := by
  refine .kind fun kind => ?_
  cases kind
  case objectEnd =>
    exact .pure fun h => h.1.atEnd (by rw [show TextCursor.kind _ = _ from h.2]; decide)
  case fieldName =>
    refine .fieldName (fun name => ?_) fun _ _ => fault_of_none rfl
    split
    case h_1 field hfound =>
      have hf := Schema.mem_of_fieldNamed? hfound
      have same := (Schema.name_of_fieldNamed? hfound).symm
      refine Leads.bind ((to_value o wf hf same).imp (fun h => ⟨h.1.1, h.2⟩) id) fun _ => ?_
      exact (points.store o f hf).bind fun f => .noting (fun _ => rfl) (.pure id)
    case h_2 hfound =>
      have unknown := Schema.fieldNamed?_eq_none_iff.mp hfound
      refine Leads.bind ((skipMember o name.text unknown).imp ?_ id) fun _ => .pure id
      exact fun h => ⟨h.1.1, (fieldName_ok h.2).2 ▸ h.2⟩
  all_goals
    refine failAt (fun _ => rfl) fun h => ?_
    have := h.1.atEnd (by rw [show TextCursor.kind _ = _ from h.2]; decide)
    cases h.2.symm.trans this.kind

theorem dispatch (f : Filling) :
    Leads r.Fault (values.dispatch opt o.schema f) (o.AtMember f) o.AtEnd :=
  Leads.loop (points.lookedUp o) (fun _ => advance_leads Opened.Behind.advance) f

theorem members :
    Leads r.Fault (values.members opt o.schema) (o.AtMember (.blank o.schema)) fun _ _ => True := by
  have complete (f : Filling) :
      Leads r.Fault (f.complete (σ := TextCursor) o.schema) (o.AtEnd f) fun _ _ => True := by
    unfold Filling.complete
    split
    case isTrue  => exact .pure fun _ => trivial
    case isFalse =>
      refine .noting (fun _ => rfl) (failAt (fun _ => rfl) fun h => ?_)
      refine ⟨o.object.trail.trans (h.trail.mono List.nil_suffix), fun _ => ⟨h.kind, ?_⟩⟩
      exact ⟨o.schema, o.start, o.object, rfl, h.closes, fun _ => h.missing wf⟩
  unfold ValueDecoding.members
  split
  · refine (points.inOrder o (List.Subset.refl _)).bind fun f => ?_
    exact (points.dispatch o f).bind complete
  · exact Leads.bind (.pure id) fun f => (points.dispatch o _).bind complete

end
end Points
-- Values inside of the next level are decoded likewise, if there is one.
def PointsLevel (r : Request) (wf : r.set.WellFormed) (level : Option (Level TextCursor)) : Prop :=
  ∀ l ∈ level, r.Points wf l.value

theorem mismatch_leads {α : Type} {Q : α → TextCursor → Prop} {actual : TokenKind}
    (value : r.ValueOf schema field k c) (h : actual ∉ k.accepts) :
    Leads r.Fault (Level.mismatch schema field k.accepts actual)
      (fun c' => c' = c ∧ c'.kind = actual) Q := by
  refine failAt (fun _ => rfl) ?_
  rintro _ ⟨rfl, hk⟩
  exact ⟨value.trail, fun _ => ⟨hk, h, k, ⟨schema, field, value, rfl, rfl⟩, rfl⟩⟩

theorem scalar_leads {k : ScalarKind} (value : r.ValueOf schema field (.scalar k) c) :
    Leads r.Fault (Level.scalar schema field k) (· = c) fun _ _ => True := by
  rintro s rfl
  simp only [Level.scalar, run_bind, run_look]
  cases hr : k.read s.cursor
  case ok => exact .ok trivial
  case error fault =>
    cases fault
    case source => exact .error (fault_of_none rfl)
    case mismatch expected actual =>
      obtain ⟨rfl, rfl, accepted⟩ := ScalarKind.read_mismatch hr
      have leads : Leads r.Fault (Level.mismatch schema field k.accepts _) _
          fun (_ : Value) _ => True := mismatch_leads value accepted
      exact leads ⟨rfl, rfl⟩
    case invalid reason =>
      have accepted : s.cursor.kind ∈ k.accepts := ScalarKind.read_invalid hr
      refine .error fun _ told => ⟨(Option.some.inj told).symm, value.trail, accepted, hr, ?_⟩
      exact ⟨schema, field, value, rfl, rfl⟩

namespace PointsLevel

variable {wf : r.set.WellFormed} {level : Option (Level TextCursor)} {opt : DecodeOptions}
variable {base : List Container} (points : r.PointsLevel wf level)
include points

theorem enter {P : TextCursor → Prop} :
    Leads r.Fault (Level.enter opt level) P fun l c => r.Points wf l.value ∧ P c := by
  cases level
  case none   => exact fail rfl
  case some l => exact .noting (fun _ => rfl) (.pure fun h => ⟨points l rfl, h⟩)

theorem object (o : r.Opened) :
    Leads r.Fault (Level.object opt level o.schema) (· = o.start) fun _ _ => True := by
  refine points.enter.bind fun l => .of_and fun values => .noting (fun _ => rfl) ?_
  refine Leads.bind (advance_leads ?_) fun _ => values.members o
  rintro _ _ rfl hr
  exact Opened.atMember_of_start wf hr

theorem list (hs : schema ∈ r.set.schemas) (hk : wf.all.Has k)
    (value : r.ValueOf schema field (.list k) c) (starts : c.kind = .arrayStart)
    (begins : c.place.Begins base) :
    Leads r.Fault (Level.list opt level schema field k) (· = c) fun _ _ => True := by
  let Item (v : TextCursor) : Prop :=
    ∃ u, DirectlyIn c u ∧ TextCursor.advance.run u = .ok () v ∧ v.place.AtItem base
  let Behind (u : TextCursor) : Prop := DirectlyIn c u ∧ u.place.Ends (.array :: base)
  have place := begins.of_arrayStart starts
  have stack : c.stack = .array :: base := congrArg Place.stack place
  have item {v : TextCursor} (h : Item v) (hv : v.kind ≠ .arrayEnd) : r.ValueOf schema field k v :=
    have ⟨u, hu, hr, _⟩ := h
    .item value starts hu hr hv
  refine points.enter.bind fun l => .of_and fun values => ?_
  refine Leads.bind (advance_leads (Q := Item) ?first) fun _ => ?_
  case first =>
    rintro _ _ rfl hr
    refine ⟨_, ⟨.refl, rfl⟩, hr, ?_⟩
    refine (moves_of_advance begins.within.suits hr).atItem ?_ ?_ <;> simp [place]
  refine Leads.loop (P := fun _ => Item) (M := fun _ => Behind) (fun items => ?_)
    (fun _ => ?next) []
  case next =>
    refine advance_leads fun {u _} ⟨hu, ends⟩ hr => ⟨u, hu, hr, ?_⟩
    exact (moves_of_advance ends.within.suits hr).atItem ends.stack (by rw [ends.expect]; nofun)
  refine .kind fun kind => ?_
  cases kind
  case arrayEnd => exact .pure fun _ => trivial
  case null =>
    refine failAt (fun _ => rfl) fun ⟨h, hv⟩ => ?_
    have hv : TextCursor.kind _ = .null := hv
    have value := item h (by rw [hv]; nofun)
    exact ⟨value.trail, fun _ => ⟨hv, k, schema, field, value, rfl, rfl⟩⟩
  all_goals
    dsimp only
    split
    · exact fail rfl
    · refine .noting (fun _ => rfl) (Leads.bind (.of_eq fun v ⟨h, hv⟩ => ?_) fun _ => .pure id)
      have hv : v.kind ≠ .arrayEnd := by rw [show v.kind = _ from hv]; nofun
      have ⟨u, hu, hr, place⟩ := h
      refine (values.value hs hk (item h hv) (place.begins hv)).imp id fun hc => ?_
      have trail : Trail c.stack v _ := stack ▸ hc.on.trail
      exact ⟨⟨(hu.advance hr).trans trail, stack ▸ hc.ends.stack⟩, hc.ends⟩

theorem nested {target : Schema} (objects : k.accepts = .onlyObject)
    (found : k.schema? r.set schema = some target) (hs : target ∈ r.set.schemas)
    (value : r.ValueOf schema field k c) (begins : c.place.Begins base) :
    Leads r.Fault (Level.nested opt level schema field target) (· = c) fun _ _ => True := by
  refine .kind fun kind => ?_
  cases kind
  case objectStart =>
    refine .noting (fun _ => rfl) (Leads.bind (.of_eq ?_) fun _ => .pure id)
    rintro _ ⟨rfl, hk⟩
    exact points.object ⟨target, _, base, hs, .value value found hk, begins⟩
  all_goals
    exact objects ▸ mismatch_leads value (objects ▸ by decide)

theorem decodeValue (hs : schema ∈ r.set.schemas) (hk : wf.all.Has k)
    (value : r.ValueOf schema field k c) (begins : c.place.Begins base) :
    Leads r.Fault (Level.decodeValue r.set opt level schema field k) (· = c) fun _ _ => True := by
  cases k
  case scalar    => exact scalar_leads value
  case recursive => exact points.nested rfl rfl hs value begins
  case nested id =>
    have ⟨target, found, ht⟩ := hk.get
    simp only [Level.decodeValue, found]
    exact points.nested (k := .nested id) rfl found ht value begins
  case list k =>
    refine .kind fun kind => ?_
    cases kind
    case arrayStart =>
      refine Leads.bind (.of_eq ?_) fun _ => .pure id
      rintro _ ⟨rfl, starts⟩
      exact points.list hs hk.inner value starts begins
    all_goals exact mismatch_leads value (show _ ∉ KindSet.onlyArray by decide)

omit points in
theorem next (room : Nat) : r.PointsLevel wf (Level.next r.set opt room) := by
  induction room
  case zero         => exact nofun
  case succ room ih =>
    rintro _ ⟨⟩
    exact ⟨fun p => Passage.PassesLevel.next (room + 1) _ rfl, decodeValue ih⟩

end PointsLevel

theorem decodeRecord_faults (wf : r.set.WellFormed) (begins : r.first.place.Begins [])
    (opt : DecodeOptions) :
    Leads r.Fault (decodeRecord r.set r.type opt) (· = r.first) fun _ _ => True := by
  unfold decodeRecord
  split
  case h_2 => exact fail rfl
  case h_1 schema found =>
    have points : r.PointsLevel wf (Level.next r.set opt opt.maxDepth) := .next opt.maxDepth
    have hs : schema ∈ r.set.schemas := List.mem_of_getElem? found
    refine .kind fun kind => ?_
    cases kind
    case null => exact .pure fun _ => trivial
    case objectStart =>
      refine Leads.bind (.of_eq ?_) fun _ => .pure id
      rintro _ ⟨rfl, hk⟩
      exact points.object ⟨schema, _, [], hs, .root found hk, begins⟩
    all_goals
      refine failAt (fun _ => rfl) ?_
      rintro _ ⟨rfl, hk⟩
      exact ⟨.refl, fun _ => ⟨hk, by decide, rfl, rfl, schema, found, rfl⟩⟩

end Request

-- The position in an error is that of a token, and this token is what the error says.
theorem decodeRecord_pointsAt [UuidFormat] {source : List UInt8} {types : List TypeDecl}
    {set : SchemaSet} {id : SchemaId} {opt : DecodeOptions} {s s' : Session TextCursor}
    {e : DecodeError} {p : Position} (first : ofBytes source = .ok s.cursor)
    (built : SchemaSet.build types = .ok set)
    (failed : (decodeRecord set id opt).run s = .error e s') (told : e.position = some p) :
    ∃ c, Request.PointsAt ⟨set, id, s.cursor⟩ source e p c := by
  let r : Request := ⟨set, id, s.cursor⟩
  have wf := SchemaSet.wellFormed_of_build built
  have faults := r.decodeRecord_faults wf (begins_of_ofBytes first) opt (s := s) rfl
  rw [show (decodeRecord r.set r.type opt).run s = _ from failed] at faults
  cases faults
  case error fault =>
    obtain ⟨rfl, trail, blames⟩ := fault p told
    have on := (on_of_ofBytes first).trail trail
    have heads := on.stands.heads
    rw [on.source] at heads
    have inside : s'.cursor.start < source.length := by
      have length := on.stands.reader.length
      have start := on.stands.start
      rw [on.source] at length
      omega
    refine ⟨s'.cursor, trail, rfl, heads, ?_, blames⟩
    show Position.Tells source (.of s'.cursor.source s'.cursor.start)
    rw [on.source]
    exact Position.tells_of inside

-- Where the inner of two objects ends, a field is missing: that a member of an unknown name holds
-- an object with such a name is of no help.
theorem decodeRecord_pointsAt_end :
    let _ : UuidFormat := .hyphenated
    let types : List TypeDecl := [⟨"Node", [{ name := "ids", type := .list (.scalar (.int .w8)) },
      { name := "next", type := .named "Node", nullable := true }]⟩]
    let set : SchemaSet := ⟨[⟨⟨0⟩, "Node", [⟨"ids", 0, .list (.scalar (.int .w8)), false, false⟩,
      ⟨"next", 1, .recursive, true, false⟩]⟩]⟩
    let source :=
      Json.plain "\x7b\"ids\":[],\n\"next\":\x7b\"x\":\x7b\"ids\":[]\x7d\x7d\x7d".toList
    let first : TextCursor := { initial source with
      reader := ⟨1, source.drop 1⟩, kind := .objectStart, stack := [.object], expect := .keyOrEnd }
    let p : Position := ⟨33, 2, 23⟩
    let e : DecodeError := .missingFields "Node" ["ids"] (some p)
    ofBytes source = .ok first ∧ SchemaSet.build types = .ok set ∧
      (∃ s', (decodeRecord set ⟨0⟩ .default).run { cursor := first } = .error e s') ∧
      e.position = some p ∧ ∃ c, Request.PointsAt ⟨set, ⟨0⟩, first⟩ source e p c := by
  intro _ types set source first p e
  have start : ofBytes source = .ok first := rfl
  have built : SchemaSet.build types = .ok set := by rfl
  let o := (decodeRecord set ⟨0⟩ .default).run { cursor := first }
  have failed : ∃ s', o = .error e s' := by
    have fails : (match o with | .ok _ _ => none | .error e _ => some e) = some e := by
      decide +kernel
    generalize o = o at fails
    cases o <;> cases fails
    exact ⟨_, rfl⟩
  have ⟨_, fails⟩ := failed
  exact ⟨start, built, failed, rfl, decodeRecord_pointsAt start built fails rfl⟩

end RecordDecoding
