import RecordDecoding.Proofs.Decode.Feed
import RecordDecoding.Proofs.Presence
import RecordDecoding.Proofs.Schema.WellFormed

namespace RecordDecoding

open TokenTree

structure Filling.Holds (f : Filling) (schema : Schema) (states : States) : Prop where
  slots  : f.slots = schema.fields.map fun field => (states.last? field).getD .undefined
  tracks : f.seen.Tracks schema.length
  seen   : ∀ field ∈ schema.fields,
    f.seen.isMarked field.ordinal = (!field.isRequired || states.any (·.1 = field))

namespace TokenTree.States

variable {states : States} {field : Field} {state : TriState Value}

theorem last?_concat (states : States) (field other : Field) (state : TriState Value) :
    States.last? (states ++ [(field, state)]) other =
      if field = other then some state else states.last? other := by
  rw [last?, List.reverse_append, List.reverse_singleton, List.singleton_append, List.find?_cons]
  by_cases h : field = other <;> simp [h, last?]

theorem slotOf_last? (states : States) (field : Field) :
    Filling.slotOf field ((states.last? field).getD .undefined) = states.slot field := by
  unfold Filling.slotOf slot
  split
  case isTrue  => rfl
  case isFalse => rcases states.last? field with _ | _ | _ | _ <;> rfl

end TokenTree.States

section States

variable {set : SchemaSet} {rules : DecodeRules} {read : LeafReading} {schema : Schema}
variable {depth index : Nat} {members : List (MemberName × TokenTree)} {states : States}

-- What the first member of some speaks of.
theorem TokenTree.memberVerdicts_cons_ok {name : MemberName} {tree : TokenTree}
    (h : memberVerdicts set rules read schema depth index ((name, tree) :: members) = .ok states) :
    ∃ more, memberVerdicts set rules read schema depth (index + 1 + tree.size) members = .ok more ∧
      ((schema.fieldNamed? name.text = none ∧ states = more) ∨
        ∃ field state, schema.fieldNamed? name.text = some field ∧
          states = (field, state) :: more) := by
  rw [memberVerdicts] at h
  split at h
  case h_1 field hf =>
    obtain ⟨state, _, h⟩ := ok_of_bind_ok h
    obtain ⟨more, hm, h⟩ := ok_of_bind_ok h
    cases h
    exact ⟨more, hm, .inr ⟨field, state, hf, rfl⟩⟩
  case h_2 hf =>
    split at h
    · cases h
    · exact ⟨states, h, .inl ⟨hf, rfl⟩⟩

-- The members speak of fields of the schema, and of those that they have the names of.
theorem TokenTree.memberVerdicts_ok (wf : schema.WellFormed)
    (h : memberVerdicts set rules read schema depth index members = .ok states) :
    (∀ p ∈ states, p.1 ∈ schema.fields) ∧ ∀ field ∈ schema.fields,
      states.any (·.1 = field) = members.any (·.1.text = field.name) := by
  induction members generalizing index states
  case nil =>
    rw [memberVerdicts] at h
    cases h
    simp
  case cons m members ih =>
    have ⟨more, hm, h⟩ := memberVerdicts_cons_ok h
    have ⟨known, names⟩ := ih hm
    rcases h with ⟨hf, rfl⟩ | ⟨field, state, hf, rfl⟩
    case inl =>
      refine ⟨known, fun field h => ?_⟩
      have hn := Schema.fieldNamed?_eq_none_iff.mp hf field h
      rw [List.any_cons, names field h, decide_eq_false (Ne.symm hn), Bool.false_or]
    case inr =>
      have mem := Schema.mem_of_fieldNamed? hf
      have hn := Schema.name_of_fieldNamed? hf
      refine ⟨List.forall_mem_cons.mpr ⟨mem, known⟩, fun other ho => ?_⟩
      have he : field = other ↔ m.1.text = other.name :=
        ⟨fun e => e ▸ hn.symm, fun e => wf.eq_of_name_eq mem ho (hn.trans e)⟩
      simp only [List.any_cons, names other ho, he]

end States

namespace Filling

variable {schema : Schema} (wf : schema.WellFormed)

section

include wf

theorem holds_blank : (blank schema).Holds schema [] where
  slots := by
    simp only [blank, States.last?, List.reverse_nil, List.find?_nil, Option.map_none,
      Option.getD_none]
    exact (List.map_const' ..).symm
  tracks := Presence.tracks_seed _ _
  seen field hf := by
    have mem : field.ordinal ∈ (schema.fields.filter (!·.isRequired)).map (·.ordinal) ↔
        field.isRequired = false := by
      refine ⟨fun h => ?_, fun h => ?_⟩
      · have ⟨g, hg, ho⟩ := List.mem_map.mp h
        have ⟨hg, hr⟩ := List.mem_filter.mp hg
        rw [wf.eq_of_ordinal_eq hf hg ho.symm]
        simpa using hr
      · exact List.mem_map_of_mem (List.mem_filter.mpr ⟨hf, by simp [h]⟩)
    simp only [blank, Schema.seed, Presence.isMarked_seed, mem, wf.ordinal_lt hf]
    cases field.isRequired <;> rfl

theorem Holds.put {f : Filling} {states : States} (h : f.Holds schema states) {field : Field}
    (hf : field ∈ schema.fields) (state : TriState Value) :
    (f.put field state).Holds schema (states ++ [(field, state)]) where
  slots := by
    refine List.ext_getElem (by simp [Filling.put, h.slots]) fun i hi hi' => ?_
    simp only [List.length_map] at hi'
    have ho : field.ordinal = i ↔ field = schema.fields[i] := by
      refine ⟨fun e => ?_, fun e => e ▸ wf.ordinal_getElem hi'⟩
      exact wf.eq_of_ordinal_eq hf (List.getElem_mem hi') (e.trans (wf.ordinal_getElem hi').symm)
    simp only [Filling.put, h.slots, List.getElem_set, List.getElem_map, States.last?_concat, ho]
    split <;> rfl
  tracks := h.tracks.mark _
  seen other ho := by
    have he : field.ordinal = other.ordinal ↔ field = other :=
      ⟨wf.eq_of_ordinal_eq hf ho, congrArg _⟩
    simp only [Filling.put, h.tracks.isMarked_mark, h.seen other ho, he, wf.ordinal_lt hf, and_true,
      List.any_append, List.any_cons, List.any_nil, Bool.or_false, Bool.or_assoc]

-- Fills in one state after the other.
theorem Holds.foldl_put {f : Filling} {states : States} (h : f.Holds schema states) (more : States)
    (known : ∀ p ∈ more, p.1 ∈ schema.fields) :
    (more.foldl (fun f (field, state) => f.put field state) f).Holds schema (states ++ more) := by
  induction more generalizing f states
  case nil => simpa using h
  case cons p more ih =>
    have ⟨hp, known⟩ := List.forall_mem_cons.mp known
    have := ih (h.put wf hp p.2) known
    simpa using this

end

variable {f : Filling} {states : States}

theorem Holds.record_eq (h : f.Holds schema states) : f.record schema = states.record schema := by
  simp only [Filling.record, States.record, h.slots, List.zipWith_map_right, List.zipWith_self,
    States.slotOf_last?]

include wf

-- The fields with ordinals of some sort, in the order of the ordinals.
theorem filterMap_field? (p : Nat → Bool) :
    ((List.range schema.length).filter p).filterMap schema.field? =
      schema.fields.filter fun field => p field.ordinal := by
  have found : ∀ field ∈ schema.fields.filter (p ∘ (·.ordinal)),
      (schema.field? ∘ (·.ordinal)) field = some field :=
    fun field hf => wf.field?_ordinal (List.mem_of_mem_filter hf)
  rw [← wf.ordinals, List.filter_map, List.filterMap_map, List.filterMap_congr found,
    List.filterMap_some]
  rfl

section Pending

variable {field : Field} {name : String} {state : TriState Value}

-- A field of the name is not satisfied yet.
def Pending (f : Filling) (schema : Schema) (name : String) : Prop :=
  ∃ field ∈ schema.fields, field.name = name ∧ f.seen.isMarked field.ordinal = false

theorem Pending.of_put (h : f.Holds schema states) (hf : field ∈ schema.fields)
    (hp : (f.put field state).Pending schema name) :
    f.Pending schema name ∧ name ≠ field.name := by
  obtain ⟨other, ho, rfl, unmarked⟩ := hp
  rw [put, h.tracks.isMarked_mark, Bool.or_eq_false_iff, decide_eq_false_iff_not] at unmarked
  refine ⟨⟨other, ho, rfl, unmarked.1⟩, fun hn => ?_⟩
  cases wf.eq_of_name_eq ho hf hn
  exact unmarked.2 ⟨rfl, wf.ordinal_lt hf⟩

-- What is missing in the end is required, and was pending until then.
theorem Holds.pending_of_missing (h : f.Holds schema states) (hf : field ∈ f.missing schema) :
    field ∈ schema.fields ∧ field.isRequired ∧ f.Pending schema field.name := by
  rw [missing, h.tracks.missing_eq, filterMap_field? wf, List.mem_filter] at hf
  have unmarked : f.seen.isMarked field.ordinal = false := by simpa using hf.2
  refine ⟨hf.1, ?_, field, hf.1, rfl, unmarked⟩
  have seen := h.seen field hf.1
  rw [unmarked] at seen
  have := Bool.or_eq_false_iff.mp seen.symm
  simpa using this.1

end Pending

variable {members : List (MemberName × TokenTree)}

section

variable (h : f.Holds schema states)
variable (names : ∀ field ∈ schema.fields,
  states.any (·.1 = field) = members.any (·.1.text = field.name))
include h names

omit wf in
theorem Holds.isMarked_eq (field : Field) (hf : field ∈ schema.fields) :
    (!f.seen.isMarked field.ordinal) =
      (field.isRequired && members.all (·.1.text ≠ field.name)) := by
  rw [h.seen field hf, names field hf, Bool.not_or, Bool.not_not, List.not_any_eq_all_not]
  simp only [ne_eq, decide_not]

theorem Holds.missing_eq : f.missing schema = TokenTree.missing schema members := by
  rw [Filling.missing, h.tracks.missing_eq, filterMap_field? wf]
  exact List.filter_congr (h.isMarked_eq names)

theorem Holds.isComplete_iff : f.seen.isComplete ↔ TokenTree.missing schema members = [] := by
  rw [h.tracks.isComplete_iff, TokenTree.missing, List.filter_eq_nil_iff]
  constructor
  case mp =>
    intro marked field hf
    rw [← h.isMarked_eq names field hf, marked _ (wf.ordinal_lt hf)]
    exact Bool.false_ne_true
  case mpr =>
    intro none i hi
    have := none schema.fields[i] (List.getElem_mem hi)
    rw [← h.isMarked_eq names _ (List.getElem_mem hi), wf.ordinal_getElem hi] at this
    simpa using this

theorem Holds.complete_gives [UuidFormat] {σ : Type} [Cursor σ] {feed : Feed σ}
    {P : Session σ → Prop} {s : Session σ} {index : Nat} {tokens : List Token}
    (on : feed.On s.cursor index tokens) (hs : P s) :
    ((f.complete schema).run s).Gives feed.error P (close schema members states) := by
  have done := h.isComplete_iff wf names
  unfold Filling.complete close
  split
  case isTrue hc =>
    rw [done.mp hc, h.record_eq]
    exact .ok hs
  case isFalse hc =>
    rw [h.missing_eq wf names]
    split
    case h_1 hm => exact absurd (done.mpr hm) hc
    case h_2    => exact .error (feed.error_at (.missingFields _ _ none) on)

end

end Filling
end RecordDecoding
