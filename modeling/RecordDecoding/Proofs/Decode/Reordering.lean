import RecordDecoding.External.Uuid
import RecordDecoding.Proofs.Decode.Sources

namespace RecordDecoding

-- Both fail, or both succeed with related values.
inductive Agree {ε α β : Type} (R : α → β → Prop) : Except ε α → Except ε β → Prop
  | ok {a b} : R a b → Agree R (.ok a) (.ok b)
  | error {e e'} : Agree R (.error e) (.error e')

namespace Agree

variable {ε α α' β β' γ : Type} {R : α → β → Prop} {S : α' → β' → Prop}

theorem refl (x : Except ε α) : Agree Eq x x := by
  cases x
  case ok    => exact .ok rfl
  case error => exact .error

theorem symm {x y : Except ε α} (h : Agree Eq x y) : Agree Eq y x := by
  cases h
  case ok h  => exact .ok h.symm
  case error => exact .error

theorem trans {T : β → γ → Prop} {U : α → γ → Prop} {x : Except ε α} {y : Except ε β}
    {z : Except ε γ} (h : Agree R x y) (h' : Agree T y z) (hu : ∀ {a b c}, R a b → T b c → U a c) :
    Agree U x z := by
  cases h <;> cases h'
  case ok.ok h _ h' => exact .ok (hu h h')
  case error.error  => exact .error

theorem bind {x : Except ε α} {y : Except ε β} {f : α → Except ε α'} {g : β → Except ε β'}
    (h : Agree R x y) (hf : ∀ {a b}, R a b → Agree S (f a) (g b)) :
    Agree S (x >>= f) (y >>= g) := by
  cases h
  case ok h  => exact hf h
  case error => exact .error

theorem map {f : α → α'} {g : β → β'} {x : Except ε α} {y : Except ε β} (h : Agree R x y)
    (hf : ∀ {a b}, R a b → S (f a) (g b)) : Agree S (f <$> x) (g <$> y) := by
  cases h
  case ok h  => exact .ok (hf h)
  case error => exact .error

theorem of_map {f : α → α'} (hf : f.Injective) {x y : Except ε α}
    (h : Agree Eq (f <$> x) (f <$> y)) : Agree Eq x y := by
  cases x <;> cases y <;> cases h
  case error.error  => exact .error
  case ok.ok a b h => exact .ok (hf h)

theorem ok_iff {x y : Except ε α} (h : Agree Eq x y) (a : α) : x = .ok a ↔ y = .ok a := by
  cases h
  case ok h  => rw [h]
  case error => simp

theorem error_iff {x : Except ε α} {y : Except ε β} (h : Agree R x y) :
    (∃ e, x = .error e) ↔ ∃ e, y = .error e := by
  cases h <;> simp

end Agree

namespace TokenTree

-- No field is named twice.
def NamedOnce (schema : Schema) (members : List (MemberName × TokenTree)) : Prop :=
  (members.filterMap fun m => schema.fieldNamed? m.1.text).Nodup

instance {schema : Schema} {members : List (MemberName × TokenTree)} :
    Decidable (NamedOnce schema members) :=
  inferInstanceAs (Decidable (List.Nodup _))

mutual

-- Values of a kind that differ at most in the order of the members of objects in them, as far as
-- these are decoded. No field is named twice in an object whose members are in another order.
inductive Reordered (set : SchemaSet) : Schema → FieldKind → TokenTree → TokenTree → Prop
  | same {owner k t} : Reordered set owner k t t
  | list {owner inner items items'} : ReorderedItems set owner inner items items' →
    Reordered set owner (.list inner) (.array items) (.array items')
  | object {owner k target members aligned members'} : k.schema? set owner = some target →
    NamedOnce target members → ReorderedMembers set target members aligned →
    aligned.Perm members' → Reordered set owner k (.object members) (.object members')

inductive ReorderedItems (set : SchemaSet) : Schema → FieldKind → List TokenTree →
    List TokenTree → Prop
  | nil {owner inner} : ReorderedItems set owner inner [] []
  | cons {owner inner item item' items items'} : Reordered set owner inner item item' →
    ReorderedItems set owner inner items items' →
    ReorderedItems set owner inner (item :: items) (item' :: items')

-- Here the members are in the same order, and their values are reordered.
inductive ReorderedMembers (set : SchemaSet) : Schema → List (MemberName × TokenTree) →
    List (MemberName × TokenTree) → Prop
  | nil {schema} : ReorderedMembers set schema [] []
  | keep {schema m members members'} : ReorderedMembers set schema members members' →
    ReorderedMembers set schema (m :: members) (m :: members')
  | known {schema name tree tree' members members' field} :
    schema.fieldNamed? name.text = some field → Reordered set schema field.kind tree tree' →
    ReorderedMembers set schema members members' →
    ReorderedMembers set schema ((name, tree) :: members) ((name, tree') :: members')

end

namespace States

variable {states states' : States}

-- With each field there at most once, the last that is said of it is all that is said.
theorem last?_eq_some_iff (once : (states.map (·.1)).Nodup) (field : Field)
    (state : TriState Value) : states.last? field = some state ↔ (field, state) ∈ states := by
  have of_found (p) (h : states.reverse.find? (·.1 = field) = some p) : p ∈ states ∧ p.1 = field :=
    ⟨List.mem_reverse.mp (List.mem_of_find?_eq_some h), by simpa using List.find?_some h⟩
  rw [last?, Option.map_eq_some_iff]
  constructor
  case mp =>
    rintro ⟨p, found, rfl⟩
    obtain ⟨mem, hf⟩ := of_found p found
    exact hf ▸ mem
  case mpr =>
    intro mem
    have some : (states.reverse.find? (·.1 = field)).isSome :=
      List.find?_isSome.mpr ⟨_, List.mem_reverse.mpr mem, by simp⟩
    obtain ⟨p, found⟩ := Option.isSome_iff_exists.mp some
    obtain ⟨mem', hf⟩ := of_found p found
    exact ⟨p, found, congrArg Prod.snd (List.inj_on_of_nodup_map once mem' mem hf)⟩

theorem last?_perm (h : states.Perm states') (once : (states.map (·.1)).Nodup) (field : Field) :
    states.last? field = states'.last? field := by
  have once' := (h.map (·.1)).nodup once
  ext state
  simp only [last?_eq_some_iff once, last?_eq_some_iff once', h.mem_iff]

theorem record_perm (h : states.Perm states') (once : (states.map (·.1)).Nodup) (schema : Schema) :
    states.record schema = states'.record schema := by
  simp only [record, slot, last?_perm h once]

end States

section

variable {set : SchemaSet} {rules : DecodeRules} {read : ScalarReading}
variable {schema : Schema} {depth index index' : Nat}
variable {members members' : List (MemberName × TokenTree)} {states states' : States}

theorem missing_eq_of_names (h : (members.map (·.1)).Perm (members'.map (·.1))) :
    missing schema members = missing schema members' := by
  refine missing_congr fun field _ => ?_
  have all := h.all_eq (f := fun name => decide (name.text ≠ field.name))
  rw [List.all_map, List.all_map] at all
  exact all

theorem close_agree (hs : states.Perm states') (once : (states.map (·.1)).Nodup)
    (names : (members.map (·.1)).Perm (members'.map (·.1))) :
    Agree Eq (close schema members states) (close schema members' states') := by
  rw [close_congr (missing_eq_of_names names), close, close]
  split
  case h_1 => exact .ok (States.record_perm hs once schema)
  case h_2 => exact .error

-- The members speak of the fields they name, in their order.
theorem fields_of_memberVerdicts
    (h : memberVerdicts set rules (fun _ => read) schema depth index members = .ok states) :
    states.map (·.1) = members.filterMap fun m => schema.fieldNamed? m.1.text := by
  induction members generalizing index states
  case nil =>
    rw [memberVerdicts] at h
    cases h
    rfl
  case cons m members ih =>
    have ⟨more, hm, h⟩ := memberVerdicts_cons_ok h
    rcases h with ⟨hf, rfl⟩ | ⟨field, state, hf, rfl⟩
    case inl => rw [List.filterMap_cons, hf, ih hm]
    case inr => rw [List.filterMap_cons, hf, List.map_cons, ih hm]

-- Members in another order say the same, in another order.
theorem memberVerdicts_perm (h : members.Perm members') : Agree List.Perm
    (memberVerdicts set rules (fun _ => read) schema depth index members)
    (memberVerdicts set rules (fun _ => read) schema depth index' members') := by
  induction h generalizing index index'
  case nil => exact .ok .nil
  case cons m _ _ _ ih =>
    rw [memberVerdicts_cons, memberVerdicts_cons, memberVerdict_free _ _ _ _ _ index index']
    refine (Agree.refl _).bind fun {state _} hs => ih.bind fun h => ?_
    exact .ok (hs ▸ h.append_left _)
  case swap m m' members =>
    simp only [memberVerdicts_cons, memberVerdicts_free _ _ _ _ _ _ 0]
    generalize memberVerdict set rules (fun _ => read) schema depth 0 m = x,
      memberVerdict set rules (fun _ => read) schema depth 0 m' = y,
      memberVerdicts set rules (fun _ => read) schema depth 0 members = z
    cases x <;> cases y <;> cases z
    case ok.ok.ok => exact .ok (List.perm_append_comm_assoc ..)
    all_goals exact .error
  case trans h h' ih ih' => exact (@ih index 0).trans ih' .trans

theorem inside_agree {α β : Type} {R : α → β → Prop} {x : Except DecodeError α}
    {y : Except DecodeError β} (h : Agree R x y) :
    Agree R (inside rules depth x) (inside rules depth y) := by
  unfold inside
  split
  case isTrue  => exact .error
  case isFalse => exact h

theorem stateOf_agree {field : Field} {kind : TokenKind} {x y : Except DecodeError Value}
    (h : Agree Eq x y) : Agree Eq (stateOf schema field kind x) (stateOf schema field kind y) := by
  unfold stateOf
  split
  case isTrue  => exact .refl _
  case isFalse =>
    rw [map_eq_pure_bind, map_eq_pure_bind]
    exact h.bind fun h => .ok (congrArg _ h)

-- Once the members say the same in another order, they make the same record.
theorem objectVerdict_agree (once : NamedOnce schema members)
    (names : (members.map (·.1)).Perm (members'.map (·.1)))
    (h : Agree List.Perm
      (memberVerdicts set rules (fun _ => read) schema (depth + 1) (index + 1) members)
      (memberVerdicts set rules (fun _ => read) schema (depth + 1) (index' + 1) members')) :
    Agree Eq (objectVerdict set rules (fun _ => read) schema depth index members)
      (objectVerdict set rules (fun _ => read) schema depth index' members') := by
  refine inside_agree ?_
  cases hst : memberVerdicts set rules (fun _ => read) schema (depth + 1) (index + 1) members
  all_goals
    rw [hst] at h
    generalize memberVerdicts set rules (fun _ => read) schema (depth + 1) (index' + 1) members' = y
      at h
    cases h
  case error     => exact .error
  case ok.ok h   => exact close_agree h (fields_of_memberVerdicts hst ▸ once) names

end

section

variable {set : SchemaSet} {owner : Schema} {k : FieldKind} {inner : FieldKind} {t t' : TokenTree}
variable {items items' : List TokenTree} {members members' : List (MemberName × TokenTree)}

theorem Reordered.kind_eq (h : Reordered set owner k t t') : t.kind = t'.kind := by
  cases h <;> rfl

theorem ReorderedMembers.names_eq (h : ReorderedMembers set owner members members') :
    members.map (·.1) = members'.map (·.1) := by
  induction members generalizing members'
  case nil =>
    cases h
    rfl
  case cons ih =>
    cases h
    case keep h  => simp only [List.map_cons, ih h]
    case known h => simp only [List.map_cons, ih h]

end

section

variable {set : SchemaSet} (rules : DecodeRules) (read : ScalarReading)

mutual

theorem Reordered.agree : ∀ {owner : Schema} {k : FieldKind} {t t' : TokenTree},
    Reordered set owner k t t' → ∀ (field : Field) (depth index index' : Nat),
    Agree Eq (t.verdict set rules (fun _ => read) owner field k depth index)
      (t'.verdict set rules (fun _ => read) owner field k depth index')
  | _, _, t, _, .same, field, depth, index, index' => by
    rw [verdict_free _ _ _ _ _ _ _ index index' t]
    exact .refl _
  | _, _, _, _, .list h, field, depth, index, index' =>
    (inside_agree (h.agree field (depth + 1) (index + 1) (index' + 1) 0)).bind fun h =>
      .ok (congrArg _ h)
  | _, _, .object members, .object members', .object found once h perm, field, depth, index,
      index' => by
    have names : (members.map (·.1)).Perm (members'.map (·.1)) := h.names_eq ▸ perm.map (·.1)
    simp only [verdict, found]
    refine (objectVerdict_agree once names ?_).bind fun h => .ok (congrArg _ h)
    exact (h.agree (depth + 1) (index + 1) 0).trans (memberVerdicts_perm perm) fun h h' => h ▸ h'

theorem ReorderedItems.agree : ∀ {owner : Schema} {inner : FieldKind}
    {items items' : List TokenTree}, ReorderedItems set owner inner items items' →
    ∀ (field : Field) (depth index index' count : Nat),
    Agree Eq (itemVerdicts set rules (fun _ => read) owner field inner depth index count items)
      (itemVerdicts set rules (fun _ => read) owner field inner depth index' count items')
  | _, _, _, _, .nil, _, _, _, _, _ => .ok rfl
  | _, _, _, _, .cons hi h, field, depth, index, index', count => by
    rw [itemVerdicts, itemVerdicts, hi.kind_eq]
    split
    case isTrue => exact .error
    case isFalse =>
      split
      case isTrue => exact .error
      case isFalse =>
        refine (hi.agree field depth index index').bind fun hv => ?_
        refine (h.agree field depth _ _ (count + 1)).bind fun h => ?_
        exact .ok (by rw [hv, h])

theorem ReorderedMembers.agree : ∀ {schema : Schema}
    {members members' : List (MemberName × TokenTree)},
    ReorderedMembers set schema members members' → ∀ (depth index index' : Nat),
    Agree Eq (memberVerdicts set rules (fun _ => read) schema depth index members)
      (memberVerdicts set rules (fun _ => read) schema depth index' members')
  | _, _, _, .nil, _, _, _ => .ok rfl
  | _, _, _, .keep h, depth, index, index' => by
    rw [memberVerdicts_cons, memberVerdicts_cons, memberVerdict_free _ _ _ _ _ index index']
    refine (Agree.refl _).bind fun hs => (h.agree depth _ _).bind fun h => ?_
    exact .ok (by rw [hs, h])
  | _, _, _, .known hf ht h, depth, index, index' => by
    simp only [memberVerdicts, hf, ht.kind_eq]
    refine (stateOf_agree (ht.agree _ depth _ _)).bind fun hs => ?_
    refine (h.agree depth _ _).bind fun h => ?_
    exact .ok (by rw [hs, h])

end

end
end TokenTree

open TokenTree

theorem Outcome.Gives.agree {ε σ α : Type} {E : ε → ε → Prop} {P : σ → Prop} {o : Outcome ε σ α}
    {r : Except ε α} (h : o.Gives E P r) : Agree Eq o.result r := by
  cases h
  case ok    => exact .ok rfl
  case error => exact .error

-- Both runs decode the same record, or both fail.
structure SameRecord {σ : Type} (o o' : Outcome DecodeError (Session σ) (Option Record)) :
    Prop where
  record (r) : o.result = .ok (some r) ↔ o'.result = .ok (some r)
  fails : (∃ e, o.result = .error e) ↔ ∃ e, o'.result = .error e

section

variable {set : SchemaSet} {id : SchemaId} {schema : Schema}
variable {members members' : List (MemberName × TokenTree)}

theorem TokenTree.Reordered.sameRecord {σ : Type} {opt : DecodeOptions}
    {o o' : Outcome DecodeError (Session σ) (Option Record)}
    {read : ScalarReading}
    (h : Reordered set schema .recursive (.object members) (.object members'))
    (heeds : o.Heeds set opt read schema members) (heeds' : o'.Heeds set opt read schema members') :
    SameRecord o o' := by
  have verdicts := h.agree opt.rules read ⟨"", 0, .recursive, false, false⟩ 0 0 0
  rw [verdict_root, verdict_root] at verdicts
  have same := (verdicts.of_map fun _ _ => Value.record.inj).map (congrArg some)
  have agree := (heeds.agree.trans same Eq.trans).trans heeds'.agree.symm Eq.trans
  exact ⟨fun _ => agree.ok_iff _, agree.error_iff⟩

-- The order of members matters neither in what is replayed nor in a text, as long as no field is
-- named twice in an object whose members are in another order.
theorem decodeRecord_reordered [UuidFormat] {types : List TypeDecl}
    (built : SchemaSet.build types = .ok set) (found : set.get? id = some schema)
    (opt : DecodeOptions)
    (reordered : Reordered set schema .recursive (.object members) (.object members')) :
    (∃ r r', Replay.ofTokens (object members).tokens none = .ok r ∧
      Replay.ofTokens (object members').tokens none = .ok r' ∧
      SameRecord ((decodeRecord set id opt).run { cursor := r })
        ((decodeRecord set id opt).run { cursor := r' })) ∧
    ∀ (j j' : Json) (bytes bytes' : List UInt8), j.tree = .object members →
      j'.tree = .object members' → Json.IsText j bytes → Json.IsText j' bytes' →
      ∃ c c', TextCursor.ofBytes bytes = .ok c ∧ TextCursor.ofBytes bytes' = .ok c' ∧
        SameRecord ((decodeRecord set id opt).run { cursor := c })
          ((decodeRecord set id opt).run { cursor := c' }) := by
  have wf := SchemaSet.wellFormed_of_build built
  constructor
  case left =>
    have ⟨r, hr, heeds⟩ := heeds_of_tokens wf found members
    have ⟨r', hr', heeds'⟩ := heeds_of_tokens wf found members'
    exact ⟨r, r', hr, hr', reordered.sameRecord (heeds opt) (heeds' opt)⟩
  case right =>
    intro j j' bytes bytes' tree tree' text text'
    have ⟨c, hc, heeds⟩ := heeds_of_text wf found tree text
    have ⟨c', hc', heeds'⟩ := heeds_of_text wf found tree' text'
    exact ⟨c, c', hc, hc', reordered.sameRecord (heeds opt) (heeds' opt)⟩

-- Both the members of the root and those of the object in it are in another order.
theorem decodeRecord_reordered_node :
    let _ : UuidFormat := .hyphenated
    let types : List TypeDecl := [⟨"Node", [
      { name := "a", type := .scalar .bool },
      { name := "b", type := .named "Node", nullable := true }]⟩]
    let schema : Schema := ⟨⟨0⟩, "Node", [
      ⟨"a", 0, .scalar .bool, false, false⟩, ⟨"b", 1, .recursive, true, false⟩]⟩
    let pairs : List (String × Json) :=
      [("a", .bool true), ("b", .object [("a", .bool false), ("c", .null)])]
    let j : Json := .object pairs
    let j' : Json := .object [
      ("b", .object [("c", .null), ("a", .bool false)]), ("a", .bool true)]
    let inner : Record := ⟨"Node", [⟨"a", .value (.bool false)⟩, ⟨"b", .value .null⟩]⟩
    let node : Record := ⟨"Node", [⟨"a", .value (.bool true)⟩, ⟨"b", .value (.record inner)⟩]⟩
    let bytes := Json.plain "\x7b\"a\":true,\"b\":\x7b\"a\":false,\"c\":null\x7d\x7d".toList
    let bytes' := Json.plain "\x7b\"b\":\x7b\"c\":null,\"a\":false\x7d,\"a\":true\x7d".toList
    SchemaSet.build types = .ok ⟨[schema]⟩ ∧ Json.IsText j bytes ∧ Json.IsText j' bytes' ∧
      Reordered ⟨[schema]⟩ schema .recursive j.tree j'.tree ∧
      (∃ r r', Replay.ofTokens j.tree.tokens none = .ok r ∧
        Replay.ofTokens j'.tree.tokens none = .ok r' ∧
        ((decodeRecord ⟨[schema]⟩ ⟨0⟩ .default).run { cursor := r }).result = .ok (some node) ∧
        SameRecord ((decodeRecord ⟨[schema]⟩ ⟨0⟩ .default).run { cursor := r })
          ((decodeRecord ⟨[schema]⟩ ⟨0⟩ .default).run { cursor := r' })) ∧
      ∃ c c', TextCursor.ofBytes bytes = .ok c ∧ TextCursor.ofBytes bytes' = .ok c' ∧
        SameRecord ((decodeRecord ⟨[schema]⟩ ⟨0⟩ .default).run { cursor := c })
          ((decodeRecord ⟨[schema]⟩ ⟨0⟩ .default).run { cursor := c' }) := by
  intro _ types schema pairs j j' inner node bytes bytes'
  have built : SchemaSet.build types = .ok ⟨[schema]⟩ := by rfl
  have found : SchemaSet.get? ⟨[schema]⟩ ⟨0⟩ = some schema := rfl
  have none : Json.Blank [] := nofun
  have a : Json.StringText "a" (Json.plain "\"a\"".toList) := .plain ['a'] (by decide)
  have b : Json.StringText "b" (Json.plain "\"b\"".toList) := .plain ['b'] (by decide)
  have c : Json.StringText "c" (Json.plain "\"c\"".toList) := .plain ['c'] (by decide)
  have text : Json.IsText j bytes :=
    ⟨[], _, [], none, .object (.cons (.of none a none none .true) none (.one (.of none b none none
      (.object (.cons (.of none a none none .false) none (.one (.of none c none none .null) none))))
      none)), none, rfl⟩
  have text' : Json.IsText j' bytes' :=
    ⟨[], _, [], none, .object (.cons (.of none b none none
      (.object (.cons (.of none c none none .null) none (.one (.of none a none none .false) none))))
      none (.one (.of none a none none .true) none)), none, rfl⟩
  have inner : Reordered ⟨[schema]⟩ schema .recursive
      (.object [(.fresh "a", .leaf (.bool false)), (.fresh "c", .leaf .null)])
      (.object [(.fresh "c", .leaf .null), (.fresh "a", .leaf (.bool false))]) :=
    .object rfl (by decide) (.keep (.keep .nil)) (.swap ..)
  have reordered : Reordered ⟨[schema]⟩ schema .recursive j.tree j'.tree :=
    .object rfl (by decide) (.known rfl .same (.known rfl inner .nil)) (.swap ..)
  have ⟨⟨r, r', hr, hr', same⟩, texts⟩ := decodeRecord_reordered built found .default reordered
  refine ⟨built, text, text', reordered, ⟨r, r', hr, hr', ?_, same⟩,
    texts j j' bytes bytes' rfl rfl text text'⟩
  have wf := SchemaSet.wellFormed_of_build built
  have ⟨_, hr₀, heeds⟩ := heeds_of_tokens wf found (Json.memberTrees pairs)
  cases hr.symm.trans hr₀
  exact (heeds .default).result_eq rfl

end
end RecordDecoding
