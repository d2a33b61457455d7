import RecordDecoding.External.Uuid
import RecordDecoding.Proofs.Decode.Sources
import RecordDecoding.Proofs.Schema.WellFormed

namespace RecordDecoding

namespace TokenTree

mutual

-- Values of a kind where the second has `n` members more, which no field has. They are in objects
-- that are decoded.
inductive Padded (set : SchemaSet) : Schema → FieldKind → Nat → TokenTree → TokenTree → Prop
  | same {owner k t} : Padded set owner k 0 t t
  | list {owner inner n items items'} : PaddedItems set owner inner n items items' →
    Padded set owner (.list inner) n (.array items) (.array items')
  | object {owner k target n members members'} : k.schema? set owner = some target →
    PaddedMembers set target n members members' →
    Padded set owner k n (.object members) (.object members')

inductive PaddedItems (set : SchemaSet) : Schema → FieldKind → Nat → List TokenTree →
    List TokenTree → Prop
  | nil {owner inner} : PaddedItems set owner inner 0 [] []
  | cons {owner inner m n item item' items items'} : Padded set owner inner m item item' →
    PaddedItems set owner inner n items items' →
    PaddedItems set owner inner (m + n) (item :: items) (item' :: items')

inductive PaddedMembers (set : SchemaSet) : Schema → Nat → List (MemberName × TokenTree) →
    List (MemberName × TokenTree) → Prop
  | nil {schema} : PaddedMembers set schema 0 [] []
  | keep {schema n m members members'} : PaddedMembers set schema n members members' →
    PaddedMembers set schema n (m :: members) (m :: members')
  | known {schema m n name tree tree' members members' field} :
    schema.fieldNamed? name.text = some field → Padded set schema field.kind m tree tree' →
    PaddedMembers set schema n members members' →
    PaddedMembers set schema (m + n) ((name, tree) :: members) ((name, tree') :: members')
  -- Of any name and value, as long as no field has this name.
  | insert {schema n name tree members members'} : schema.fieldNamed? name.text = none →
    PaddedMembers set schema n members members' →
    PaddedMembers set schema (n + 1) members ((name, tree) :: members')

end

section

variable {set : SchemaSet}

theorem Padded.kind_eq {owner : Schema} {k : FieldKind} {n : Nat} {t t' : TokenTree}
    (h : Padded set owner k n t t') : t.kind = t'.kind := by
  cases h <;> rfl

theorem PaddedItems.length_eq {owner : Schema} {inner : FieldKind} {n : Nat}
    {items items' : List TokenTree} (h : PaddedItems set owner inner n items items') :
    items.length = items'.length := by
  induction items generalizing n items'
  case nil =>
    cases h
    rfl
  case cons ih =>
    cases h
    case cons h => exact congrArg (· + 1) (ih h)

-- What a member is called that was added is the name of no field.
theorem PaddedMembers.all_eq {schema : Schema} {n : Nat}
    {members members' : List (MemberName × TokenTree)}
    (h : PaddedMembers set schema n members members') {field : Field} (hf : field ∈ schema.fields) :
    members.all (·.1.text ≠ field.name) = members'.all (·.1.text ≠ field.name) := by
  induction members' generalizing n members
  case nil =>
    cases h
    rfl
  case cons ih =>
    cases h
    case keep h    => rw [List.all_cons, List.all_cons, ih h]
    case known h   => rw [List.all_cons, List.all_cons, ih h]
    case insert hn h =>
      rw [List.all_cons, ih h, decide_eq_true (Schema.fieldNamed?_eq_none_iff.mp hn field hf).symm,
        Bool.true_and]

end

section Verdict

variable {set : SchemaSet} {rules : DecodeRules}
variable (read : ScalarReading)

mutual

theorem Padded.verdict_eq (lax : rules.denyUnknownFields = false) :
    ∀ {owner : Schema} {k : FieldKind} {n : Nat} {t t' : TokenTree}, Padded set owner k n t t' →
    ∀ (field : Field) (depth index index' : Nat),
    t.verdict set rules (fun _ => read) owner field k depth index =
      t'.verdict set rules (fun _ => read) owner field k depth index'
  | _, _, _, t, _, .same, _, _, _, _ => verdict_free _ _ _ _ _ _ _ _ _ t
  | _, _, _, _, _, .list h, field, depth, index, index' => by
    simp only [verdict]
    rw [h.verdicts_eq lax field (depth + 1) (index + 1) (index' + 1) 0]
  | _, _, _, .object members, .object members', .object found h, field, depth, index, index' => by
    have missing := missing_congr fun _ => h.all_eq
    simp only [verdict, found]
    rw [h.verdicts_eq lax (depth + 1) (index + 1) (index' + 1), close_congr missing]

theorem PaddedItems.verdicts_eq (lax : rules.denyUnknownFields = false) :
    ∀ {owner : Schema} {inner : FieldKind} {n : Nat} {items items' : List TokenTree},
    PaddedItems set owner inner n items items' →
    ∀ (field : Field) (depth index index' count : Nat),
    itemVerdicts set rules (fun _ => read) owner field inner depth index count items =
      itemVerdicts set rules (fun _ => read) owner field inner depth index' count items'
  | _, _, _, _, _, .nil, _, _, _, _, _ => rfl
  | _, _, _, item :: _, item' :: _, .cons hi h, field, depth, index, index', count => by
    rw [itemVerdicts, itemVerdicts, hi.kind_eq, hi.verdict_eq lax field depth index index',
      h.verdicts_eq lax field depth (index + item.size) (index' + item'.size) (count + 1)]

theorem PaddedMembers.verdicts_eq (lax : rules.denyUnknownFields = false) :
    ∀ {schema : Schema} {n : Nat} {members members' : List (MemberName × TokenTree)},
    PaddedMembers set schema n members members' → ∀ (depth index index' : Nat),
    memberVerdicts set rules (fun _ => read) schema depth index members =
      memberVerdicts set rules (fun _ => read) schema depth index' members'
  | _, _, _, _, .nil, _, _, _ => rfl
  | _, _, m :: _, _, .keep h, depth, index, index' => by
    rw [memberVerdicts_cons, memberVerdicts_cons, memberVerdict_free _ _ _ _ _ index index',
      h.verdicts_eq lax depth (index + 1 + m.2.size) (index' + 1 + m.2.size)]
  | _, _, (_, tree) :: _, (_, tree') :: _, .known hf ht h, depth, index, index' => by
    simp only [memberVerdicts, hf]
    rw [ht.kind_eq, ht.verdict_eq lax _ depth (index + 1) (index' + 1),
      h.verdicts_eq lax depth (index + 1 + tree.size) (index' + 1 + tree'.size)]
  | _, _, members, (_, tree) :: _, .insert hn h, depth, index, index' => by
    simp only [memberVerdicts, hn, lax]
    exact h.verdicts_eq lax depth index (index' + 1 + tree.size)

end

end Verdict

section Tally

variable {set : SchemaSet}

mutual

theorem Padded.tally_eq : ∀ {owner : Schema} {k : FieldKind} {n : Nat} {t t' : TokenTree},
    Padded set owner k n t t' → ∀ depth : Nat,
    t'.tally set owner k depth = t.tally set owner k depth + { skipped := n }
  | _, _, _, _, _, .same, _ => (add_zero _).symm
  | _, _, _, _, _, .list h, depth => by
    simp only [tally]
    rw [h.tally_eq (depth + 1), h.length_eq, add_assoc]
  | _, _, _, _, _, .object found h, depth => by
    simp only [tally, found]
    rw [h.tally_eq (depth + 1), add_assoc]

theorem PaddedItems.tally_eq : ∀ {owner : Schema} {inner : FieldKind} {n : Nat}
    {items items' : List TokenTree}, PaddedItems set owner inner n items items' → ∀ depth : Nat,
    itemTally set owner inner depth items' =
      itemTally set owner inner depth items + { skipped := n }
  | _, _, _, _, _, .nil, _ => rfl
  | _, _, _, _, _, .cons hi h, depth => by
    rw [itemTally, itemTally, hi.tally_eq depth, h.tally_eq depth, add_add_add_comm,
      Tally.skipped_add_skipped]

theorem PaddedMembers.tally_eq : ∀ {schema : Schema} {n : Nat}
    {members members' : List (MemberName × TokenTree)},
    PaddedMembers set schema n members members' → ∀ depth : Nat,
    memberTally set schema depth members' =
      memberTally set schema depth members + { skipped := n }
  | _, _, _, _, .nil, _ => rfl
  | _, _, (name, tree) :: _, _, .keep h, depth => by
    rw [memberTally, memberTally, h.tally_eq depth]
    split <;> simp only [add_assoc]
  | _, _, _, _, .known hf ht h, depth => by
    simp only [memberTally, hf]
    rw [ht.tally_eq depth, h.tally_eq depth, ← add_assoc ({ matched := 1 } : Tally),
      add_add_add_comm, Tally.skipped_add_skipped]
  | _, _, _, _, .insert hn h, depth => by
    simp only [memberTally, hn]
    rw [h.tally_eq depth, add_left_comm, Tally.skipped_add_skipped, Nat.add_comm 1]

end

end Tally
end TokenTree

open TokenTree

-- The second run makes the same record and skips `n` members more, or both fail alike: the errors
-- differ at most in where they are and in why a value is of no use.
inductive SkipsMore {σ : Type} (n : Nat) : Outcome DecodeError (Session σ) (Option Record) →
    Outcome DecodeError (Session σ) (Option Record) → Prop
  | ok {r : Record} {s s'} : s'.stats.objects = s.stats.objects →
    s'.stats.inOrder + s'.stats.dispatched = s.stats.inOrder + s.stats.dispatched →
    s'.stats.skipped = s.stats.skipped + n → s'.extent = s.extent →
    SkipsMore n (.ok (some r) s) (.ok (some r) s')
  | error {e e' s s'} : e.gist = e'.gist → SkipsMore n (.error e s) (.error e' s')

section

variable {set : SchemaSet} {id : SchemaId} {schema : Schema} {n : Nat}
variable {members members' : List (MemberName × TokenTree)}

theorem TokenTree.Padded.skipsMore {σ : Type} {opt : DecodeOptions}
    {o o' : Outcome DecodeError (Session σ) (Option Record)}
    {read : ScalarReading} (lax : opt.denyUnknownFields = false)
    (h : Padded set schema .recursive n (.object members) (.object members'))
    (heeds : o.Heeds set opt read schema members) (heeds' : o'.Heeds set opt read schema members') :
    SkipsMore n o o' := by
  have lax : opt.rules.denyUnknownFields = false := lax
  have verdicts := h.verdict_eq read lax ⟨"", 0, .recursive, false, false⟩ 0 0 0
  rw [verdict_root, verdict_root] at verdicts
  have same := eq_of_map_eq (fun _ _ => Value.record.inj) verdicts
  unfold Outcome.Heeds at heeds heeds'
  rw [same] at heeds
  generalize objectVerdict _ _ _ _ _ _ _ = x at heeds heeds'
  cases x
  case error =>
    obtain ⟨_, _, rfl, he⟩  := heeds.exists_error
    obtain ⟨_, _, rfl, he'⟩ := heeds'.exists_error
    exact .error (he.trans he'.symm)
  case ok =>
    obtain ⟨s, rfl, hs⟩   := heeds.exists_ok
    obtain ⟨s', rfl, hs'⟩ := heeds'.exists_ok
    have more : s'.tally = s.tally + { skipped := n } := by rw [hs, hs', h.tally_eq]
    have extent : s'.extent = s.extent := by
      have depth := congrArg Tally.depth more
      have listLength := congrArg Tally.listLength more
      rw [Tally.depth_add, Nat.max_zero] at depth
      rw [Tally.listLength_add, Nat.max_zero] at listLength
      exact congrArg₂ Extent.mk depth listLength
    exact .ok (congrArg Tally.objects more) (congrArg Tally.matched more)
      (congrArg Tally.skipped more) extent

-- Members that no field has change neither the record nor the error, neither in what is replayed
-- nor in a text, as long as they are not denied.
theorem decodeRecord_padded [UuidFormat] {types : List TypeDecl}
    (built : SchemaSet.build types = .ok set) (found : set.get? id = some schema)
    {opt : DecodeOptions} (lax : opt.denyUnknownFields = false)
    (padded : Padded set schema .recursive n (.object members) (.object members')) :
    (∃ r r', Replay.ofTokens (object members).tokens none = .ok r ∧
      Replay.ofTokens (object members').tokens none = .ok r' ∧
      SkipsMore n ((decodeRecord set id opt).run { cursor := r })
        ((decodeRecord set id opt).run { cursor := r' })) ∧
    ∀ (j j' : Json) (bytes bytes' : List UInt8), j.tree = .object members →
      j'.tree = .object members' → Json.IsText j bytes → Json.IsText j' bytes' →
      ∃ c c', TextCursor.ofBytes bytes = .ok c ∧ TextCursor.ofBytes bytes' = .ok c' ∧
        SkipsMore n ((decodeRecord set id opt).run { cursor := c })
          ((decodeRecord set id opt).run { cursor := c' }) := by
  have wf := SchemaSet.wellFormed_of_build built
  constructor
  case left =>
    have ⟨r, hr, heeds⟩ := heeds_of_tokens wf found members
    have ⟨r', hr', heeds'⟩ := heeds_of_tokens wf found members'
    exact ⟨r, r', hr, hr', padded.skipsMore lax (heeds opt) (heeds' opt)⟩
  case right =>
    intro j j' bytes bytes' tree tree' text text'
    have ⟨c, hc, heeds⟩ := heeds_of_text wf found tree text
    have ⟨c', hc', heeds'⟩ := heeds_of_text wf found tree' text'
    exact ⟨c, c', hc, hc', padded.skipsMore lax (heeds opt) (heeds' opt)⟩

-- One of the members that are added nests deeper than the limit allows, and one is in an object
-- that is decoded.
theorem decodeRecord_padded_node :
    let _ : UuidFormat := .hyphenated
    let types : List TypeDecl := [⟨"Node", [
      { name := "a", type := .scalar .bool },
      { name := "b", type := .named "Node", nullable := true }]⟩]
    let schema : Schema := ⟨⟨0⟩, "Node", [
      ⟨"a", 0, .scalar .bool, false, false⟩, ⟨"b", 1, .recursive, true, false⟩]⟩
    let opt : DecodeOptions := { DecodeOptions.default with maxDepth := 2 }
    let pairs : List (String × Json) := [("a", .bool true), ("b", .object [("a", .bool false)])]
    let j : Json := .object pairs
    let j' : Json := .object [("c", .array [.array []]), ("a", .bool true),
      ("b", .object [("a", .bool false), ("c", .null)])]
    let inner : Record := ⟨"Node", [⟨"a", .value (.bool false)⟩, ⟨"b", .value .null⟩]⟩
    let node : Record := ⟨"Node", [⟨"a", .value (.bool true)⟩, ⟨"b", .value (.record inner)⟩]⟩
    let bytes := Json.plain "\x7b\"a\":true,\"b\":\x7b\"a\":false\x7d\x7d".toList
    let bytes' := Json.plain
      "\x7b\"c\":[[]],\"a\":true,\"b\":\x7b\"a\":false,\"c\":null\x7d\x7d".toList
    SchemaSet.build types = .ok ⟨[schema]⟩ ∧ Json.IsText j bytes ∧ Json.IsText j' bytes' ∧
      Padded ⟨[schema]⟩ schema .recursive 2 j.tree j'.tree ∧
      (∃ r r', Replay.ofTokens j.tree.tokens none = .ok r ∧
        Replay.ofTokens j'.tree.tokens none = .ok r' ∧
        ((decodeRecord ⟨[schema]⟩ ⟨0⟩ opt).run { cursor := r }).result = .ok (some node) ∧
        SkipsMore 2 ((decodeRecord ⟨[schema]⟩ ⟨0⟩ opt).run { cursor := r })
          ((decodeRecord ⟨[schema]⟩ ⟨0⟩ opt).run { cursor := r' })) ∧
      ∃ c c', TextCursor.ofBytes bytes = .ok c ∧ TextCursor.ofBytes bytes' = .ok c' ∧
        SkipsMore 2 ((decodeRecord ⟨[schema]⟩ ⟨0⟩ opt).run { cursor := c })
          ((decodeRecord ⟨[schema]⟩ ⟨0⟩ opt).run { cursor := c' }) := by
  intro _ types schema opt pairs j j' inner node bytes bytes'
  have built : SchemaSet.build types = .ok ⟨[schema]⟩ := by rfl
  have found : SchemaSet.get? ⟨[schema]⟩ ⟨0⟩ = some schema := rfl
  have lax : opt.denyUnknownFields = false := rfl
  have none : Json.Blank [] := nofun
  have a : Json.StringText "a" (Json.plain "\"a\"".toList) := .plain ['a'] (by decide)
  have b : Json.StringText "b" (Json.plain "\"b\"".toList) := .plain ['b'] (by decide)
  have c : Json.StringText "c" (Json.plain "\"c\"".toList) := .plain ['c'] (by decide)
  have text : Json.IsText j bytes :=
    ⟨[], _, [], none, .object (.cons (.of none a none none .true) none (.one (.of none b none none
      (.object (.one (.of none a none none .false) none))) none)), none, rfl⟩
  have lists : Json.ValueText (.array [.array []]) (Json.plain "[[]]".toList) :=
    .array (.one none (.emptyArray none) none)
  have text' : Json.IsText j' bytes' :=
    ⟨[], _, [], none, .object (.cons (.of none c none none lists) none
      (.cons (.of none a none none .true) none (.one (.of none b none none
        (.object (.cons (.of none a none none .false) none
          (.one (.of none c none none .null) none)))) none))), none, rfl⟩
  have inner : Padded ⟨[schema]⟩ schema .recursive 1 (.object [(.fresh "a", .leaf (.bool false))])
      (.object [(.fresh "a", .leaf (.bool false)), (.fresh "c", .leaf .null)]) :=
    .object rfl (.keep (.insert rfl .nil))
  have padded : Padded ⟨[schema]⟩ schema .recursive 2 j.tree j'.tree :=
    .object rfl (.insert rfl (.keep (.known rfl inner .nil)))
  have ⟨⟨r, r', hr, hr', more⟩, texts⟩ := decodeRecord_padded built found lax padded
  refine ⟨built, text, text', padded, ⟨r, r', hr, hr', ?_, more⟩,
    texts j j' bytes bytes' rfl rfl text text'⟩
  have wf := SchemaSet.wellFormed_of_build built
  have ⟨_, hr₀, heeds⟩ := heeds_of_tokens wf found (Json.memberTrees pairs)
  cases hr.symm.trans hr₀
  exact (heeds opt).result_eq rfl

end
end RecordDecoding
