import RecordDecoding.External.Uuid
import RecordDecoding.Proofs.Decode.Sources

namespace RecordDecoding

namespace DecodeRules

variable {rules : DecodeRules} {total total' : Tally}

-- Whether the limits are kept to.
def Allow (rules : DecodeRules) (total : Tally) : Prop :=
  total.depth ≤ rules.maxDepth ∧ total.listLength ≤ rules.maxListLength

theorem allow_zero : rules.Allow 0 :=
  ⟨Nat.zero_le _, Nat.zero_le _⟩

theorem allow_add : rules.Allow (total + total') ↔ rules.Allow total ∧ rules.Allow total' := by
  rw [Allow, Tally.depth_add, Tally.listLength_add, Nat.max_le, Nat.max_le, and_and_and_comm]
  rfl

end DecodeRules

-- What comes of a decoding that would answer `a` if there were no limits: just that, or an error
-- for a limit.
inductive Limited {α : Type} (rules : DecodeRules) (total : Tally) (a : α) :
    Except DecodeError α → Prop
  | within : rules.Allow total → Limited rules total a (.ok a)
  | beyond {e} : ¬rules.Allow total → e.kind = .limitExceeded → Limited rules total a (.error e)

namespace Limited

variable {α β : Type} {rules : DecodeRules} {total total' : Tally} {a : α} {b : β}
variable {x : Except DecodeError α}

theorem ok : Limited rules 0 a (.ok a) :=
  within DecodeRules.allow_zero

theorem of_iff (h : Limited rules total a x) (same : rules.Allow total ↔ rules.Allow total') :
    Limited rules total' a x := by
  cases h
  case within h    => exact .within (same.mp h)
  case beyond h he => exact .beyond (mt same.mpr h) he

theorem of_allow (h : Limited rules total a x) (allow : rules.Allow total) : x = .ok a := by
  cases h
  case within     => rfl
  case beyond h _ => exact absurd allow h

theorem of_not_allow (h : Limited rules total a x) (exceed : ¬rules.Allow total) :
    ∃ e, x = .error e ∧ e.kind = .limitExceeded := by
  cases h
  case within h      => exact absurd h exceed
  case beyond e _ he => exact ⟨e, rfl, he⟩

theorem bind {f : α → Except DecodeError β} (h : Limited rules total a x)
    (hf : Limited rules total' b (f a)) : Limited rules (total + total') b (x >>= f) := by
  cases h
  case beyond h he => exact .beyond (mt (fun h => (DecodeRules.allow_add.mp h).1) h) he
  case within h =>
    refine of_iff hf ?_
    rw [DecodeRules.allow_add]
    exact (and_iff_right h).symm

theorem map {f : α → β} (h : Limited rules total a x) : Limited rules total (f a) (f <$> x) := by
  rw [map_eq_pure_bind, ← add_zero total]
  exact h.bind .ok

-- More that is allowed makes no difference.
theorem allowed {more : Tally} (h : Limited rules total a x) (hm : rules.Allow more) :
    Limited rules (more + total) a x :=
  h.of_iff (DecodeRules.allow_add.trans (and_iff_right hm)).symm

end Limited

namespace TokenTree

section

variable {rules rules' : DecodeRules} {schema : Schema} {depth : Nat} {total : Tally}

-- An object or a list is a level.
theorem limited_inside {α : Type} {a : α} {x : Except DecodeError α} (depth : Nat)
    (h : Limited rules total a x) :
    Limited rules ({ depth := depth + 1 } + total) a (inside rules depth x) := by
  have level : rules.Allow { depth := depth + 1 } ↔ depth < rules.maxDepth :=
    and_iff_left (Nat.zero_le _)
  unfold inside
  split
  case isTrue full =>
    refine .beyond (fun h => ?_) rfl
    exact absurd (level.mp (DecodeRules.allow_add.mp h).1) (Nat.not_lt.mpr full)
  case isFalse room => exact h.allowed (level.mpr (Nat.not_le.mp room))

theorem ok_of_inside_ok {α : Type} {a : α} {x : Except DecodeError α}
    (h : inside rules depth x = .ok a) : x = .ok a := by
  unfold inside at h
  split at h
  case isTrue  => cases h
  case isFalse => exact h

-- Null is not decoded, and what is asked of it does not depend on limits.
theorem limited_stateOf {field : Field} {kind : TokenKind} {x y : Except DecodeError Value}
    {state : TriState Value} (null : kind = .null → total = 0)
    (hs : stateOf schema field kind x = .ok state)
    (h : ∀ {v}, x = .ok v → Limited rules total v y) :
    Limited rules total state (stateOf schema field kind y) := by
  unfold stateOf at hs ⊢
  split
  case isTrue hk =>
    rw [if_pos hk] at hs
    rw [hs, null hk]
    exact .ok
  case isFalse hk =>
    rw [if_neg hk, map_eq_pure_bind] at hs
    have ⟨v, hx, hs⟩ := ok_of_bind_ok hs
    cases hs
    exact (h hx).map

end

section

variable {set : SchemaSet} {rules rules' : DecodeRules} {read : LeafReading}

-- An object, as far as its members are decoded.
theorem limited_object {target : Schema} {depth index : Nat} {total : Tally}
    {members : List (MemberName × TokenTree)} {r : Record}
    (h : objectVerdict set rules read target depth index members = .ok r)
    (hm : ∀ {states}, memberVerdicts set rules read target (depth + 1) (index + 1) members =
      .ok states → Limited rules' total states
        (memberVerdicts set rules' read target (depth + 1) (index + 1) members)) :
    Limited rules' ({ objects := 1, depth := depth + 1 } + total) r
      (objectVerdict set rules' read target depth index members) := by
  have ⟨states, hs, hc⟩ := ok_of_bind_ok (ok_of_inside_ok h)
  have closed : Limited rules' 0 r (close target members states) := hc ▸ .ok
  have content := (hm hs).bind closed
  rw [add_zero] at content
  exact (limited_inside depth content).of_iff .rfl

mutual

-- Whatever is decoded under some rules.
theorem verdict_limited (same : rules'.denyUnknownFields = rules.denyUnknownFields)
    {schema : Schema} {field : Field} {k : FieldKind} {depth index : Nat} :
    ∀ (t : TokenTree) {v : Value},
    t.verdict set rules read schema field k depth index = .ok v →
    Limited rules' (t.tally set schema k depth) v
      (t.verdict set rules' read schema field k depth index)
  | leaf _, v, h => by
    have h : verdict set rules' read schema field k depth index (leaf _) = .ok v := h
    rw [h]
    exact .ok
  | array items, v, h => by
    cases k
    case list inner =>
      have ⟨vs, hi, h⟩ := ok_of_bind_ok h
      cases h
      have items := itemVerdicts_limited same items (Nat.zero_le _) (ok_of_inside_ok hi)
      have list := limited_inside depth items
      rw [← add_assoc, Tally.depth_add_listLength, Nat.zero_add] at list
      exact list.map
    all_goals cases h
  | object members, v, h => by
    simp only [verdict, tally] at h ⊢
    cases hk : k.schema? set schema
    case none =>
      rw [hk] at h
      cases h
    case some target =>
      simp only [hk] at h
      have ⟨r, hr, h⟩ := ok_of_bind_ok h
      cases h
      exact (limited_object hr (memberVerdicts_limited same members)).map

theorem itemVerdicts_limited (same : rules'.denyUnknownFields = rules.denyUnknownFields)
    {schema : Schema} {field : Field} {inner : FieldKind} {depth index count : Nat} :
    ∀ (items : List TokenTree) {vs : List Value}, count ≤ rules'.maxListLength →
    itemVerdicts set rules read schema field inner depth index count items = .ok vs →
    Limited rules' ({ listLength := count + items.length } + itemTally set schema inner depth items)
      vs (itemVerdicts set rules' read schema field inner depth index count items)
  | [], vs, within, h => by
    cases h
    exact .within ⟨Nat.zero_le _, by simpa [itemTally] using within⟩
  | item :: items, vs, _, h => by
    rw [itemVerdicts] at h
    split at h
    case isTrue => cases h
    case isFalse hk =>
      split at h
      case isTrue => cases h
      case isFalse =>
        have ⟨v, hv, h⟩ := ok_of_bind_ok h
        have ⟨vs, hvs, h⟩ := ok_of_bind_ok h
        cases h
        rw [itemVerdicts, if_neg hk]
        split
        case isTrue full =>
          refine .beyond (fun h => ?_) rfl
          have ⟨_, short⟩ := (DecodeRules.allow_add.mp h).1
          exact absurd (Nat.le_trans short full) (Nat.not_le.mpr (by simp))
        case isFalse room =>
          have more := itemVerdicts_limited same items (Nat.not_le.mp room) hvs
          refine ((verdict_limited same item hv).bind more.map).of_iff ?_
          rw [add_left_comm, Nat.succ_add]
          rfl

theorem memberVerdicts_limited (same : rules'.denyUnknownFields = rules.denyUnknownFields)
    {schema : Schema} {depth index : Nat} :
    ∀ (members : List (MemberName × TokenTree)) {states : States},
    memberVerdicts set rules read schema depth index members = .ok states →
    Limited rules' (memberTally set schema depth members) states
      (memberVerdicts set rules' read schema depth index members)
  | [], _, h => by
    cases h
    exact .ok
  | (name, tree) :: members, _, h => by
    simp only [memberVerdicts, memberTally] at h ⊢
    cases hf : schema.fieldNamed? name.text
    case some field =>
      simp only [hf] at h
      have ⟨state, hs, h⟩ := ok_of_bind_ok h
      have ⟨states, hm, h⟩ := ok_of_bind_ok h
      cases h
      have state := limited_stateOf (fun hk => tally_of_null hk) hs (verdict_limited same tree)
      have matched : rules'.Allow { matched := 1 } := ⟨Nat.zero_le _, Nat.zero_le _⟩
      exact (state.allowed matched).bind (memberVerdicts_limited same members hm).map
    case none =>
      simp only [hf] at h
      split at h
      case isTrue => cases h
      case isFalse lax =>
        simp only [same, lax]
        exact (memberVerdicts_limited same members h).allowed ⟨Nat.zero_le _, Nat.zero_le _⟩

end

end

-- How deep objects and lists nest that are decoded, and how long the longest of these lists is.
def extent (set : SchemaSet) (schema : Schema) (members : List (MemberName × TokenTree)) :
    Extent where
  depth := ((object members).tally set schema .recursive 0).depth
  listLength := ((object members).tally set schema .recursive 0).listLength

end TokenTree

-- If an object is decoded from this cursor under some options, then its objects and lists have this
-- extent. Under any other limits the same is decoded if they allow for it, and otherwise decoding
-- fails because of a limit.
def Requires [UuidFormat] {σ : Type} [Cursor σ] (set : SchemaSet) (id : SchemaId) (c : σ)
    (extent : Extent) : Prop :=
  ∀ (opt : DecodeOptions) (r : Record),
    ((decodeRecord set id opt).run { cursor := c }).result = .ok (some r) →
    ((decodeRecord set id opt).run { cursor := c }).state.extent = extent ∧
    ∀ maxDepth maxListLength,
      let opt' := { opt with maxDepth, maxListLength }
      let result := ((decodeRecord set id opt').run { cursor := c }).result
      (extent.depth ≤ maxDepth ∧ extent.listLength ≤ maxListLength → result = .ok (some r)) ∧
      (maxDepth < extent.depth ∨ maxListLength < extent.listLength →
        ∃ e, result = .error e ∧ e.kind = .limitExceeded)

theorem DecodeError.kind_gist (e : DecodeError) : e.gist.kind = e.kind := by
  cases e <;> rfl

-- The kind of an error does not depend on where it is.
theorem Limited.result {σ α : Type} {P : Session σ → Prop} {rules : DecodeRules} {total : Tally}
    {a : α} {x : Except DecodeError α} {o : Outcome DecodeError (Session σ) α}
    (h : Limited rules total a x) (gives : o.Gives (fun e e' => e.gist = e'.gist) P x) :
    Limited rules total a o.result := by
  cases h
  case within h =>
    obtain ⟨_, rfl, _⟩ := gives.exists_ok
    exact .within h
  case beyond h he =>
    obtain ⟨e, _, rfl, gist⟩ := gives.exists_error
    exact .beyond h (by rw [← e.kind_gist, gist, DecodeError.kind_gist, he])

section

variable {set : SchemaSet} {id : SchemaId} {schema : Schema}
variable {members : List (MemberName × TokenTree)}

-- Of two runs on an object, under options that differ at most in the limits.
theorem limited_of_heeds {σ : Type} {opt opt' : DecodeOptions}
    {o o' : Outcome DecodeError (Session σ) (Option Record)} {r : Record}
    {read : ScalarReading}
    (same : opt'.rules.denyUnknownFields = opt.rules.denyUnknownFields)
    (heeds : o.Heeds set opt read schema members) (heeds' : o'.Heeds set opt' read schema members)
    (hr : o.result = .ok (some r)) :
    Limited opt'.rules ((TokenTree.object members).tally set schema .recursive 0) (some r)
      o'.result := by
  have verdict := eq_of_map_eq (fun _ _ => Option.some.inj) (y := .ok r) (heeds.of_result hr).1
  have limited := TokenTree.limited_object verdict (TokenTree.memberVerdicts_limited same members)
  exact limited.map.result heeds'

theorem requires_of_heeds [UuidFormat] {σ : Type} [Cursor σ] {c : σ}
    {read : ScalarReading} (heeds : ∀ opt,
      ((decodeRecord set id opt).run { cursor := c }).Heeds set opt read schema members) :
    Requires set id c (TokenTree.extent set schema members) := by
  intro opt r hr
  have ⟨_, tally⟩ := (heeds opt).of_result hr
  refine ⟨congrArg₂ Extent.mk (congrArg Tally.depth tally) (congrArg Tally.listLength tally), ?_⟩
  intro maxDepth maxListLength opt' result
  have same : opt'.rules.denyUnknownFields = opt.rules.denyUnknownFields := rfl
  have limited : Limited opt'.rules _ (some r) result :=
    limited_of_heeds same (heeds opt) (heeds opt') hr
  refine ⟨limited.of_allow, fun exceed => limited.of_not_allow ?_⟩
  exact not_and_or.mpr (exceed.imp Nat.not_le.mpr Nat.not_le.mpr)

-- The limits are exact: they do nothing but cut off what is beyond them.
theorem decodeRecord_limits [UuidFormat] {types : List TypeDecl}
    (built : SchemaSet.build types = .ok set) (found : set.get? id = some schema)
    (members : List (MemberName × TokenTree)) :
    (∃ r, Replay.ofTokens (TokenTree.object members).tokens none = .ok r ∧
      Requires set id r (TokenTree.extent set schema members)) ∧
    ∀ (j : Json) (bytes : List UInt8), j.tree = .object members → Json.IsText j bytes →
      ∃ c, TextCursor.ofBytes bytes = .ok c ∧
        Requires set id c (TokenTree.extent set schema members) := by
  have wf := SchemaSet.wellFormed_of_build built
  constructor
  case left =>
    have ⟨r, hr, heeds⟩ := heeds_of_tokens wf found members
    exact ⟨r, hr, requires_of_heeds heeds⟩
  case right =>
    intro j bytes tree text
    have ⟨c, hc, heeds⟩ := heeds_of_text wf found tree text
    exact ⟨c, hc, requires_of_heeds heeds⟩

-- Lists of lists, which are two levels in the root.
theorem decodeRecord_limits_grid :
    let _ : UuidFormat := .hyphenated
    let types : List TypeDecl := [⟨"Grid", [
      { name := "a", type := .list (.list (.scalar .bool)) }]⟩]
    let schema : Schema := ⟨⟨0⟩, "Grid", [
      ⟨"a", 0, .list (.list (.scalar .bool)), false, false⟩]⟩
    let value : Json := .array [.array [.bool true, .bool false]]
    let j : Json := .object [("a", value)]
    let bytes := Json.plain "\x7b\"a\":[[true,false]]\x7d".toList
    let grid : Record := ⟨"Grid", [⟨"a", .value (.list [.list [.bool true, .bool false]])⟩]⟩
    SchemaSet.build types = .ok ⟨[schema]⟩ ∧ Json.IsText j bytes ∧
      (∃ r, Replay.ofTokens j.tree.tokens none = .ok r ∧
        ((decodeRecord ⟨[schema]⟩ ⟨0⟩ .default).run { cursor := r }).result = .ok (some grid) ∧
        Requires ⟨[schema]⟩ ⟨0⟩ r ⟨3, 2⟩) ∧
      ∃ c, TextCursor.ofBytes bytes = .ok c ∧
        ((decodeRecord ⟨[schema]⟩ ⟨0⟩ .default).run { cursor := c }).result = .ok (some grid) ∧
        Requires ⟨[schema]⟩ ⟨0⟩ c ⟨3, 2⟩ := by
  intro _ types schema value j bytes grid
  have built : SchemaSet.build types = .ok ⟨[schema]⟩ := by rfl
  have found : SchemaSet.get? ⟨[schema]⟩ ⟨0⟩ = some schema := rfl
  have wf := SchemaSet.wellFormed_of_build built
  have none : Json.Blank [] := nofun
  have a : Json.StringText "a" (Json.plain "\"a\"".toList) := .plain ['a'] (by decide)
  have row : Json.ValueText (.array [.bool true, .bool false]) (Json.plain "[true,false]".toList) :=
    .array (.cons none .true none (.one none .false none))
  have rows : Json.ValueText value (Json.plain "[[true,false]]".toList) :=
    .array (.one none row none)
  have text : Json.IsText j bytes :=
    ⟨[], _, [], none, .object (.one (.of none a none none rows) none), none, rfl⟩
  let members := [(MemberName.fresh "a", value.tree)]
  have ⟨⟨r, hr, replays⟩, texts⟩ := decodeRecord_limits built found members
  have ⟨c, hc, texts⟩ := texts j bytes rfl text
  refine ⟨built, text, ⟨r, hr, ?_, replays⟩, c, hc, ?_, texts⟩
  case refine_1 =>
    have ⟨r', hr', heeds⟩ := heeds_of_tokens wf found members
    cases hr.symm.trans hr'
    exact (heeds .default).result_eq rfl
  case refine_2 =>
    have ⟨c', hc', heeds⟩ := heeds_of_text wf found (rfl : j.tree = .object members) text
    cases hc.symm.trans hc'
    exact (heeds .default).result_eq rfl

end
end RecordDecoding
