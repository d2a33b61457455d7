import RecordDecoding.Proofs.Decode.FastPath
import RecordDecoding.Proofs.Decode.Filling

namespace RecordDecoding

open Decoding Forward

namespace KindSet

variable {k : TokenKind}

@[simp] theorem mem_onlyString : k ∈ onlyString ↔ k = .string := by
  simp [onlyString]

@[simp] theorem mem_onlyBool : k ∈ onlyBool ↔ k = .boolTrue ∨ k = .boolFalse := by
  simp [onlyBool]

@[simp] theorem mem_onlyInteger : k ∈ onlyInteger ↔ k = .integer := by
  simp [onlyInteger]

@[simp] theorem mem_anyNumber : k ∈ anyNumber ↔ k = .integer ∨ k = .float := by
  simp [anyNumber]

@[simp] theorem mem_onlyObject : k ∈ onlyObject ↔ k = .objectStart := by
  simp [onlyObject]

@[simp] theorem mem_onlyArray : k ∈ onlyArray ↔ k = .arrayStart := by
  simp [onlyArray]

end KindSet

-- Scalars are read from single tokens, and all else starts with a container.
theorem ScalarKind.not_opensContainer {k : ScalarKind} {t : TokenKind} (h : t ∈ k.accepts) :
    t.opensContainer = false := by
  cases k <;> simp only [accepts, KindSet.mem_onlyString, KindSet.mem_onlyBool,
    KindSet.mem_onlyInteger, KindSet.mem_anyNumber] at h
  case bool | f32 | f64 => rcases h with rfl | rfl <;> rfl
  all_goals exact h ▸ rfl

theorem FieldKind.opensContainer {k : FieldKind} {t : TokenKind} (hk : ∀ s, k ≠ scalar s)
    (h : t ∈ k.accepts) : t.opensContainer := by
  cases k <;> simp only [accepts, KindSet.mem_onlyObject, KindSet.mem_onlyArray] at h
  case scalar s => exact absurd rfl (hk s)
  all_goals exact h ▸ rfl

section Steps

variable {σ : Type} [Cursor σ] {set : SchemaSet} {opt : DecodeOptions} {schema target : Schema}
variable {field : Field} {k : FieldKind} {depth room : Nat} {s : Session σ}

-- How values are decoded inside of as many objects and lists as leave room for some more.
abbrev Level.decoding [UuidFormat] (set : SchemaSet) (opt : DecodeOptions) (room : Nat) :
    ValueDecoding σ :=
  decodeValue set opt (next set opt room)

namespace Level

theorem run_nested_mismatch {level : Option (Level σ)} (h : Cursor.kind s.cursor ≠ .objectStart) :
    (nested opt level schema field target).run s =
      (mismatch schema field .onlyObject (Cursor.kind s.cursor)).run s := by
  rw [nested, run_kind_bind]
  split
  case h_1 he => exact absurd he h
  case h_2    => rfl

-- A value of another sort than the field is.
theorem run_decoding_mismatch [UuidFormat] (hk : ∀ id ∈ k.target?, id.index < set.schemas.length)
    (h : Cursor.kind s.cursor ∉ k.accepts) : (decoding set opt room schema field k).run s =
      (mismatch schema field k.accepts (Cursor.kind s.cursor)).run s := by
  cases k
  case scalar k =>
    have h : Cursor.kind s.cursor ∉ k.accepts := h
    simp only [decoding, decodeValue, scalar, run_bind, run_look, ScalarKind.read, if_neg h]
    rfl
  case nested id =>
    have found : set.get? id = some _ := List.getElem?_eq_getElem (hk id rfl)
    simp only [decoding, decodeValue, found]
    exact run_nested_mismatch fun he => h (by simp [FieldKind.accepts, he])
  case recursive =>
    exact run_nested_mismatch fun he => h (by simp [FieldKind.accepts, he])
  case list inner =>
    simp only [decoding, decodeValue]
    rw [run_kind_bind]
    split
    case h_1 he => exact absurd (by simp [FieldKind.accepts, he]) h
    case h_2    => rfl

theorem run_list_some (d : Nat) (v : ValueDecoding σ) (inner : FieldKind) :
    (list opt (some ⟨d, v⟩) schema field inner).run s =
      (advance >>= fun _ => loop advance advance_reads (item opt ⟨d, v⟩ schema field inner) []).run
        { s with extent := { s.extent with depth := max s.extent.depth d } } :=
  rfl

theorem run_object_some (d : Nat) (v : ValueDecoding σ) :
    (object opt (some ⟨d, v⟩) schema).run s =
      (advance >>= fun _ => v.members opt schema).run
        { s with extent := { s.extent with depth := max s.extent.depth d },
                 stats := { s.stats with objects := s.stats.objects + 1 } } :=
  rfl

theorem next_succ [UuidFormat] (h : depth + (room + 1) = opt.maxDepth) :
    next (σ := σ) set opt (room + 1) = some ⟨depth + 1, decoding set opt room⟩ := by
  have hd : opt.maxDepth - room = depth + 1 := by omega
  rw [next, hd]

end Level

theorem ValueDecoding.members_slow {v : ValueDecoding σ} (slow : opt.fastPath = false) :
    v.members opt schema = v.dispatch opt schema (.blank schema) >>= (·.complete schema) := by
  simp [members, slow]

end Steps

-- The cursor is on the token before these, and what was counted is this much.
structure Feed.Past [UuidFormat] {σ : Type} [Cursor σ] (feed : Feed σ) (index : Nat)
    (tokens : List Token) (total : Tally) (s : Session σ) : Prop where
  before : feed.Before s.cursor index tokens
  tally  : s.tally = total

namespace TokenTree

variable [UuidFormat]

section

variable {σ : Type} [Cursor σ] (feed : Feed σ) (set : SchemaSet) (opt : DecodeOptions)

open Level (decoding)

-- Decoding a tree gives the verdict on it, wherever it stands, and ends on its last token.
def Decodes (t : TokenTree) : Prop :=
  ∀ ⦃schema field k depth room index rest⦄ ⦃s : Session σ⦄, schema ∈ set.schemas →
    (∀ id ∈ k.target?, id.index < set.schemas.length) → depth + room = opt.maxDepth →
    feed.On s.cursor index (t.tokens ++ rest) →
    ((decoding set opt room schema field k).run s).Gives feed.error
      (feed.Past (index + t.size) rest (s.tally + t.tally set schema k depth))
      (t.verdict set opt.rules feed.read schema field k depth index)

-- The loop over the items, from those on that are given in reverse.
def DecodesItems (items : List TokenTree) : Prop :=
  ∀ ⦃schema⦄ (field : Field) ⦃inner depth room index rest⦄ (seen : List Value)
    ⦃s : Session σ⦄, schema ∈ set.schemas →
    (∀ id ∈ inner.target?, id.index < set.schemas.length) → depth + room = opt.maxDepth →
    s.tally + { listLength := seen.length } = s.tally →
    feed.On s.cursor index (itemTokens items ++ .arrayEnd :: rest) →
    ((loop advance advance_reads
        (Level.item opt ⟨depth, decoding set opt room⟩ schema field inner) seen).run s).Gives
      feed.error
      (feed.Past (index + (itemTokens items).length + 1) rest (s.tally +
        ({ listLength := seen.length + items.length } + itemTally set schema inner depth items)))
      ((seen.reverse ++ ·) <$>
        itemVerdicts set opt.rules feed.read schema field inner depth index seen.length items)

-- The loop over the members, from what was filled in before.
def DecodesMembers (members : List (MemberName × TokenTree)) : Prop :=
  ∀ ⦃schema depth room index rest⦄ (f : Filling) ⦃s : Session σ⦄, schema ∈ set.schemas →
    depth + room = opt.maxDepth →
    feed.On s.cursor index (memberTokens members ++ .objectEnd :: rest) →
    (((decoding set opt room).dispatch opt schema f).run s).Gives feed.error
      (feed.Past (index + (memberTokens members).length + 1) rest
        (s.tally + memberTally set schema depth members))
      (List.foldl (fun f (field, state) => f.put field state) f <$>
        memberVerdicts set opt.rules feed.read schema depth index members)

end

variable {σ : Type} [Cursor σ] {feed : Feed σ} {set : SchemaSet} {opt : DecodeOptions}
variable {schema : Schema} {field : Field} {k : FieldKind}
variable {depth room index : Nat} {rest : List Token} {s : Session σ}

section Steps

variable {α : Type} {E : DecodeError → DecodeError → Prop} {P : Session σ → Prop}
variable {e : Except DecodeError α}

theorem gives_advance {g : Unit → Decoding σ α} {tokens : List Token}
    (hs : feed.Before s.cursor index tokens) (ht : tokens ≠ [])
    (hg : ∀ {s'}, feed.On s'.cursor index tokens → s'.tally = s.tally →
      ((g ()).run s').Gives E P e) : ((advance >>= g).run s).Gives E P e := by
  have ⟨c, ha, hc⟩ := hs.advance ht
  rw [advance, run_onCursor_bind ha]
  exact hg hc rfl

omit [UuidFormat] in
-- A step that only keeps account.
theorem gives_aside {x : Decoding σ Unit} {g : Unit → Decoding σ α} {more : Tally}
    (hx : ∃ s', x.run s = .ok () s' ∧ s'.cursor = s.cursor ∧ s'.tally = s.tally + more)
    (hg : ∀ {s'}, s'.cursor = s.cursor → s'.tally = s.tally + more → ((g ()).run s').Gives E P e) :
    ((x >>= g).run s).Gives E P e := by
  have ⟨s', hr, hc, ht⟩ := hx
  rw [run_bind_of_ok hr]
  exact hg hc ht

-- An error that tells where the cursor is.
theorem gives_mismatch {kind : TokenKind} {tokens : List Token} {expected : KindSet}
    (on : feed.On s.cursor index tokens) (hk : Cursor.kind s.cursor = kind) :
    ((Level.mismatch (α := α) schema field expected (Cursor.kind s.cursor)).run s).Gives
      feed.error P (.error (.mismatchAt schema field expected kind)) := by
  subst hk
  exact .error (feed.error_at (.tokenMismatch _ _ _ _ none) on)

end Steps

open Level (decoding)

-- A value of another sort than the field is.
theorem gives_decoding_mismatch {t : TokenTree} {P : Session σ → Prop}
    (hk : ∀ id ∈ k.target?, id.index < set.schemas.length) (h : t.kind ∉ k.accepts)
    (hs : feed.On s.cursor index (t.tokens ++ rest)) :
    ((decoding set opt room schema field k).run s).Gives feed.error P
      (.error (.mismatchAt schema field k.accepts t.kind)) := by
  rw [Level.run_decoding_mismatch hk (kind_of_on hs ▸ h)]
  exact gives_mismatch hs (kind_of_on hs)

theorem decodes_leaf (l : Leaf) : (leaf l).Decodes feed set opt := by
  intro schema field k depth room index rest s _ hk _ hs
  cases k
  case scalar k =>
    simp only [decoding, Level.decodeValue, verdict, tally, add_zero]
    refine (feed.scalar schema field k hs).imp ?_
    rintro _ rfl
    exact ⟨feed.before hs, rfl⟩
  all_goals
    refine gives_decoding_mismatch (t := leaf l) hk (fun h => ?_) hs
    have := FieldKind.opensContainer (by simp) h
    simp [kind, l.opensContainer_eq_false] at this

-- A list's items are decoded one level further in, if there is one.
theorem list_gives {items : List TokenTree} (h : DecodesItems feed set opt items)
    {inner : FieldKind} (hm : schema ∈ set.schemas)
    (hk : ∀ id ∈ inner.target?, id.index < set.schemas.length) (hd : depth + room = opt.maxDepth)
    (hs : feed.On s.cursor index ((array items).tokens ++ rest)) :
    ((Level.list opt (Level.next set opt room) schema field inner).run s).Gives feed.error
      (feed.Past (index + (array items).size) rest
        (s.tally + (array items).tally set schema (.list inner) depth))
      (inside opt.rules depth
        (itemVerdicts set opt.rules feed.read schema field inner (depth + 1) (index + 1) 0
          items)) := by
  rw [inside, opt.rules_maxDepth]
  cases room
  case zero =>
    rw [if_pos (show opt.maxDepth ≤ depth from Nat.le_of_eq hd.symm)]
    exact .error (feed.error_refl _)
  case succ room =>
    simp only [tokens, List.cons_append, List.append_assoc, List.nil_append] at hs
    have hd' : depth + 1 + room = opt.maxDepth := by omega
    have hi : index + 1 + (itemTokens items).length + 1 = index + (array items).size := by
      rw [size_array]
      omega
    rw [Level.next_succ hd, Level.run_list_some, if_neg (by omega), ← hi]
    refine gives_advance (feed.before hs) (by simp) fun hs ht => ?_
    rw [← id_map (itemVerdicts set opt.rules feed.read schema field inner (depth + 1) _ 0 items)]
    refine (h field [] hm hk hd' (add_zero _) hs).imp fun past => ⟨past.before, ?_⟩
    rw [past.tally, ht, Session.tally_reachDepth, tally, List.length_nil, Nat.zero_add,
      ← Tally.depth_add_listLength (depth + 1) items.length, add_assoc, add_assoc]

-- Where a list opens a level, its items are decoded one level further in.
theorem decodes_array {items : List TokenTree} (h : DecodesItems feed set opt items) :
    (array items).Decodes feed set opt := by
  intro schema field k depth room index rest s hm hk hd hs
  cases k
  case list inner =>
    have hk : ∀ id ∈ inner.target?, _ := hk
    simp only [decoding, Level.decodeValue, verdict]
    rw [run_kind_bind, kind_of_on hs]
    exact (list_gives h hm hk hd hs).bind fun past => .ok past
  case scalar k =>
    refine gives_decoding_mismatch (t := array items) hk (fun h => ?_) hs
    exact absurd (ScalarKind.not_opensContainer h) (by simp [kind, TokenKind.opensContainer])
  all_goals
    refine gives_decoding_mismatch (t := array items) hk ?_ hs
    simp [kind, FieldKind.accepts]

theorem object_gives {members : List (MemberName × TokenTree)} (wf : set.WellFormed)
    (slow : opt.fastPath = false) (h : DecodesMembers feed set opt members)
    (hm : schema ∈ set.schemas) (hd : depth + room = opt.maxDepth)
    (hs : feed.On s.cursor index ((object members).tokens ++ rest)) :
    ((Level.object opt (Level.next set opt room) schema).run s).Gives feed.error
      (feed.Past (index + (object members).size) rest
        (s.tally + ({ objects := 1, depth := depth + 1 } +
          memberTally set schema (depth + 1) members)))
      (objectVerdict set opt.rules feed.read schema depth index members) := by
  rw [objectVerdict, inside, opt.rules_maxDepth]
  cases room
  case zero =>
    rw [if_pos (show opt.maxDepth ≤ depth from Nat.le_of_eq hd.symm)]
    exact .error (feed.error_refl _)
  case succ room =>
    simp only [tokens, List.cons_append, List.append_assoc, List.nil_append] at hs
    have hd' : depth + 1 + room = opt.maxDepth := by omega
    have hi : index + 1 + (memberTokens members).length + 1 = index + (object members).size := by
      rw [size_object]
      omega
    rw [Level.next_succ hd, Level.run_object_some, if_neg (by omega), ← hi,
      ValueDecoding.members_slow slow]
    refine gives_advance (feed.before hs) (by simp) fun {s₁} hs ht => ?_
    have gives := h (.blank schema) hm hd' hs
    cases hst : memberVerdicts set opt.rules feed.read schema (depth + 1) (index + 1) members
    case error e =>
      rw [hst] at gives
      have ⟨_, _, hr, he⟩ := gives.exists_error
      rw [run_bind, hr]
      exact .error he
    case ok states =>
      rw [hst] at gives
      have ⟨s', hr, past⟩ := gives.exists_ok
      have swf := wf.schemas schema hm
      have ⟨known, names⟩ := memberVerdicts_ok swf hst
      have holds := (Filling.holds_blank swf).foldl_put swf states known
      obtain ⟨_, _, on, _⟩ := past.before
      rw [run_bind, hr]
      refine holds.complete_gives swf names on ⟨past.before, ?_⟩
      rw [past.tally, ht, Session.tally_object, add_assoc]

theorem nested_gives {members : List (MemberName × TokenTree)} {target : Schema}
    (wf : set.WellFormed) (slow : opt.fastPath = false) (h : DecodesMembers feed set opt members)
    (hm : target ∈ set.schemas) (hd : depth + room = opt.maxDepth)
    (hs : feed.On s.cursor index ((object members).tokens ++ rest)) :
    ((Level.nested opt (Level.next set opt room) schema field target).run s).Gives feed.error
      (feed.Past (index + (object members).size) rest
        (s.tally + ({ objects := 1, depth := depth + 1 } +
          memberTally set target (depth + 1) members)))
      (.record <$> objectVerdict set opt.rules feed.read target depth index members) := by
  rw [Level.nested, run_kind_bind, kind_of_on hs, map_eq_pure_bind]
  refine gives_aside ⟨_, rfl, rfl, (add_zero _).symm⟩ fun hc ht => ?_
  rw [add_zero] at ht
  exact (object_gives wf slow h hm hd (hc ▸ hs)).bind fun past => .ok ⟨past.before, ht ▸ past.tally⟩

theorem decodes_object {members : List (MemberName × TokenTree)} (wf : set.WellFormed)
    (slow : opt.fastPath = false) (h : DecodesMembers feed set opt members) :
    (object members).Decodes feed set opt := by
  intro schema field k depth room index rest s hm hk hd hs
  cases k
  case scalar k =>
    refine gives_decoding_mismatch (t := object members) hk (fun h => ?_) hs
    exact absurd (ScalarKind.not_opensContainer h) (by simp [kind, TokenKind.opensContainer])
  case list =>
    refine gives_decoding_mismatch (t := object members) hk ?_ hs
    simp [kind, FieldKind.accepts]
  case nested id =>
    have found : set.get? id = some _ := List.getElem?_eq_getElem (hk id rfl)
    simp only [verdict, tally, FieldKind.schema?, decoding, Level.decodeValue, found]
    exact nested_gives wf slow h (List.getElem_mem _) hd hs
  case recursive =>
    simp only [verdict, tally, FieldKind.schema?]
    exact nested_gives wf slow h hm hd hs

theorem decodesItems_nil : DecodesItems feed set opt [] := by
  intro schema field inner depth room index rest seen s _ _ _ reached hs
  rw [itemTokens, List.nil_append] at hs
  rw [loop_eq, Level.item, bind_assoc, run_kind_bind, feed.kind_eq hs]
  simp only [itemVerdicts, itemTally, Functor.map, Except.map, List.append_nil, List.length_nil,
    add_zero, reached]
  exact .ok ⟨feed.before hs, rfl⟩

theorem decodesItems_cons {item : TokenTree} {items : List TokenTree}
    (hi : item.Decodes feed set opt) (h : DecodesItems feed set opt items) :
    DecodesItems feed set opt (item :: items) := by
  intro schema field inner depth room index rest seen s hm hk hd reached hs
  rw [itemTokens, List.append_assoc] at hs
  rw [loop_eq, Level.item, bind_assoc, run_kind_bind, kind_of_on hs, itemVerdicts,
    opt.rules_maxListLength]
  by_cases hnull : item.kind = .null
  case pos =>
    rw [if_pos hnull, hnull]
    exact .error (feed.error_at (.nullViolation _ _ none) hs)
  case neg =>
    rw [if_neg hnull]
    have hend : item.kind ≠ .arrayEnd := fun e => by
      simpa [e, TokenKind.closesContainer] using item.closesContainer_eq_false
    split
    case h_1 h => exact absurd h hend
    case h_2 h => exact absurd h hnull
    case h_3 =>
      by_cases hl : opt.maxListLength ≤ seen.length
      case pos =>
        simp only [if_pos hl]
        exact .error (feed.error_refl _)
      case neg =>
        simp only [if_neg hl, bind_assoc, pure_bind, Sum.elim_inl, map_bind, map_pure]
        rw [itemTokens, List.length_append, ← Nat.add_assoc]
        refine gives_aside ⟨_, rfl, rfl, s.tally_reachLength _⟩ fun hc ht₀ => ?_
        refine (hi hm hk hd (hc ▸ hs)).bind fun {v s₁} past => ?_
        refine gives_advance past.before (by simp) fun {s₂} hs ht => ?_
        have total : s₂.tally = s.tally + ({ listLength := seen.length + 1 } +
            item.tally set schema inner depth) := by
          rw [ht, past.tally, ht₀, add_assoc]
        have reached : s₂.tally + { listLength := (v :: seen).length } = s₂.tally := by
          rw [total, List.length_cons, add_assoc, add_right_comm, Tally.listLength_of_le le_rfl]
        have gives := h field (v :: seen) hm hk hd reached hs
        rw [map_eq_pure_bind] at gives
        simp only [List.reverse_cons, List.append_assoc, List.singleton_append] at gives
        refine gives.imp fun past => ⟨past.before, ?_⟩
        have longer : seen.length + 1 ≤ (v :: seen).length + items.length := by simp
        rw [past.tally, total, itemTally, add_assoc, add_add_add_comm,
          Tally.listLength_of_le longer]
        simp only [List.length_cons, Nat.add_assoc, Nat.add_comm 1]

theorem decodesMembers_nil : DecodesMembers feed set opt [] := by
  intro schema depth room index rest f s _ _ hs
  rw [memberTokens, List.nil_append] at hs
  rw [ValueDecoding.dispatch_eq, ValueDecoding.lookedUp, bind_assoc, run_kind_bind,
    feed.kind_eq hs, memberTally, add_zero]
  exact .ok ⟨feed.before hs, rfl⟩

-- A member's value is null, or is decoded.
theorem state_gives {v : ValueDecoding σ} {t : TokenTree} {P : Session σ → Prop}
    {e : Except DecodeError Value} (hs : feed.On s.cursor index (t.tokens ++ rest))
    (hnull : t.kind = .null → P s) (hv : ((v schema field field.kind).run s).Gives feed.error P e) :
    ((v.state schema field).run s).Gives feed.error P (stateOf schema field t.kind e) := by
  rw [ValueDecoding.state, run_kind_bind, kind_of_on hs, stateOf]
  by_cases hk : t.kind = .null
  case pos =>
    rw [if_pos hk, hk]
    by_cases hr : field.isRequired
    case pos =>
      simp only [if_pos hr]
      exact .error (feed.error_at (.nullViolation _ _ none) hs)
    case neg =>
      simp only [if_neg hr]
      exact .ok (hnull hk)
  case neg =>
    rw [if_neg hk]
    split
    case h_1 h => exact absurd h hk
    case h_2   =>
      rw [map_eq_pure_bind]
      exact hv.bind fun h => .ok h

-- A member that no field has is denied, or skipped as a whole.
theorem skipMember_gives (opt : DecodeOptions) (schema : Schema) {name : MemberName}
    {tree : TokenTree} (hs : feed.On s.cursor index (.fieldName name :: (tree.tokens ++ rest)))
    (ht : rest ≠ []) :
    ((ValueDecoding.skipMember opt schema name.text).run s).Gives feed.error
      (feed.Past (index + 1 + tree.size) rest (s.tally + { skipped := 1 }))
      (if opt.denyUnknownFields then .error (.unknownField schema.typeName name.text none)
        else .ok ()) := by
  rw [ValueDecoding.skipMember]
  split
  case isTrue  => exact .error (feed.error_at (.unknownField _ _ none) hs)
  case isFalse =>
    refine gives_aside ⟨_, rfl, rfl, (add_zero _).symm⟩ fun hc ht₁ => ?_
    refine gives_advance (feed.before (hc ▸ hs)) (by simp [ht]) fun {s₂} hs ht₂ => ?_
    obtain ⟨c, hr, before⟩ := run_skipValue tree hs
    rw [run_onCursor_bind hr]
    have same : Session.tally { s₂ with cursor := c } = s.tally := by
      rw [← add_zero s.tally, ← ht₁, ← ht₂]
      rfl
    exact .ok ⟨before, same ▸ Session.tally_skipped _⟩

theorem decodesMembers_cons {name : MemberName} {tree : TokenTree}
    {members : List (MemberName × TokenTree)} (wf : set.WellFormed)
    (ht : tree.Decodes feed set opt) (h : DecodesMembers feed set opt members) :
    DecodesMembers feed set opt ((name, tree) :: members) := by
  intro schema depth room index rest f s hm hd hs
  simp only [memberTokens, List.cons_append, List.append_assoc] at hs
  have hn : Cursor.fieldName s.cursor = .ok name := feed.fieldName hs
  have hi : index + 1 + tree.size + (memberTokens members).length + 1 =
      index + (memberTokens ((name, tree) :: members)).length + 1 := by
    rw [memberTokens, List.length_cons, List.length_append, size]
    omega
  rw [← hi, memberVerdicts, memberTally]
  cases hf : schema.fieldNamed? name.text
  case some field =>
    rw [ValueDecoding.run_dispatch_known (feed.kind_eq hs) hn hf]
    simp only [ValueDecoding.store, bind_assoc, pure_bind, map_bind, map_pure]
    refine gives_advance (feed.before hs) (by simp) fun {s₁} hs ht₁ => ?_
    have hk := wf.closed schema hm field (Schema.mem_of_fieldNamed? hf)
    have null (hnull : tree.kind = .null) : feed.Past (index + 1 + tree.size)
        (memberTokens members ++ .objectEnd :: rest)
        (s₁.tally + tree.tally set schema field.kind depth) s₁ :=
      ⟨before_of_null hs hnull, by rw [tally_of_null hnull, add_zero]⟩
    refine (state_gives hs null (ht hm hk hd hs)).bind fun {state s₂} past => ?_
    refine gives_aside ⟨_, rfl, rfl, s₂.tally_dispatched⟩ fun hc ht₂ => ?_
    refine gives_advance (hc ▸ past.before) (by simp) fun hs ht₃ => ?_
    have gives := h (f.put field state) hm hd hs
    rw [map_eq_pure_bind] at gives
    refine gives.imp fun past' => ⟨past'.before, ?_⟩
    rw [past'.tally, ht₃, ht₂, past.tally, ht₁, add_assoc s.tally,
      add_comm (tree.tally set schema field.kind depth), add_assoc s.tally]
  case none =>
    rw [ValueDecoding.run_dispatch_unknown (feed.kind_eq hs) hn hf]
    have skip := skipMember_gives opt schema hs (by simp)
    dsimp only
    rw [opt.rules_denyUnknownFields]
    split at skip
    case isTrue hu  =>
      have ⟨_, _, hr, he⟩ := skip.exists_error
      rw [run_bind, hr, if_pos hu]
      exact .error he
    case isFalse hu =>
      have ⟨s₁, hr, past⟩ := skip.exists_ok
      rw [run_bind_of_ok hr, if_neg hu]
      refine gives_advance past.before (by simp) fun hs ht => ?_
      refine (h f hm hd hs).imp fun past' => ⟨past'.before, ?_⟩
      rw [past'.tally, ht, past.tally, add_assoc]

mutual

theorem decodes (wf : set.WellFormed) (slow : opt.fastPath = false) :
    ∀ t : TokenTree, t.Decodes feed set opt
  | leaf l         => decodes_leaf l
  | array items    => decodes_array (decodesItems wf slow items)
  | object members => decodes_object wf slow (decodesMembers wf slow members)

theorem decodesItems (wf : set.WellFormed) (slow : opt.fastPath = false) :
    ∀ items : List TokenTree, DecodesItems feed set opt items
  | []            => decodesItems_nil
  | item :: items => decodesItems_cons (decodes wf slow item) (decodesItems wf slow items)

theorem decodesMembers (wf : set.WellFormed) (slow : opt.fastPath = false) :
    ∀ members : List (MemberName × TokenTree), DecodesMembers feed set opt members
  | []                    => decodesMembers_nil
  | (_, value) :: members =>
    decodesMembers_cons wf (decodes wf slow value) (decodesMembers wf slow members)

end

-- The root, which is an object.
theorem root_gives {id : SchemaId} {members : List (MemberName × TokenTree)} (wf : set.WellFormed)
    (slow : opt.fastPath = false) (found : set.get? id = some schema)
    (hs : feed.On s.cursor 0 ((object members).tokens ++ rest)) :
    ((decodeRecord set id opt).run s).Gives feed.error
      (feed.Past (object members).size rest
        (s.tally + (object members).tally set schema .recursive 0))
      (some <$> objectVerdict set opt.rules feed.read schema 0 0 members) := by
  have hm := List.mem_of_getElem? found
  simp only [decodeRecord, found]
  rw [decodeRecordOf, run_kind_bind, kind_of_on hs, map_eq_pure_bind]
  have gives := object_gives wf slow (decodesMembers wf slow members) hm (Nat.zero_add _) hs
  rw [Nat.zero_add] at gives
  exact gives.bind fun past => .ok past

end TokenTree

-- What is said of an end is said of the ends that match it.
theorem Outcome.Matches.gives {ε σ τ α : Type} {R : σ → τ → Prop} {E : ε → ε → Prop}
    {P : τ → Prop} {Q : σ → Prop} {o : Outcome ε σ α} {o' : Outcome ε τ α} {r : Except ε α}
    (m : o.Matches Eq Eq R o') (h : o'.Gives E P r) (hp : ∀ {s t}, R s t → P t → Q s) :
    o.Gives E Q r := by
  cases m <;> cases h
  case ok.ok ha hs ht          => exact ha ▸ .ok (hp hs ht)
  case error.error he _ _ he' => exact .error (he ▸ he')

theorem Correspondence.anyMatch.tally_eq {σ : Type} [Cursor σ] {s t : Session σ}
    (h : (anyMatch σ).Sessions s t) : s.tally = t.tally := by
  have ⟨objects, skipped, matched⟩ := h.stats
  rw [Session.tally, Session.tally, objects, skipped, matched, h.extent]

-- Whichever way members are matched.
theorem Feed.decodeRecord_gives [UuidFormat] {σ : Type} [Cursor σ] (feed : Feed σ) {set : SchemaSet}
    (wf : set.WellFormed) {id : SchemaId} {schema : Schema} (found : set.get? id = some schema)
    (opt : DecodeOptions) {members : List (MemberName × TokenTree)} {rest : List Token}
    {s : Session σ} (hs : feed.On s.cursor 0 ((TokenTree.object members).tokens ++ rest)) :
    ((decodeRecord set id opt).run s).Gives feed.error
      (feed.Past (TokenTree.object members).size rest
        (s.tally + (TokenTree.object members).tally set schema .recursive 0))
      (some <$> TokenTree.objectVerdict set opt.rules feed.read schema 0 0 members) := by
  let slowly := { opt with fastPath := false }
  have slow : ((decodeRecord set id slowly).run s).Gives .. := TokenTree.root_gives wf rfl found hs
  cases hf : opt.fastPath
  case false =>
    have same : opt = { opt with fastPath := false } := by rw [← hf]
    rw [same]
    exact slow
  case true =>
    have same : opt = { opt with fastPath := true } := by rw [← hf]
    have m := wf.fastPath_steps id opt (s := s) (t := s) ⟨rfl, ⟨rfl, rfl, rfl⟩, rfl⟩
    rw [same]
    refine m.gives slow fun {s t} st past => ?_
    have hc : s.cursor = t.cursor := st.cursor
    exact ⟨hc ▸ past.before, (Correspondence.anyMatch.tally_eq st).trans past.tally⟩

end RecordDecoding
