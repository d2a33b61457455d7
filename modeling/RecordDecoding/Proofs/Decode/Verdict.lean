import RecordDecoding.Proofs.Decode.Meaning
import RecordDecoding.Proofs.Decode.Tally

namespace RecordDecoding

-- How a leaf is read as a scalar.
abbrev ScalarReading := ScalarKind → Leaf → Except ScalarFault Value

-- The same where it may matter how many tokens are before it.
abbrev LeafReading := Nat → ScalarReading

namespace TokenTree

section Verdict

variable (set : SchemaSet) (rules : DecodeRules) (read : LeafReading)

mutual

-- What a value is for a field as some kind.
def verdict (schema : Schema) (field : Field) (k : FieldKind) (depth index : Nat) :
    TokenTree → Except DecodeError Value
  | leaf l =>
    match k with
    | .scalar k => (read index k l).mapError (.scalarAt schema field k)
    | k         => .error (.mismatchAt schema field k.accepts l.token.kind)
  | array items =>
    match k with
    | .list inner => do
      let items ← inside rules depth
        (itemVerdicts schema field inner (depth + 1) (index + 1) 0 items)
      return .list items
    | k           => .error (.mismatchAt schema field k.accepts .arrayStart)
  | object members =>
    match k.schema? set schema with
    | some target => do
      let states := memberVerdicts target (depth + 1) (index + 1) members
      let r ← inside rules depth (states >>= close target members)
      return .record r
    | none        => .error (.mismatchAt schema field k.accepts .objectStart)

-- The items of a list, after `count` others.
def itemVerdicts (schema : Schema) (field : Field) (inner : FieldKind) (depth index count : Nat) :
    List TokenTree → Except DecodeError (List Value)
  | []            => .ok []
  | item :: items =>
    if item.kind = .null then .error (.nullAt schema field)
    else if rules.maxListLength ≤ count then
      .error (.listTooLong schema.typeName field.name rules.maxListLength)
    else do
      let v ← verdict schema field inner depth index item
      let vs ← itemVerdicts schema field inner depth (index + item.size) (count + 1) items
      return v :: vs

def memberVerdicts (schema : Schema) (depth index : Nat) :
    List (MemberName × TokenTree) → Except DecodeError States
  | []                      => .ok []
  | (name, tree) :: members =>
    match schema.fieldNamed? name.text with
    | some field => do
      let v := verdict schema field field.kind depth (index + 1) tree
      let state ← stateOf schema field tree.kind v
      let states ← memberVerdicts schema depth (index + 1 + tree.size) members
      return (field, state) :: states
    | none       =>
      if rules.denyUnknownFields then .error (.unknownField schema.typeName name.text none)
      else memberVerdicts schema depth (index + 1 + tree.size) members

end

-- What an object of these members is, as a record of the schema.
def objectVerdict (schema : Schema) (depth index : Nat) (members : List (MemberName × TokenTree)) :
    Except DecodeError Record :=
  inside rules depth
    (memberVerdicts set rules read schema (depth + 1) (index + 1) members >>= close schema members)

variable {set} in
theorem verdict_object {schema : Schema} {k : FieldKind} {target : Schema}
    (found : k.schema? set schema = some target) (field : Field) (depth index : Nat)
    (members : List (MemberName × TokenTree)) :
    verdict set rules read schema field k depth index (object members) =
      .record <$> objectVerdict set rules read target depth index members := by
  rw [verdict, found, map_eq_pure_bind]
  rfl

-- The root is like a value of the type of its own.
theorem verdict_root (schema : Schema) (field : Field) (depth index : Nat)
    (members : List (MemberName × TokenTree)) :
    verdict set rules read schema field .recursive depth index (object members) =
      .record <$> objectVerdict set rules read schema depth index members :=
  verdict_object rules read rfl field depth index members

-- What a single member says, if it says something.
def memberVerdict (schema : Schema) (depth index : Nat) (m : MemberName × TokenTree) :
    Except DecodeError (Option (Field × TriState Value)) :=
  match schema.fieldNamed? m.1.text with
  | some field => do
    let v := verdict set rules read schema field field.kind depth (index + 1) m.2
    let state ← stateOf schema field m.2.kind v
    return some (field, state)
  | none       =>
    if rules.denyUnknownFields then .error (.unknownField schema.typeName m.1.text none)
    else return none

theorem memberVerdicts_cons (schema : Schema) (depth index : Nat) (m : MemberName × TokenTree)
    (members : List (MemberName × TokenTree)) :
    memberVerdicts set rules read schema depth index (m :: members) = (do
      let state ← memberVerdict set rules read schema depth index m
      let states ← memberVerdicts set rules read schema depth (index + 1 + m.2.size) members
      return state.toList ++ states) := by
  rw [memberVerdicts, memberVerdict]
  cases schema.fieldNamed? m.1.text
  case some field =>
    simp only [bind_assoc, pure_bind]
    rfl
  case none =>
    dsimp only
    split
    case isTrue  => rfl
    case isFalse => simp only [pure_bind, Option.toList_none, List.nil_append, bind_pure]

end Verdict

section Replay

variable [UuidFormat]
variable (set : SchemaSet) (rules : DecodeRules)

-- Read as a replay reads them, leaves make the meaning of the tree.
abbrev replayed : LeafReading := fun index k l => l.read index k

mutual

theorem verdict_replayed (schema : Schema) (field : Field) (k : FieldKind) (depth index : Nat) :
    ∀ t : TokenTree, t.verdict set rules replayed schema field k depth index =
      t.value set rules schema field k depth index
  | leaf _         => rfl
  | array items    => by
    cases k <;> simp only [verdict, value, itemVerdicts_replayed _ _ _ _ _ _ items]
  | object members => by
    simp only [verdict, value]
    cases k.schema? set schema
    case none   => rfl
    case some _ => simp only [memberVerdicts_replayed _ _ _ members]

theorem itemVerdicts_replayed (schema : Schema) (field : Field) (inner : FieldKind)
    (depth index count : Nat) : ∀ items : List TokenTree,
    itemVerdicts set rules replayed schema field inner depth index count items =
      itemValues set rules schema field inner depth index count items
  | []            => rfl
  | item :: items => by
    simp only [itemVerdicts, itemValues, verdict_replayed _ _ _ _ _ item,
      itemVerdicts_replayed _ _ _ _ _ _ items]

theorem memberVerdicts_replayed (schema : Schema) (depth index : Nat) :
    ∀ members : List (MemberName × TokenTree),
    memberVerdicts set rules replayed schema depth index members =
      memberStates set rules schema depth index members
  | []                      => rfl
  | (name, tree) :: members => by
    simp only [memberVerdicts, memberStates]
    cases schema.fieldNamed? name.text
    case none   => simp only [memberVerdicts_replayed _ _ _ members]
    case some _ =>
      simp only [verdict_replayed _ _ _ _ _ tree, memberVerdicts_replayed _ _ _ members]

end

end Replay

section Free

variable (set : SchemaSet) (rules : DecodeRules) (read : ScalarReading)

mutual

-- Where leaves are read regardless of their place, it shows in no verdict.
theorem verdict_free (schema : Schema) (field : Field) (k : FieldKind) (depth index index' : Nat) :
    ∀ t : TokenTree, t.verdict set rules (fun _ => read) schema field k depth index =
      t.verdict set rules (fun _ => read) schema field k depth index'
  | leaf _         => rfl
  | array items    => by
    cases k <;> simp only [verdict]
    rw [itemVerdicts_free _ _ _ _ (index + 1) (index' + 1) _ items]
  | object members => by
    simp only [verdict]
    cases k.schema? set schema
    case none   => rfl
    case some _ => simp only [memberVerdicts_free _ _ (index + 1) (index' + 1) members]

theorem itemVerdicts_free (schema : Schema) (field : Field) (inner : FieldKind)
    (depth index index' count : Nat) : ∀ items : List TokenTree,
    itemVerdicts set rules (fun _ => read) schema field inner depth index count items =
      itemVerdicts set rules (fun _ => read) schema field inner depth index' count items
  | []            => rfl
  | item :: items => by
    simp only [itemVerdicts]
    rw [verdict_free _ _ _ _ index index' item,
      itemVerdicts_free _ _ _ _ (index + item.size) (index' + item.size) _ items]

theorem memberVerdicts_free (schema : Schema) (depth index index' : Nat) :
    ∀ members : List (MemberName × TokenTree),
    memberVerdicts set rules (fun _ => read) schema depth index members =
      memberVerdicts set rules (fun _ => read) schema depth index' members
  | []                      => rfl
  | (name, tree) :: members => by
    simp only [memberVerdicts]
    cases schema.fieldNamed? name.text
    case none   => simp only [memberVerdicts_free _ _ _ (index' + 1 + tree.size) members]
    case some _ =>
      simp only [verdict_free _ _ _ _ (index + 1) (index' + 1) tree,
        memberVerdicts_free _ _ _ (index' + 1 + tree.size) members]

end

theorem memberVerdict_free (schema : Schema) (depth index index' : Nat)
    (m : MemberName × TokenTree) :
    memberVerdict set rules (fun _ => read) schema depth index m =
      memberVerdict set rules (fun _ => read) schema depth index' m := by
  simp only [memberVerdict, verdict_free _ _ _ _ _ _ _ (index + 1) (index' + 1)]

end Free

section Tally

variable (set : SchemaSet)

mutual

-- What is opened and counted while a value is decoded with `depth` objects and lists around it.
def tally (schema : Schema) (k : FieldKind) (depth : Nat) : TokenTree → Tally
  | leaf _         => 0
  | array items    =>
    match k with
    | .list inner =>
      { depth := depth + 1, listLength := items.length } + itemTally schema inner (depth + 1) items
    | _           => 0
  | object members =>
    match k.schema? set schema with
    | some target => { objects := 1, depth := depth + 1 } + memberTally target (depth + 1) members
    | none        => 0

def itemTally (schema : Schema) (inner : FieldKind) (depth : Nat) : List TokenTree → Tally
  | []            => 0
  | item :: items => tally schema inner depth item + itemTally schema inner depth items

-- What is inside of members that the schema does not declare does not count.
def memberTally (schema : Schema) (depth : Nat) : List (MemberName × TokenTree) → Tally
  | []                      => 0
  | (name, tree) :: members =>
    match schema.fieldNamed? name.text with
    | some field =>
      { matched := 1 } + tally schema field.kind depth tree + memberTally schema depth members
    | none       => { skipped := 1 } + memberTally schema depth members

end

variable {set}

-- Null is one of the values that open nothing.
theorem tally_of_null {schema : Schema} {k : FieldKind} {depth : Nat} {t : TokenTree}
    (hk : t.kind = .null) : t.tally set schema k depth = 0 := by
  cases t
  case leaf => rw [tally]
  all_goals cases hk

end Tally
end TokenTree
end RecordDecoding
