import RecordDecoding.External.Uuid
import RecordDecoding.Record.Tree

namespace RecordDecoding

-- What there is to see of a value.
inductive Excerpt where
  -- A value that is shown as it is.
  | scalar (v : Value)
  -- The first characters of a string, and whether it goes on behind them.
  | string (start : String) (goesOn : Bool)
  | binary (length : Nat)
  -- The first items of a list, and how many it has.
  | list (items : List Excerpt) (length : Nat)
  -- What is nested too deep is known by its length or its type.
  | closedList (length : Nat)
  | record (r : RecordOf Excerpt)
  | closedRecord (typeName : String)

-- What a slot holds, null included.
def Slot.content? {α : Type} : Slot α → Option α
  | value a        => some a
  | optional state => state.toOption

-- Limits that leave out no more than others.
structure TreeLimits.Within (limits limits' : TreeLimits) : Prop where
  stringLength : limits.stringLength ≤ limits'.stringLength
  listItems    : limits.listItems ≤ limits'.listItems
  depth        : limits.depth ≤ limits'.depth

namespace Excerpt

-- Nothing is left out but the bytes of binary data.
inductive Whole : Excerpt → Prop
  | scalar {v} : Whole (scalar v)
  | string {s} : Whole (string s false)
  | binary {length} : Whole (binary length)
  | list {items} : (∀ x ∈ items, Whole x) → Whole (list items items.length)
  | record {r : RecordOf Excerpt} : (∀ f ∈ r.fields, ∀ x ∈ f.slot.content?, Whole x) →
    Whole (record r)

def ofString (limits : TreeLimits) (s : String) : Excerpt :=
  if limits.stringLength < s.length then
    string (String.ofList (s.toList.take limits.stringLength)) true
  else string s false

def ofItems (limits : TreeLimits) (depth : Nat) (items : List Excerpt) : Excerpt :=
  if limits.depth ≤ depth then closedList items.length
  else list (items.take limits.listItems) items.length

mutual

def ofValue (limits : TreeLimits) (depth : Nat) : Value → Excerpt
  | .null         => scalar .null
  | .bool b       => scalar (.bool b)
  | .int width n  => scalar (.int width n)
  | .bigInt n     => scalar (.bigInt n)
  | .f32 x        => scalar (.f32 x)
  | .f64 x        => scalar (.f64 x)
  | .uuid id      => scalar (.uuid id)
  | .string s     => ofString limits s
  | .binary bytes => binary bytes.length
  | .list items   => ofItems limits depth (ofValues limits (depth + 1) items)
  | .record r     => ofRecord limits depth r

def ofValues (limits : TreeLimits) (depth : Nat) : List Value → List Excerpt
  | []            => []
  | item :: items => ofValue limits depth item :: ofValues limits depth items

def ofRecord (limits : TreeLimits) (depth : Nat) : RecordOf Value → Excerpt
  | ⟨typeName, fields⟩ =>
    if limits.depth ≤ depth then closedRecord typeName
    else record ⟨typeName, ofFields limits (depth + 1) fields⟩

def ofFields (limits : TreeLimits) (depth : Nat) :
    List (FieldValue Value) → List (FieldValue Excerpt)
  | []                     => []
  | ⟨name, slot⟩ :: fields => ⟨name, ofSlot limits depth slot⟩ :: ofFields limits depth fields

def ofSlot (limits : TreeLimits) (depth : Nat) : Slot Value → Slot Excerpt
  | .value v             => .value (ofValue limits depth v)
  | .optional .undefined => .optional .undefined
  | .optional .null      => .optional .null
  | .optional (.value v) => .optional (.value (ofValue limits depth v))

end

-- Lines that stand below the name of their field.
def isNested : Excerpt → Bool
  | list .. | closedList _ | record _ | closedRecord _ => true
  | _                                                  => false

def placed (head : String) (x : Excerpt) (lines : List String) : List String :=
  if x.isNested then head :: Tree.indent 2 lines else lines.map (head ++ ·)

variable {limits limits' : TreeLimits} {depth : Nat}

theorem placed_ofValue (head : String) (v : Value) (lines : List String) :
    placed head (ofValue limits depth v) lines = Tree.placed head v lines := by
  cases v
  case string s =>
    simp only [ofValue, ofString]
    split <;> rfl
  case list items =>
    simp only [ofValue, ofItems]
    split <;> rfl
  case record r =>
    simp only [ofValue]
    unfold ofRecord
    split <;> rfl
  all_goals rfl

section

variable [UuidFormat]

mutual

-- The lines of an excerpt. Limits play no part any more.
def lines : Excerpt → List String
  | scalar v                  => Tree.valueLines {} 0 v
  | string start goesOn       => ["\"" ++ (if goesOn then start ++ "..." else start) ++ "\""]
  | binary length             => [s!"bytes[{length}]"]
  | list items length         =>
    let more :=
      if items.length < length then [s!"... {length - items.length} more"] else []
    "[" :: Tree.indent 2 ((itemLines items).flatten ++ more) ++ ["]"]
  | closedList length         => [s!"[... {length} items]"]
  | record ⟨typeName, fields⟩ =>
    (typeName ++ " \x7b") :: Tree.indent 2 (fieldLines fields) ++ ["\x7d"]
  | closedRecord typeName     => [typeName ++ " \x7b ... \x7d"]

def itemLines : List Excerpt → List (List String)
  | []            => []
  | item :: items => item.lines :: itemLines items

def fieldLines : List (FieldValue Excerpt) → List String
  | []                     => []
  | ⟨name, slot⟩ :: fields => slotLines (name ++ " = ") slot ++ fieldLines fields

def slotLines (head : String) : Slot Excerpt → List String
  | .value x             => placed head x x.lines
  | .optional .undefined => [head ++ "undefined"]
  | .optional .null      => [head ++ "null"]
  | .optional (.value x) => placed head x x.lines

end

theorem lines_ofString (s : String) :
    (ofString limits s).lines = ["\"" ++ Tree.truncate limits.stringLength s ++ "\""] := by
  unfold ofString Tree.truncate
  by_cases h : s.length ≤ limits.stringLength
  case pos => simp [lines, Nat.not_lt.mpr h, h]
  case neg => simp [lines, Nat.lt_of_not_le h, h]

theorem itemLines_eq_map (items : List Excerpt) : itemLines items = items.map lines := by
  induction items
  case nil     => rfl
  case cons ih => rw [itemLines, ih, List.map_cons]

theorem lines_ofItems (items : List Excerpt) :
    (ofItems limits depth items).lines = Tree.listLines limits depth (items.map lines) := by
  unfold ofItems Tree.listLines
  split
  case isTrue  => simp [lines]
  case isFalse =>
    by_cases h : limits.listItems < items.length
    case pos => simp [lines, itemLines_eq_map, h, Nat.le_of_lt h]
    case neg => simp [lines, itemLines_eq_map, h, Nat.le_of_not_lt h]

mutual

-- The lines of a value are those of its excerpt.
theorem lines_ofValue (depth : Nat) : ∀ v : Value,
    (ofValue limits depth v).lines = Tree.valueLines limits depth v
  | .null | .bool _ | .int .. | .bigInt _ | .f32 _ | .f64 _ | .uuid _ | .binary _ => rfl
  | .string s   => lines_ofString s
  | .list items => by
    rw [ofValue, lines_ofItems, lines_ofValues (depth + 1) items]
    rfl
  | .record r   => lines_ofRecord depth r

theorem lines_ofValues (depth : Nat) : ∀ items : List Value,
    (ofValues limits depth items).map lines = Tree.itemLines limits depth items
  | []            => rfl
  | item :: items => by
    rw [ofValues, List.map_cons, lines_ofValue depth item, lines_ofValues depth items]
    rfl

theorem lines_ofRecord (depth : Nat) : ∀ r : RecordOf Value,
    (ofRecord limits depth r).lines = Tree.recordLines limits depth r
  | ⟨typeName, fields⟩ => by
    rw [ofRecord, Tree.recordLines]
    split
    case isTrue  => rfl
    case isFalse => rw [lines, lines_ofFields (depth + 1) fields]

theorem lines_ofFields (depth : Nat) : ∀ fields : List (FieldValue Value),
    fieldLines (ofFields limits depth fields) = Tree.fieldLines limits depth fields
  | []                     => rfl
  | ⟨name, slot⟩ :: fields => by
    rw [ofFields, fieldLines, lines_ofSlot depth _ slot, lines_ofFields depth fields]
    rfl

theorem lines_ofSlot (depth : Nat) (head : String) : ∀ slot : Slot Value,
    slotLines head (ofSlot limits depth slot) = Tree.slotLines limits depth head slot
  | .value v             => by
    rw [ofSlot, slotLines, lines_ofValue depth v, placed_ofValue]
    rfl
  | .optional .undefined => rfl
  | .optional .null      => rfl
  | .optional (.value v) => by
    rw [ofSlot, slotLines, lines_ofValue depth v, placed_ofValue]
    rfl

end

end

-- A list of which nothing is left out is not nested too deep, and neither are its items.
theorem Whole.of_ofItems {items : List Excerpt} (whole : (ofItems limits depth items).Whole) :
    depth < limits.depth ∧ items.length ≤ limits.listItems ∧ ∀ x ∈ items, x.Whole := by
  unfold ofItems at whole
  split at whole
  case isTrue          => cases whole
  case isFalse shallow =>
    generalize hl : items.length = length at whole
    cases whole
    case list whole =>
      have short : items.length ≤ limits.listItems := by
        rw [List.length_take] at hl
        omega
      rw [List.take_of_length_le short] at whole
      exact ⟨Nat.lt_of_not_le shallow, hl ▸ short, whole⟩

theorem ofString_wider (within : limits.Within limits') {s : String}
    (whole : (ofString limits s).Whole) : ofString limits' s = ofString limits s := by
  unfold ofString at whole ⊢
  split at whole
  case isTrue    => cases whole
  case isFalse h => rw [if_neg h, if_neg (by have := within.stringLength; omega)]

theorem ofItems_wider (within : limits.Within limits') {items : List Excerpt}
    (whole : (ofItems limits depth items).Whole) :
    ofItems limits' depth items = ofItems limits depth items := by
  have ⟨shallow, short, _⟩ := whole.of_ofItems
  have shallow' := Nat.lt_of_lt_of_le shallow within.depth
  have short' := Nat.le_trans short within.listItems
  rw [ofItems, ofItems, if_neg (Nat.not_le.mpr shallow), if_neg (Nat.not_le.mpr shallow'),
    List.take_of_length_le short, List.take_of_length_le short']

mutual

-- Wider limits make no difference where nothing was left out.
theorem ofValue_wider (within : limits.Within limits') (depth : Nat) : ∀ v : Value,
    (ofValue limits depth v).Whole → ofValue limits' depth v = ofValue limits depth v
  | .null, _ | .bool _, _ | .int .., _ | .bigInt _, _ | .f32 _, _ | .f64 _, _ | .uuid _, _
  | .binary _, _       => rfl
  | .string s, whole   => ofString_wider within whole
  | .list items, whole => by
    rw [ofValue] at whole
    have items := ofValues_wider within (depth + 1) items whole.of_ofItems.2.2
    rw [ofValue, items, ofItems_wider within whole, ofValue]
  | .record r, whole   => ofRecord_wider within depth r whole

theorem ofValues_wider (within : limits.Within limits') (depth : Nat) : ∀ items : List Value,
    (∀ x ∈ ofValues limits depth items, x.Whole) →
    ofValues limits' depth items = ofValues limits depth items
  | [], _                => rfl
  | item :: items, whole => by
    have ⟨first, rest⟩ := List.forall_mem_cons.mp whole
    rw [ofValues, ofValue_wider within depth item first, ofValues_wider within depth items rest,
      ofValues]

theorem ofRecord_wider (within : limits.Within limits') (depth : Nat) : ∀ r : RecordOf Value,
    (ofRecord limits depth r).Whole → ofRecord limits' depth r = ofRecord limits depth r
  | ⟨typeName, fields⟩, whole => by
    rw [ofRecord] at whole ⊢
    split at whole
    case isTrue          => cases whole
    case isFalse shallow =>
      cases whole
      case record whole =>
        have shallow' := Nat.lt_of_lt_of_le (Nat.lt_of_not_le shallow) within.depth
        rw [ofRecord, if_neg shallow, if_neg (Nat.not_le.mpr shallow'),
          ofFields_wider within (depth + 1) fields whole]

theorem ofFields_wider (within : limits.Within limits') (depth : Nat) :
    ∀ fields : List (FieldValue Value),
    (∀ f ∈ ofFields limits depth fields, ∀ x ∈ f.slot.content?, x.Whole) →
    ofFields limits' depth fields = ofFields limits depth fields
  | [], _                         => rfl
  | ⟨name, slot⟩ :: fields, whole => by
    have ⟨first, rest⟩ := List.forall_mem_cons.mp whole
    rw [ofFields, ofSlot_wider within depth slot first, ofFields_wider within depth fields rest,
      ofFields]

theorem ofSlot_wider (within : limits.Within limits') (depth : Nat) : ∀ slot : Slot Value,
    (∀ x ∈ (ofSlot limits depth slot).content?, x.Whole) →
    ofSlot limits' depth slot = ofSlot limits depth slot
  | .value v, whole             => congrArg Slot.value (ofValue_wider within depth v (whole _ rfl))
  | .optional .undefined, _     => rfl
  | .optional .null, _          => rfl
  | .optional (.value v), whole =>
    congrArg (Slot.optional ∘ TriState.value) (ofValue_wider within depth v (whole _ rfl))

end

end Excerpt

-- What there is to see of a record that is inside no other.
def RecordOf.excerpt (limits : TreeLimits) (r : Record) : Excerpt :=
  .ofRecord limits 0 r

-- The tree of a record shows nothing but its excerpt. If that leaves out nothing but the bytes of
-- binary data, then nothing more is shown under wider limits.
theorem RecordOf.tree_shows_excerpt [UuidFormat] (limits : TreeLimits) :
    (∀ r r' : Record, r.excerpt limits = r'.excerpt limits → r.tree limits = r'.tree limits) ∧
    ∀ (r : Record) (limits' : TreeLimits), (r.excerpt limits).Whole → limits.Within limits' →
      r.tree limits' = r.tree limits := by
  have shows (limits : TreeLimits) (r : Record) :
      r.tree limits = String.join ((r.excerpt limits).lines.map (· ++ "\n")) := by
    rw [excerpt, Excerpt.lines_ofRecord]
    rfl
  constructor
  case left =>
    intro r r' h
    rw [shows, shows, h]
  case right =>
    intro r limits' whole within
    have same : r.excerpt limits' = r.excerpt limits := Excerpt.ofRecord_wider within 0 r whole
    rw [shows, shows, same]

-- Two records that differ in a long name, in an item of a long list, in the bytes of binary data,
-- and in a value that is nested too deep; and one that is shown in full, binary data apart.
theorem RecordOf.tree_shows_excerpt_order :
    let _ : UuidFormat := .hyphenated
    let limits : TreeLimits := ⟨2, 1, 2⟩
    let order (name : String) (tag : Value) (stamp : List UInt8) (place : List (FieldValue Value)) :
        Record := ⟨"Order", [
      ⟨"name", .value (.string name)⟩,
      ⟨"tags", .optional (.value (.list [.int .w32 1, tag]))⟩,
      ⟨"stamp", .value (.binary stamp)⟩,
      ⟨"to", .value (.record ⟨"Place", [⟨"city", .value (.record ⟨"City", place⟩)⟩]⟩)⟩]⟩
    let r := order "Ada" .null [1, 2] []
    let r' := order "Adam" (.bool true) [3, 4] [⟨"x", .value .null⟩]
    let short : Record := ⟨"Order", [
      ⟨"name", .value (.string "Al")⟩, ⟨"tags", .optional (.value (.list [.null]))⟩,
      ⟨"stamp", .value (.binary [1, 2])⟩]⟩
    (r.excerpt limits = r'.excerpt limits ∧ r.tree limits = r'.tree limits) ∧
    (short.excerpt limits).Whole ∧ limits.Within {} ∧ short.tree {} = short.tree limits := by
  intro _ limits order r r' short
  have same : r.excerpt limits = r'.excerpt limits := by rfl
  have whole : (short.excerpt limits).Whole := by
    show (Excerpt.record ⟨"Order", [
      ⟨"name", .value (.string "Al" false)⟩, ⟨"tags", .optional (.value (.list [.scalar .null] 1))⟩,
      ⟨"stamp", .value (.binary 2)⟩]⟩).Whole
    refine .record fun f mem x held => ?_
    simp only [List.mem_cons, List.not_mem_nil, or_false] at mem
    obtain rfl | rfl | rfl := mem <;> obtain rfl := Option.some.inj held
    case inl     => exact .string
    case inr.inl => exact .list fun x mem => (List.mem_singleton.mp mem) ▸ .scalar
    case inr.inr => exact .binary
  have within : limits.Within {} := ⟨by decide, by decide, by decide⟩
  have ⟨shows, wider⟩ := tree_shows_excerpt limits
  exact ⟨⟨same, shows r r' same⟩, whole, within, wider short {} whole within⟩

end RecordDecoding
