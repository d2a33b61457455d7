import RecordDecoding.Cursor.Replay
import RecordDecoding.Decode.Record
import RecordDecoding.External.Uuid
import RecordDecoding.Proofs.Decode.Session
import RecordDecoding.Proofs.Rounds

namespace RecordDecoding

open Decoding Forward

-- The routines that know how deep they are.
inductive Routine where
  | object
  | field
  | value
  | nested
  | list
  deriving DecidableEq, Repr

-- Where a routine may be called. An object finds out by itself that it is one level too deep.
def Routine.Admits (maxDepth depth : UInt32) : Routine → Prop
  | object => depth ≤ maxDepth
  | _      => depth < maxDepth

instance (maxDepth depth : UInt32) :
    (routine : Routine) → Decidable (routine.Admits maxDepth depth)
  | .object                           => inferInstanceAs (Decidable (depth ≤ maxDepth))
  | .field | .value | .nested | .list => inferInstanceAs (Decidable (depth < maxDepth))

-- What decoding is held to, and what it does instead of going beyond that.
structure Guard (σ : Type) [Cursor σ] where
  maxDepth : UInt32
  -- How many objects and lists may be open, one inside the other.
  room : Nat
  -- How many rounds there are for each loop.
  rounds : Nat
  beyond (α : Type) : Forward CursorError σ α

namespace Guard

variable {σ α : Type} [Cursor σ] [UuidFormat] (guard : Guard σ)

def stray : Decoding σ α :=
  onCursor (guard.beyond α)

-- Calls a routine at a depth.
def call (routine : Routine) (depth : UInt32) (x : Decoding σ α) : Decoding σ α :=
  if routine.Admits guard.maxDepth depth then x else guard.stray

-- The depth one level further down.
def deeper (depth : UInt32) : Decoding σ UInt32 :=
  if depth.toNat + 1 ≤ guard.maxDepth.toNat then return depth + 1 else guard.stray

-- How values at a depth are decoded, inside of what may be opened next.
abbrev Inside (σ : Type) [Cursor σ] := Option (UInt32 → ValueDecoding σ)

-- Opens the object or the list at a depth.
def enter (inside : Inside σ) (depth : UInt32) : Decoding σ (ValueDecoding σ) :=
  if guard.maxDepth ≤ depth then fail (.depthExceeded guard.maxDepth.toNat)
  else
    match inside with
    | some value => do
      reachDepth (depth.toNat + 1)
      return value depth
    | none => guard.stray

variable (set : SchemaSet) (opt : DecodeOptions)

section Members

variable (depth : UInt32) (value : ValueDecoding σ) (schema : Schema)

def field (field : Field) : Decoding σ (TriState Value) :=
  guard.call .field depth (value.state schema field)

def store (field : Field) (f : Filling) : Decoding σ Filling := do
  return f.put field (← guard.field depth value schema field)

def inOrder : (rounds : Nat) → List Field → Filling → Decoding σ Filling
  | _, [], f => return f
  | 0, _ :: _, _ => guard.stray
  | rounds + 1, field :: fields, f => do
    match ← kind with
    | .fieldName =>
      if ← ValueDecoding.matchName schema field (← fieldName) then
        advance
        let f ← guard.store depth value schema field f
        count fun s => { s with inOrder := s.inOrder + 1 }
        advance
        inOrder rounds fields f
      else return f
    | _ => return f

def skipMember (name : String) : Decoding σ Unit := do
  if opt.denyUnknownFields then
    fail (.unknownField schema.typeName name (← position))
  else
    report (.skipping schema.typeName name)
    advance
    onCursor (Cursor.skipWithin (guard.beyond Unit) guard.rounds)
    count fun s => { s with skipped := s.skipped + 1 }

def lookedUp (f : Filling) : Decoding σ (Filling ⊕ Filling) := do
  match ← kind with
  | .objectEnd => return .inr f
  | .fieldName =>
    let name ← fieldName
    match schema.fieldNamed? name.text with
    | some field =>
      advance
      let f ← guard.store depth value schema field f
      count fun s => { s with dispatched := s.dispatched + 1 }
      return .inl f
    | none =>
      guard.skipMember opt schema name.text
      return .inl f
  | actual => fail (.tokenMismatch schema.typeName none .memberOrEnd actual (← position))

def dispatch (f : Filling) : Decoding σ Filling :=
  loopWithin guard.stray advance (guard.lookedUp opt depth value schema) guard.rounds f

def members : Decoding σ Record := do
  let f ← if opt.fastPath then
      guard.inOrder depth value schema guard.rounds schema.fields (.blank schema)
    else pure (.blank schema)
  (← guard.dispatch opt depth value schema f).complete schema

end Members

variable (inside : Inside σ) (depth : UInt32) (schema : Schema)

def object : Decoding σ (Option Record) :=
  guard.call .object depth do
    match ← kind with
    | .null => return none
    | .objectStart =>
      let value ← guard.enter inside depth
      count fun s => { s with objects := s.objects + 1 }
      advance
      return some (← guard.members opt depth value schema)
    | actual => fail (.tokenMismatch schema.typeName none .onlyObject actual (← position))

def nested (field : Field) (target : Schema) : Decoding σ Value :=
  guard.call .nested depth do
    match ← kind with
    | .objectStart =>
      report (.descending schema.typeName field.name target.typeName)
      let depth ← guard.deeper depth
      match ← guard.object opt inside depth target with
      | some r => return .record r
      | none => return .null
    | actual => Level.mismatch schema field .onlyObject actual

def list (field : Field) (inner : FieldKind) : Decoding σ Value :=
  guard.call .list depth do
    match ← kind with
    | .arrayStart =>
      let depth ← guard.deeper depth
      let value ← guard.enter inside depth
      advance
      let item := Level.item opt ⟨depth.toNat + 1, value⟩ schema field inner
      return .list (← loopWithin guard.stray advance item guard.rounds [])
    | actual => Level.mismatch schema field .onlyArray actual

def value (field : Field) (k : FieldKind) : Decoding σ Value :=
  guard.call .value depth <|
    match k with
    | .scalar k => Level.scalar schema field k
    | .nested id =>
      match set.get? id with
      | some target => guard.nested opt inside depth schema field target
      | none => fail (.unknownSchema id.index)
    | .recursive => guard.nested opt inside depth schema field schema
    | .list inner => guard.list opt inside depth schema field inner

-- What may be opened where there is so much room.
def within : (room : Nat) → Inside σ
  | 0 => none
  | room + 1 => some fun depth schema field k =>
    guard.value set opt (within room) depth schema field k

def decodeRecord (id : SchemaId) : Decoding σ (Option Record) :=
  match set.get? id with
  | some schema => guard.object opt (guard.within set opt guard.room) 0 schema
  | none => fail (.unknownSchema id.index)

end Guard

-- Ways to decode values that do the same wherever less than so much is left to read.
def ValueDecoding.Agree {σ : Type} [Cursor σ] (n : Nat) (v w : ValueDecoding σ) : Prop :=
  ∀ schema field k, Forward.Agree n (v schema field k) (w schema field k)

namespace ValueDecoding.Agree

variable {σ : Type} [Cursor σ] {n : Nat} {v w : ValueDecoding σ} (h : v.Agree n w)
include h

theorem less {m : Nat} (hm : m ≤ n) : v.Agree m w :=
  fun _ _ _ => (h ..).mono hm

theorem state (schema : Schema) (field : Field) :
    Forward.Agree n (v.state schema field) (w.state schema field) := by
  refine .after _ fun k => ?_
  cases k
  case null => exact .refl _
  all_goals exact (h ..).bind fun _ => .refl _

theorem item (opt : DecodeOptions) (depth : Nat) (schema : Schema) (field : Field)
    (inner : FieldKind) (items : List Value) :
    Forward.Agree n (Level.item opt ⟨depth, v⟩ schema field inner items)
      (Level.item opt ⟨depth, w⟩ schema field inner items) := by
  refine .after _ fun k => ?_
  cases k
  case arrayEnd => exact .refl _
  case null     => exact .refl _
  all_goals
    dsimp only
    split
    · exact .refl _
    · exact .after _ fun _ => (h ..).bind fun _ => .refl _

end ValueDecoding.Agree

namespace Level

variable {σ α : Type} [Cursor σ] {opt : DecodeOptions} {level : Option (Level σ)} {schema : Schema}

-- An object where there may be a null.
def nullable (opt : DecodeOptions) (level : Option (Level σ)) (schema : Schema) :
    Decoding σ (Option Record) := do
  match ← kind with
  | .null => return none
  | .objectStart => return some (← object opt level schema)
  | actual => fail (.tokenMismatch schema.typeName none .onlyObject actual (← position))

theorem run_nullable {s : Session σ} (hk : Cursor.kind s.cursor = .objectStart)
    (f : Option Record → Decoding σ α) :
    (nullable opt level schema >>= f).run s =
      (object opt level schema >>= fun r => f (some r)).run s := by
  rw [nullable, bind_assoc, run_kind_bind, hk]
  simp only [bind_assoc, pure_bind]

end Level

namespace Guard

variable {σ α : Type} [Cursor σ] {guard : Guard σ} {set : SchemaSet} {opt : DecodeOptions}
variable {n : Nat} {depth : UInt32}

theorem call_object (h : depth ≤ guard.maxDepth) (x : Decoding σ α) :
    guard.call .object depth x = x :=
  if_pos h

-- Where there is one level more, every routine may be called.
theorem call_eq (h : depth < guard.maxDepth) (routine : Routine) (x : Decoding σ α) :
    guard.call routine depth x = x := by
  have admits : routine.Admits guard.maxDepth depth := by
    cases routine
    case object => exact UInt32.le_of_lt h
    all_goals exact h
  exact if_pos admits

theorem deeper_eq (h : depth < guard.maxDepth) : guard.deeper depth = pure (depth + 1) :=
  if_pos (Nat.succ_le_of_lt (UInt32.lt_iff_toNat_lt.mp h))

-- One more does not wrap around where there is something greater.
theorem toNat_deeper (h : depth < guard.maxDepth) : (depth + 1).toNat = depth.toNat + 1 := by
  have lt := UInt32.lt_iff_toNat_lt.mp h
  have lt' := guard.maxDepth.toNat_lt
  rw [UInt32.toNat_add, UInt32.toNat_one]
  omega

section Members

variable {v w : ValueDecoding σ} {schema : Schema}
variable (h : v.Agree n w) (hd : depth < guard.maxDepth)
include h hd

theorem store_agrees (field : Field) (f : Filling) :
    Agree n (guard.store depth v schema field f) (w.store schema field f) := by
  rw [store, Guard.field, call_eq hd]
  exact (h.state schema field).bind fun _ => .refl _

theorem inOrder_agrees {rounds : Nat} (hn : n ≤ rounds) (fields : List Field) (f : Filling) :
    Agree n (guard.inOrder depth v schema rounds fields f) (w.inOrder schema fields f) := by
  induction fields generalizing n rounds f
  case nil => cases rounds <;> exact .refl _
  case cons field fields ih =>
    cases n
    case zero => exact .zero
    case succ n =>
      cases rounds
      case zero => exact absurd hn (Nat.not_succ_le_zero n)
      case succ rounds =>
        refine .after _ fun k => ?_
        cases k
        case fieldName =>
          refine .after _ fun name => .after _ fun found => ?_
          split
          case isFalse => exact .refl _
          case isTrue  =>
            have less := h.less (Nat.le_succ n)
            refine .read advance_reads fun _ => (store_agrees less hd field f).bind fun f => ?_
            exact .after _ fun _ => .after _ fun _ => ih less (Nat.le_of_succ_le_succ hn) f
        all_goals exact .refl _

variable (hn : n ≤ guard.rounds)
include hn

omit h hd in
theorem skipMember_agrees (opt : DecodeOptions) (name : String) :
    Agree n (guard.skipMember opt schema name) (ValueDecoding.skipMember opt schema name) := by
  have skip : Agree n (onCursor (Cursor.skipWithin (guard.beyond Unit) guard.rounds))
      (onCursor Cursor.skipValue) := by
    intro s hs
    simp only [onCursor, Cursor.skipWithin_agrees hn (s := s.cursor) hs]
  unfold skipMember ValueDecoding.skipMember
  split
  case isTrue  => exact .refl _
  case isFalse => exact .after _ fun _ => .after _ fun _ => skip.bind fun _ => .refl _

theorem lookedUp_agrees (f : Filling) :
    Agree n (guard.lookedUp opt depth v schema f) (w.lookedUp opt schema f) := by
  refine .after _ fun k => ?_
  cases k
  case fieldName =>
    refine .after _ fun name => ?_
    cases schema.fieldNamed? name.text
    case none       => exact (skipMember_agrees hn opt _).bind fun _ => .refl _
    case some field => exact .after _ fun _ => (store_agrees h hd field f).bind fun _ => .refl _
  all_goals exact .refl _

theorem members_agree :
    Agree n (guard.members opt depth v schema) (w.members opt schema) := by
  have dispatch (f : Filling) : Agree n (guard.dispatch opt depth v schema f)
      (w.dispatch opt schema f) :=
    .loop (lookedUp_agrees h hd hn) hn f
  unfold members ValueDecoding.members
  split
  · exact (inOrder_agrees h hd hn _ _).bind fun f => (dispatch f).bind fun _ => .refl _
  · exact .after _ fun f => (dispatch f).bind fun _ => .refl _

end Members

section

variable [UuidFormat]

-- What may be opened next is decoded as at the levels of which so many are left. Since it is read
-- first, it only matters where there is something to read.
def Follows (guard : Guard σ) (set : SchemaSet) (opt : DecodeOptions) (inside : Inside σ) :
    (n levels : Nat) → Prop
  | n + 1, levels + 1 => ∃ value ∈ inside, ∀ depth : UInt32,
    depth.toNat + levels + 1 = guard.maxDepth.toNat →
      (value depth).Agree n (Level.decodeValue set opt (Level.next set opt levels))
  | _, _ => True

section Levels

variable {inside : Inside σ} {levels : Nat} {schema : Schema}
variable (same : opt.maxDepth = guard.maxDepth.toNat) (hn : n ≤ guard.rounds)
variable (follows : guard.Follows set opt inside n levels)
include same follows

theorem enter_agrees (hd : depth.toNat + levels = guard.maxDepth.toNat)
    {f : ValueDecoding σ → Decoding σ α} {g : Level σ → Decoding σ α}
    (h : ∀ m v w, n = m + 1 → depth < guard.maxDepth → v.Agree m w →
      Agree n (f v) (g ⟨depth.toNat + 1, w⟩)) :
    Agree n (guard.enter inside depth >>= f)
      (Level.enter opt (Level.next set opt levels) >>= g) := by
  cases levels
  case zero =>
    have le : guard.maxDepth ≤ depth := UInt32.le_iff_toNat_le.mpr (Nat.le_of_eq hd.symm)
    unfold enter
    rw [if_pos le, Level.next, Level.enter, same]
    exact .refl _
  case succ levels =>
    have lt : depth < guard.maxDepth := UInt32.lt_iff_toNat_lt.mpr (by omega)
    cases n
    case zero => exact .zero
    case succ n =>
      obtain ⟨value, rfl, agree⟩ := follows
      have deep : opt.maxDepth - levels = depth.toNat + 1 := by omega
      unfold enter
      rw [if_neg (UInt32.not_le.mpr lt), Level.next, Level.enter, deep]
      simp only [bind_assoc, pure_bind]
      exact .after _ fun _ => h n _ _ rfl lt (agree depth hd)

include hn

theorem object_agrees (hd : depth.toNat + levels = guard.maxDepth.toNat) :
    Agree n (guard.object opt inside depth schema)
      (Level.nullable opt (Level.next set opt levels) schema) := by
  have le : depth ≤ guard.maxDepth := UInt32.le_iff_toNat_le.mpr (by omega)
  rw [object, call_object le]
  refine .after _ fun k => ?_
  cases k
  case objectStart =>
    simp only [Level.object, bind_assoc]
    refine enter_agrees same follows hd fun m v w eq lt agree => ?_
    subst eq
    refine .after _ fun _ => .read advance_reads fun _ => ?_
    exact (members_agree agree lt (Nat.le_of_succ_le hn)).bind fun _ => .refl _
  all_goals exact .refl _

variable (hd : depth.toNat + 1 + levels = guard.maxDepth.toNat)
include hd

theorem nested_agrees (field : Field) (target : Schema) :
    Agree n (guard.nested opt inside depth schema field target)
      (Level.nested opt (Level.next set opt levels) schema field target) := by
  have lt : depth < guard.maxDepth := UInt32.lt_iff_toNat_lt.mpr (by omega)
  have hd' : (depth + 1).toNat + levels = guard.maxDepth.toNat := toNat_deeper lt ▸ hd
  have object : Agree n (guard.object opt inside (depth + 1) target)
      (Level.nullable opt (Level.next set opt levels) target) := object_agrees same hn follows hd'
  rw [nested, call_eq lt]
  intro s hs
  rw [Level.nested, run_kind_bind, run_kind_bind]
  cases hk : Cursor.kind s.cursor
  case objectStart =>
    rw [deeper_eq lt]
    simp only [pure_bind]
    have step := (Agree.after (report (.descending schema.typeName field.name target.typeName))
      fun _ => object.bind fun r => .refl (match r with
        | some r => pure (Value.record r)
        | none   => pure Value.null)) hs
    exact step.trans (Level.run_nullable (s := { s with log := s.log.push _ }) hk _)
  all_goals rfl

theorem list_agrees (field : Field) (inner : FieldKind) :
    Agree n (guard.list opt inside depth schema field inner)
      (Level.decodeValue set opt (Level.next set opt levels) schema field (.list inner)) := by
  have lt : depth < guard.maxDepth := UInt32.lt_iff_toNat_lt.mpr (by omega)
  have hd' : (depth + 1).toNat + levels = guard.maxDepth.toNat := toNat_deeper lt ▸ hd
  rw [list, call_eq lt, deeper_eq lt]
  refine .after _ fun k => ?_
  cases k
  case arrayStart =>
    simp only [Level.list, bind_assoc, pure_bind]
    refine enter_agrees same follows hd' fun m v w eq lt agree => ?_
    subst eq
    refine .read advance_reads fun _ => Agree.bind ?_ fun _ => .refl _
    exact .loop (agree.item opt _ schema field inner) (Nat.le_of_succ_le hn) []
  all_goals exact .refl _

theorem value_agrees : ValueDecoding.Agree n (guard.value set opt inside depth)
    (Level.decodeValue set opt (Level.next set opt levels)) := by
  have lt : depth < guard.maxDepth := UInt32.lt_iff_toNat_lt.mpr (by omega)
  intro schema field k
  unfold value
  rw [call_eq lt]
  cases k
  case scalar k   => exact .refl _
  case recursive  => exact nested_agrees same hn follows hd field schema
  case list inner => exact list_agrees same hn follows hd field inner
  case nested id =>
    simp only [Level.decodeValue]
    cases set.get? id
    case none        => exact .refl _
    case some target => exact nested_agrees same hn follows hd field target

end Levels

-- As deep as there is room, or as there is something to read.
theorem within_follows (same : opt.maxDepth = guard.maxDepth.toNat) {room levels : Nat}
    (hn : n ≤ guard.rounds) (h : levels ≤ room ∨ n ≤ room) :
    guard.Follows set opt (guard.within set opt room) n levels := by
  induction room generalizing n levels
  case zero =>
    obtain h | h := h
    · cases Nat.le_zero.mp h; cases n <;> trivial
    · cases Nat.le_zero.mp h; trivial
  case succ room ih =>
    cases n
    case zero   => trivial
    case succ n =>
      cases levels
      case zero        => trivial
      case succ levels =>
        refine ⟨_, rfl, fun depth hd => ?_⟩
        have hn := Nat.le_of_succ_le hn
        have follows := ih hn (h.imp Nat.le_of_succ_le_succ Nat.le_of_succ_le_succ)
        exact value_agrees same hn follows (by omega)

theorem decodeRecord_agrees (same : opt.maxDepth = guard.maxDepth.toNat) (hn : n ≤ guard.rounds)
    (h : opt.maxDepth ≤ guard.room ∨ n ≤ guard.room) (id : SchemaId) :
    Agree n (guard.decodeRecord set opt id) (RecordDecoding.decodeRecord set id opt) := by
  unfold decodeRecord RecordDecoding.decodeRecord
  cases set.get? id
  case none        => exact .refl _
  case some schema =>
    have hd : (0 : UInt32).toNat + opt.maxDepth = guard.maxDepth.toNat := by simp [same]
    exact object_agrees same hn (within_follows same hn h) hd

-- For every greatest depth, set and cursor, `beyond` is of no account: no routine is ever called
-- deeper than it may be, one level deeper is never more than the greatest depth, and no more
-- objects and lists are open inside each other than that. Nor does a loop ever run out of rounds.
theorem decodeRecord_guarded (set : SchemaSet) (id : SchemaId) (options : DecodeOptions)
    (maxDepth : UInt32) (beyond : (α : Type) → Forward CursorError σ α) (s : Session σ) :
    let guard : Guard σ := { maxDepth, room := maxDepth.toNat, rounds := left s + 1, beyond }
    let opt : DecodeOptions := { options with maxDepth := maxDepth.toNat }
    (guard.decodeRecord set opt id).run s = (RecordDecoding.decodeRecord set id opt).run s :=
  decodeRecord_agrees rfl (Nat.le_refl _) (.inl (Nat.le_refl _)) id (Nat.lt_succ_self _)

end

-- With room for the object alone, the list is where decoding strays.
example :
    let _ : UuidFormat := .hyphenated
    let set : SchemaSet := ⟨[⟨⟨0⟩, "Post", [⟨"tags", 0, .list (.scalar .string), false, false⟩]⟩]⟩
    let replay : Replay :=
      ⟨.objectStart, [.fieldName (.fresh "tags"), .arrayStart, .arrayEnd, .objectEnd], 0, 0, none⟩
    let guard : Guard Replay :=
      { maxDepth := 2, room := 1, rounds := 5, beyond := fun _ => fail .cancelled }
    ((guard.decodeRecord set .default ⟨0⟩).run { cursor := replay }).result =
      .error (.cursor .cancelled) := by
  rfl

end Guard
end RecordDecoding
