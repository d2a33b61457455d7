import Mathlib.Algebra.BigOperators.Group.List.Basic
import Mathlib.Tactic.Abel
import RecordDecoding.External.Uuid
import RecordDecoding.Proofs.Decode.Sources

namespace RecordDecoding

open Decoding Forward

attribute [ext] DecodeStats

namespace DecodeStats

instance : Zero DecodeStats where
  zero := {}

instance : Add DecodeStats where
  add a b := {
    objects := a.objects + b.objects
    inOrder := a.inOrder + b.inOrder
    identityHits := a.identityHits + b.identityHits
    dispatched := a.dispatched + b.dispatched
    skipped := a.skipped + b.skipped
  }

variable (a b : DecodeStats)

@[simp] theorem objects_zero : (0 : DecodeStats).objects = 0 := rfl

@[simp] theorem inOrder_zero : (0 : DecodeStats).inOrder = 0 := rfl

@[simp] theorem identityHits_zero : (0 : DecodeStats).identityHits = 0 := rfl

@[simp] theorem dispatched_zero : (0 : DecodeStats).dispatched = 0 := rfl

@[simp] theorem skipped_zero : (0 : DecodeStats).skipped = 0 := rfl

@[simp] theorem objects_add : (a + b).objects = a.objects + b.objects := rfl

@[simp] theorem inOrder_add : (a + b).inOrder = a.inOrder + b.inOrder := rfl

@[simp] theorem identityHits_add : (a + b).identityHits = a.identityHits + b.identityHits := rfl

@[simp] theorem dispatched_add : (a + b).dispatched = a.dispatched + b.dispatched := rfl

@[simp] theorem skipped_add : (a + b).skipped = a.skipped + b.skipped := rfl

instance : AddCommMonoid DecodeStats where
  add_assoc a b c := by ext <;> simp [Nat.add_assoc]
  zero_add a := by ext <;> simp
  add_zero a := by ext <;> simp
  add_comm a b := by ext <;> simp [Nat.add_comm]
  nsmul := nsmulRec

end DecodeStats

-- An object that is decoded as a record of some schema.
structure DecodedObject where
  schema : Schema
  members : List (MemberName × TokenTree)

-- The members, as far as they are named as the fields are, one by one.
def leadingMembers (fields : List Field) (members : List (MemberName × TokenTree)) :
    List (Field × MemberName) :=
  (fields.zip (members.map (·.1))).takeWhile fun p => p.2.text = p.1.name

section

variable {field : Field} {fields : List Field} {name : MemberName} {tree : TokenTree}
variable {members : List (MemberName × TokenTree)}

theorem leadingMembers_nil : leadingMembers [] members = [] := rfl

theorem leadingMembers_none : leadingMembers fields [] = [] := by
  rw [leadingMembers, List.map_nil, List.zip_nil_right, List.takeWhile_nil]

theorem leadingMembers_match (h : name.text = field.name) :
    leadingMembers (field :: fields) ((name, tree) :: members) =
      (field, name) :: leadingMembers fields members := by
  simp [leadingMembers, h]

theorem leadingMembers_miss (h : name.text ≠ field.name) :
    leadingMembers (field :: fields) ((name, tree) :: members) = [] := by
  simp [leadingMembers, h]

end

-- What members count as if their names are looked up.
def DecodeStats.lookedUp (schema : Schema) (members : List (MemberName × TokenTree)) :
    DecodeStats where
  dispatched := members.countP fun m => (schema.fieldNamed? m.1.text).isSome
  skipped := members.countP fun m => (schema.fieldNamed? m.1.text).isNone

-- What members count as that are matched with these fields.
def DecodeStats.matched (schema : Schema) (leading : List (Field × MemberName)) : DecodeStats where
  inOrder := leading.length
  identityHits := leading.countP fun p => p.2 = schema.nameOf p.1

theorem DecodeStats.matched_nil (schema : Schema) : matched schema [] = 0 := rfl

namespace DecodedObject

variable (o : DecodedObject)

-- How many members the schema declares, each time that they are given.
def known : Nat :=
  o.members.countP fun m => (o.schema.fieldNamed? m.1.text).isSome

def unknown : Nat :=
  o.members.countP fun m => (o.schema.fieldNamed? m.1.text).isNone

def leading : List (Field × MemberName) :=
  leadingMembers o.schema.fields o.members

-- How many of the leading members have the very name that the schema gave to the field.
def interned : Nat :=
  o.leading.countP fun p => p.2 = o.schema.nameOf p.1

-- What the object itself counts as.
def stats (fast : Bool) : DecodeStats :=
  let leading := if fast then o.leading else []
  let others := o.members.drop leading.length
  { objects := 1 } + (.matched o.schema leading + .lookedUp o.schema others)

end DecodedObject

namespace TokenTree

open DecodeStats

section

variable (set : SchemaSet)

mutual

-- The objects that are decoded in a value for a field of a schema, those that are replaced later
-- included.
def decoded (schema : Schema) (k : FieldKind) : TokenTree → List DecodedObject
  | leaf _         => []
  | array items    =>
    match k with
    | .list inner => decodedItems schema inner items
    | _           => []
  | object members =>
    match k.schema? set schema with
    | some target => ⟨target, members⟩ :: decodedMembers target members
    | none        => []

def decodedItems (schema : Schema) (inner : FieldKind) : List TokenTree → List DecodedObject
  | []            => []
  | item :: items => item.decoded schema inner ++ decodedItems schema inner items

-- Nothing is decoded in members that the schema does not declare.
def decodedMembers (schema : Schema) : List (MemberName × TokenTree) → List DecodedObject
  | []                      => []
  | (name, tree) :: members =>
    match schema.fieldNamed? name.text with
    | some field => tree.decoded schema field.kind ++ decodedMembers schema members
    | none       => decodedMembers schema members

end

end

theorem decodedMembers_append {set : SchemaSet} {schema : Schema}
    (members more : List (MemberName × TokenTree)) :
    decodedMembers set schema (members ++ more) =
      decodedMembers set schema members ++ decodedMembers set schema more := by
  induction members
  case nil => rfl
  case cons m members ih =>
    obtain ⟨name, tree⟩ := m
    simp only [List.cons_append, decodedMembers, ih]
    cases schema.fieldNamed? name.text
    case none   => rfl
    case some _ => exact (List.append_assoc ..).symm

-- What some objects count as together.
def total (fast : Bool) (objects : List DecodedObject) : DecodeStats :=
  (objects.map (·.stats fast)).sum

variable {fast : Bool} {objects more : List DecodedObject}

theorem total_nil : total fast [] = 0 := rfl

theorem total_cons (o : DecodedObject) :
    total fast (o :: objects) = o.stats fast + total fast objects :=
  rfl

theorem total_append : total fast (objects ++ more) = total fast objects + total fast more := by
  rw [total, List.map_append, List.sum_append]
  rfl

end TokenTree

section

variable {σ : Type} [Cursor σ] [UuidFormat] (feed : Feed σ)

-- The cursor is on the first of these tokens, with this much counted.
def Feed.CountedTo (tokens : List Token) (n : DecodeStats) (s : Session σ) : Prop :=
  (∃ index, feed.On s.cursor index tokens) ∧ s.stats = n

-- The cursor is on the token before these.
def Feed.CountedPast (tokens : List Token) (n : DecodeStats) (s : Session σ) : Prop :=
  (∃ index, feed.Before s.cursor index tokens) ∧ s.stats = n

end

namespace Feed.CountedTo

variable {σ : Type} [Cursor σ] [UuidFormat] {feed : Feed σ} {token : Token} {tokens : List Token}
variable {n : DecodeStats} {s : Session σ}

theorem past (h : feed.CountedTo (token :: tokens) n s) : feed.CountedPast tokens n s :=
  have ⟨⟨_, on⟩, stats⟩ := h
  ⟨⟨_, feed.before on⟩, stats⟩

-- A session that keeps the cursor and what is counted.
theorem aside (h : feed.CountedTo tokens n s) {s' : Session σ} (cursor : s'.cursor = s.cursor)
    (stats : s'.stats = s.stats) : feed.CountedTo tokens n s' :=
  ⟨cursor ▸ h.1, stats.trans h.2⟩

end Feed.CountedTo

-- A step of which it is only said where it gets to if it answers.
abbrev Gets {σ α : Type} [Cursor σ] (x : Decoding σ α) (P Q : Session σ → Prop) : Prop :=
  x.Meets P (fun _ => Q) fun _ _ => True

namespace Gets

variable {σ α β : Type} [Cursor σ] {x y : Decoding σ α} {f : α → Decoding σ β}
variable {P Q R : Session σ → Prop} {tokens rest : List Token} {token : Token} {n : DecodeStats}

theorem bind (hx : Gets x P Q) (hf : ∀ a, Gets (f a) Q R) : Gets (x >>= f) P R :=
  Meets.bind hx hf

theorem fail (e : DecodeError) : Gets (Forward.fail e : Decoding σ α) P Q :=
  Meets.fail fun _ => trivial

theorem pure (a : α) (h : ∀ {s}, P s → Q s) : Gets (Pure.pure a : Decoding σ α) P Q :=
  Meets.pure h

-- An error that tells the position.
theorem failAt (e : Option Position → DecodeError) :
    Gets (position >>= fun pos => (Forward.fail (e pos) : Decoding σ α)) P Q :=
  Meets.view fun _ => Meets.fail fun _ => trivial

theorem congr (h : ∀ {s}, P s → x.run s = y.run s) (hy : Gets y P Q) : Gets x P Q := by
  intro s hs
  rw [h hs]
  exact hy hs

theorem of_gives (h : ∀ {s}, P s → ∃ E r, (x.run s).Gives E Q r) : Gets x P Q := by
  intro s hs
  have ⟨_, r, gives⟩ := h hs
  generalize x.run s = o at gives
  cases gives
  case ok hs   => exact .ok hs
  case error _ => exact .error trivial

theorem bind_failAt (e : Option Position → DecodeError) :
    Gets ((position >>= fun pos => Forward.fail (e pos)) >>= f) P Q :=
  fun _ _ => .error trivial

theorem bind_fail (e : DecodeError) : Gets (Forward.fail e >>= f) P Q :=
  fun _ _ => .error trivial

variable [UuidFormat] {feed : Feed σ}

theorem congr_stats {m : DecodeStats} (h : Gets x P (feed.CountedPast tokens n)) (same : n = m) :
    Gets x P (feed.CountedPast tokens m) :=
  same ▸ h

theorem to_stats {m : DecodeStats} (h : Gets x P (feed.CountedTo tokens n)) (same : n = m) :
    Gets x P (feed.CountedTo tokens m) :=
  same ▸ h

theorem kind {f : TokenKind → Decoding σ β}
    (h : Gets (f token.kind) (feed.CountedTo (token :: tokens) n) Q) :
    Gets (Decoding.kind >>= f) (feed.CountedTo (token :: tokens) n) Q := by
  refine congr (fun {s} hs => ?_) h
  have ⟨_, on⟩ := hs.1
  rw [run_kind_bind, feed.kind_eq on]

theorem treeKind {t : TokenTree} {f : TokenKind → Decoding σ β}
    (h : Gets (f t.kind) (feed.CountedTo (t.tokens ++ rest) n) Q) :
    Gets (Decoding.kind >>= f) (feed.CountedTo (t.tokens ++ rest) n) Q := by
  refine congr (fun {s} hs => ?_) h
  have ⟨_, on⟩ := hs.1
  rw [run_kind_bind, TokenTree.kind_of_on on]

theorem advance (ht : tokens ≠ []) :
    Gets Decoding.advance (feed.CountedPast tokens n) (feed.CountedTo tokens n) := by
  intro s hs
  have ⟨⟨_, before⟩, stats⟩ := hs
  have ⟨c, ha, on⟩ := before.advance ht
  have run : Decoding.advance.run s = .ok () { s with cursor := c } := by
    simp only [Decoding.advance, onCursor, ha]
  rw [run]
  exact .ok ⟨⟨_, on⟩, stats⟩

-- The first token may be left behind.
theorem past (h : Gets x (feed.CountedPast tokens n) Q) :
    Gets x (feed.CountedTo (token :: tokens) n) Q :=
  Meets.imp h Feed.CountedTo.past id id

theorem skipValue (t : TokenTree) :
    Gets (onCursor Cursor.skipValue) (feed.CountedTo (t.tokens ++ rest) n)
      (feed.CountedPast rest n) := by
  intro s hs
  have ⟨⟨_, on⟩, stats⟩ := hs
  have ⟨c, hr, before⟩ := TokenTree.run_skipValue t on
  simp only [onCursor, hr]
  exact .ok ⟨⟨_, before⟩, stats⟩

-- A step that keeps account of something else.
theorem aside {g : Session σ → Session σ} {hg} (cursor : ∀ s, (g s).cursor = s.cursor)
    (stats : ∀ s, (g s).stats = s.stats) :
    Gets (Forward.change g hg) (feed.CountedTo tokens n) (feed.CountedTo tokens n) :=
  Meets.change fun h => Feed.CountedTo.aside h (cursor _) (stats _)

theorem count (g : DecodeStats → DecodeStats) :
    Gets (Decoding.count g) (feed.CountedPast tokens n) (feed.CountedPast tokens (g n)) :=
  Meets.change fun h => ⟨h.1, congrArg g h.2⟩

end Gets

namespace TokenTree

open Level (decoding)
open DecodeStats

variable [UuidFormat]

-- When a value is decoded, the objects in it are counted.
def Counts {σ : Type} [Cursor σ] (feed : Feed σ) (set : SchemaSet) (opt : DecodeOptions)
    (t : TokenTree) : Prop :=
  ∀ ⦃schema k⦄ (field : Field) (room : Nat) (rest : List Token) (n : DecodeStats),
    schema ∈ set.schemas → (∀ id ∈ k.target?, id.index < set.schemas.length) →
    Gets (decoding set opt room schema field k) (feed.CountedTo (t.tokens ++ rest) n)
      (feed.CountedPast rest (n + total opt.fastPath (t.decoded set schema k)))

variable {σ : Type} [Cursor σ] {feed : Feed σ} {set : SchemaSet} {opt : DecodeOptions}
variable {schema : Schema} {field : Field} {k : FieldKind} {room : Nat} {rest : List Token}
variable {n : DecodeStats} {Q : Session σ → Prop}

theorem gets_mismatch {t : TokenTree} (hk : ∀ id ∈ k.target?, id.index < set.schemas.length)
    (h : t.kind ∉ k.accepts) :
    Gets (decoding set opt room schema field k) (feed.CountedTo (t.tokens ++ rest) n) Q :=
  .of_gives fun hs =>
    have ⟨_, on⟩ := hs.1
    ⟨_, _, gives_decoding_mismatch hk h on⟩

theorem counts_leaf (l : Leaf) : (leaf l).Counts feed set opt := by
  intro schema k field room rest n _ hk
  cases k
  case scalar k =>
    refine .of_gives fun {s} hs => ?_
    have ⟨_, on⟩ := hs.1
    refine ⟨_, _, (feed.scalar schema field k on).imp ?_⟩
    rintro _ rfl
    rw [decoded, total_nil, add_zero]
    exact Feed.CountedTo.past hs
  all_goals
    refine gets_mismatch (t := leaf l) hk fun h => ?_
    have := FieldKind.opensContainer (by simp) h
    simp [kind, l.opensContainer_eq_false] at this

omit [UuidFormat] in
theorem decoded_of_null {t : TokenTree} (h : t.kind = .null) : t.decoded set schema k = [] := by
  cases t
  case leaf => rw [decoded]
  all_goals cases h

section Items

variable {items : List TokenTree} {inner : FieldKind} (h : ∀ item ∈ items, item.Counts feed set opt)
variable (hm : schema ∈ set.schemas)
  (hk : ∀ id ∈ inner.target?, id.index < set.schemas.length)
include h hm hk

theorem gets_items (depth : Nat) (seen : List Value) :
    Gets (loop advance advance_reads
        (Level.item opt ⟨depth, decoding set opt room⟩ schema field inner) seen)
      (feed.CountedTo (itemTokens items ++ .arrayEnd :: rest) n)
      (feed.CountedPast rest (n + total opt.fastPath (decodedItems set schema inner items))) := by
  induction items generalizing seen n
  case nil =>
    rw [loop_eq, Level.item, bind_assoc, itemTokens, List.nil_append]
    exact .kind (.pure _ fun hs => by simpa [decodedItems, total_nil] using hs.past)
  case cons item items ih =>
    obtain ⟨first, others⟩ := List.forall_mem_cons.mp h
    rw [loop_eq, Level.item, bind_assoc, itemTokens, List.append_assoc]
    refine .treeKind ?_
    split
    case h_1 hend => simpa [hend, TokenKind.closesContainer] using item.closesContainer_eq_false
    case h_2      =>
      rw [bind_assoc]
      exact .failAt _
    case h_3 =>
      split
      case isTrue  => exact .fail _
      case isFalse =>
        simp only [bind_assoc, pure_bind, Sum.elim_inl]
        refine Gets.bind (.aside (fun _ => rfl) fun _ => rfl) fun _ => ?_
        refine .bind (first field room _ n hm hk) fun v => ?_
        refine .bind (.advance (by simp)) fun _ => ?_
        rw [decodedItems, total_append, ← add_assoc]
        exact ih others (v :: seen)

theorem gets_list :
    Gets (Level.list opt (Level.next set opt room) schema field inner)
      (feed.CountedTo ((array items).tokens ++ rest) n)
      (feed.CountedPast rest (n + total opt.fastPath (decodedItems set schema inner items))) := by
  cases room
  case zero => exact .bind_fail _
  case succ room =>
    simp only [Level.list, Level.next, Level.enter, bind_assoc, pure_bind, tokens, List.cons_append,
      List.append_assoc, List.nil_append]
    refine .bind (.aside (fun _ => rfl) fun _ => rfl) fun _ => .past ?_
    exact .bind (.advance (by simp)) fun _ => gets_items h hm hk _ []

omit hm hk in
theorem counts_array : (array items).Counts feed set opt := by
  intro schema k field room rest n hm hk
  cases k
  case list inner =>
    have hk : ∀ id ∈ inner.target?, _ := hk
    refine .treeKind (.bind (gets_list h hm hk) fun _ => .pure _ id)
  case scalar k =>
    refine gets_mismatch (t := array items) hk fun h => ?_
    exact absurd (ScalarKind.not_opensContainer h) (by simp [kind, TokenKind.opensContainer])
  all_goals
    refine gets_mismatch (t := array items) hk ?_
    simp [kind, FieldKind.accepts]

end Items

section Members

variable {members : List (MemberName × TokenTree)} (wf : set.WellFormed)
variable (h : ∀ m ∈ members, m.2.Counts feed set opt) (hm : schema ∈ set.schemas)

-- What the value of a member counts is counted, and null counts nothing.
theorem gets_store {tree : TokenTree} (f : Filling) (counts : tree.Counts feed set opt)
    (hm : schema ∈ set.schemas) (hk : ∀ id ∈ field.kind.target?, id.index < set.schemas.length) :
    Gets ((decoding set opt room).store schema field f)
      (feed.CountedTo (tree.tokens ++ rest) n)
      (feed.CountedPast rest (n + total opt.fastPath (tree.decoded set schema field.kind))) := by
  rw [ValueDecoding.store, ValueDecoding.state, bind_assoc]
  refine .treeKind ?_
  split
  case h_1 null =>
    split
    case isTrue  => exact .bind_failAt _
    case isFalse =>
      refine .pure _ fun hs => ?_
      obtain ⟨⟨_, on⟩, stats⟩ := hs
      rw [decoded_of_null null, total_nil, add_zero]
      exact ⟨⟨_, before_of_null on null⟩, stats⟩
  case h_2 =>
    simp only [bind_assoc, pure_bind]
    exact .bind (counts field room rest n hm hk) fun v => .pure _ id

variable {name : MemberName} {tokens : List Token} {f : Filling} {v : ValueDecoding σ}

theorem gets_dispatch_known (hf : schema.fieldNamed? name.text = some field)
    (h : Gets (do
      advance
      let f ← v.store schema field f
      count fun s => { s with dispatched := s.dispatched + 1 }
      advance
      v.dispatch opt schema f) (feed.CountedTo (.fieldName name :: tokens) n) Q) :
    Gets (v.dispatch opt schema f) (feed.CountedTo (.fieldName name :: tokens) n) Q :=
  .congr (fun hs =>
    have ⟨_, on⟩ := hs.1
    ValueDecoding.run_dispatch_known (feed.kind_eq on) (feed.fieldName on) hf) h

theorem gets_dispatch_unknown (hf : schema.fieldNamed? name.text = none)
    (h : Gets (do
      ValueDecoding.skipMember opt schema name.text
      advance
      v.dispatch opt schema f) (feed.CountedTo (.fieldName name :: tokens) n) Q) :
    Gets (v.dispatch opt schema f) (feed.CountedTo (.fieldName name :: tokens) n) Q :=
  .congr (fun hs =>
    have ⟨_, on⟩ := hs.1
    ValueDecoding.run_dispatch_unknown (feed.kind_eq on) (feed.fieldName on) hf) h

-- The members are at their end, or the next one has another name than the next field.
theorem gets_inOrder_stop {t : Token} {fields : List Field} (ht : t.kind ≠ .fieldName)
    (hq : ∀ {s}, feed.CountedTo (t :: tokens) n s → Q s) :
    Gets (v.inOrder schema fields f) (feed.CountedTo (t :: tokens) n) Q := by
  intro s hs
  have ⟨_, on⟩ := hs.1
  rw [ValueDecoding.run_inOrder_stop (feed.kind_eq on ▸ ht)]
  exact .ok (hq hs)

theorem gets_inOrder_miss {fields : List Field} (h : name.text ≠ field.name)
    (hq : ∀ {s}, feed.CountedTo (.fieldName name :: tokens) n s → Q s) :
    Gets (v.inOrder schema (field :: fields) f)
      (feed.CountedTo (.fieldName name :: tokens) n) Q := by
  intro s hs
  have ⟨_, on⟩ := hs.1
  have ⟨log, run⟩ :=
    v.run_inOrder_miss schema fields f (feed.kind_eq on) (feed.fieldName on) h
  rw [run]
  exact .ok (hq (Feed.CountedTo.aside hs rfl rfl))

theorem gets_inOrder_match {fields : List Field} (h : name.text = field.name)
    (hx : Gets (do
      advance
      let f ← v.store schema field f
      count fun s => { s with inOrder := s.inOrder + 1 }
      advance
      v.inOrder schema fields f) (feed.CountedTo (.fieldName name :: tokens)
        (n + { identityHits := if name = schema.nameOf field then 1 else 0 })) Q) :
    Gets (v.inOrder schema (field :: fields) f)
      (feed.CountedTo (.fieldName name :: tokens) n) Q := by
  intro s hs
  have ⟨⟨index, on⟩, stats⟩ := hs
  rw [v.run_inOrder_match schema fields f (feed.kind_eq on) (feed.fieldName on) h]
  refine hx ⟨⟨index, on⟩, ?_⟩
  rw [← stats]
  ext <;> simp

theorem gets_skipMember (tree : TokenTree) (ht : rest ≠ []) (text : String) :
    Gets (ValueDecoding.skipMember opt schema text)
      (feed.CountedTo (.fieldName name :: (tree.tokens ++ rest)) n)
      (feed.CountedPast rest (n + { skipped := 1 })) := by
  rw [ValueDecoding.skipMember]
  split
  case isTrue  => exact .failAt _
  case isFalse =>
    refine .bind (.aside (fun _ => rfl) fun _ => rfl) fun _ => .past ?_
    refine .bind (.advance (by simp [ht])) fun _ => .bind (.skipValue tree) fun _ => ?_
    exact .count _

theorem gets_complete (f : Filling) :
    Gets (f.complete (σ := σ) schema) (feed.CountedPast rest n) (feed.CountedPast rest n) := by
  rw [Filling.complete]
  split
  case isTrue  => exact .pure _ id
  case isFalse => exact fun _ _ => .error trivial

-- Where no member leads, nothing is matched and nothing is decoded.
theorem counted_of_none_leading (members : List (MemberName × TokenTree)) {s : Session σ}
    {leading : List (Field × MemberName)} (none : leading = [])
    (hs : feed.CountedTo (memberTokens members ++ tokens) n s) :
    feed.CountedTo (memberTokens (members.drop leading.length) ++ tokens)
      (n + (matched schema leading +
        total opt.fastPath (decodedMembers set schema (members.take leading.length)))) s := by
  subst none
  rwa [List.length_nil, List.drop_zero, List.take_zero, decodedMembers, matched_nil, total_nil,
    add_zero, add_zero]

include wf h hm

theorem gets_dispatch (f : Filling) :
    Gets ((decoding set opt room).dispatch opt schema f)
      (feed.CountedTo (memberTokens members ++ .objectEnd :: rest) n)
      (feed.CountedPast rest (n + (lookedUp schema members +
        total opt.fastPath (decodedMembers set schema members)))) := by
  induction members generalizing f n
  case nil =>
    rw [ValueDecoding.dispatch_eq, ValueDecoding.lookedUp, bind_assoc, memberTokens,
      List.nil_append]
    refine .kind (.pure _ fun hs => ?_)
    exact ⟨hs.past.1, hs.2.trans (add_zero n).symm⟩
  case cons m members ih =>
    obtain ⟨first, others⟩ := List.forall_mem_cons.mp h
    obtain ⟨name, tree⟩ := m
    simp only [memberTokens, List.cons_append, List.append_assoc, decodedMembers]
    cases hf : schema.fieldNamed? name.text
    case some field =>
      have hk := wf.closed schema hm field (Schema.mem_of_fieldNamed? hf)
      refine gets_dispatch_known hf (.past (.bind (.advance (by simp)) fun _ => ?_))
      refine .bind (gets_store f first hm hk) fun f => .bind (.count _) fun _ => ?_
      refine .bind (.advance (by simp)) fun _ => ?_
      refine (ih others f).congr_stats ?_
      ext <;> simp [lookedUp, hf, total_append] <;> omega
    case none =>
      refine gets_dispatch_unknown hf (.bind (gets_skipMember tree (by simp) _) fun _ => ?_)
      refine .bind (.advance (by simp)) fun _ => ?_
      refine (ih others f).congr_stats ?_
      ext <;> simp [lookedUp, hf]
      omega

-- Leading members are matched in the order of the fields, and the others are left.
theorem gets_inOrder {fields : List Field} (sub : fields ⊆ schema.fields) (f : Filling) :
    let leading := leadingMembers fields members
    Gets ((decoding set opt room).inOrder schema fields f)
      (feed.CountedTo (memberTokens members ++ .objectEnd :: rest) n)
      (feed.CountedTo (memberTokens (members.drop leading.length) ++ .objectEnd :: rest)
        (n + (matched schema leading +
          total opt.fastPath (decodedMembers set schema (members.take leading.length))))) := by
  induction fields generalizing members f n
  case nil => exact .pure _ fun hs => counted_of_none_leading members leadingMembers_nil hs
  case cons field fields ih =>
    have ⟨declared, sub⟩ := List.cons_subset.mp sub
    cases members
    case nil =>
      exact gets_inOrder_stop (t := .objectEnd) nofun fun hs =>
        counted_of_none_leading [] leadingMembers_none hs
    case cons m members =>
      have ⟨first, others⟩ := List.forall_mem_cons.mp h
      obtain ⟨name, tree⟩ := m
      have hk := wf.closed schema hm field declared
      by_cases same : name.text = field.name
      case neg =>
        exact gets_inOrder_miss same fun hs =>
          counted_of_none_leading ((name, tree) :: members) (leadingMembers_miss same) hs
      case pos =>
        have named : schema.fieldNamed? name.text = some field :=
          same ▸ (wf.schemas schema hm).fieldNamed?_name declared
        simp only [leadingMembers_match same, List.length_cons, List.drop_succ_cons,
          List.take_succ_cons, decodedMembers, named, memberTokens, List.cons_append,
          List.append_assoc]
        refine gets_inOrder_match same (.past (.bind (.advance (by simp)) fun _ => ?_))
        refine .bind (gets_store f first hm hk) fun f => .bind (.count _) fun _ => ?_
        refine .bind (.advance (by simp)) fun _ => ?_
        refine (ih others sub f).to_stats ?_
        ext <;> simp [matched, total_append, List.countP_cons] <;> omega

theorem gets_members :
    Gets ((decoding set opt room).members opt schema)
      (feed.CountedTo (memberTokens members ++ .objectEnd :: rest) (n + { objects := 1 }))
      (feed.CountedPast rest (n + total opt.fastPath (⟨schema, members⟩ ::
        decodedMembers set schema members))) := by
  rw [ValueDecoding.members, total_cons]
  cases fast : opt.fastPath
  case false =>
    refine .bind (.pure _ id) fun f => .bind (gets_dispatch wf h hm f) fun f => ?_
    refine (gets_complete f).congr_stats ?_
    simp only [fast, DecodedObject.stats, Bool.false_eq_true, if_false, List.length_nil,
      List.drop_zero, matched_nil, zero_add, add_assoc]
  case true =>
    refine .bind (gets_inOrder wf h hm (List.Subset.refl _) _) fun f => ?_
    refine .bind (gets_dispatch wf (fun m mem => h m (List.mem_of_mem_drop mem)) hm f) fun f => ?_
    refine (gets_complete f).congr_stats ?_
    have parts (count : Nat) : total true (decodedMembers set schema members) =
        total true (decodedMembers set schema (members.take count)) +
          total true (decodedMembers set schema (members.drop count)) := by
      rw [← total_append, ← decodedMembers_append, List.take_append_drop]
    simp only [fast, DecodedObject.stats, DecodedObject.leading, if_true,
      parts (leadingMembers schema.fields members).length]
    abel

theorem gets_object :
    Gets (Level.object opt (Level.next set opt room) schema)
      (feed.CountedTo ((object members).tokens ++ rest) n)
      (feed.CountedPast rest (n + total opt.fastPath (⟨schema, members⟩ ::
        decodedMembers set schema members))) := by
  cases room
  case zero => exact .bind_fail _
  case succ room =>
    simp only [Level.object, Level.next, Level.enter, bind_assoc, pure_bind, tokens,
      List.cons_append, List.append_assoc, List.nil_append]
    refine .bind (.aside (fun _ => rfl) fun _ => rfl) fun _ => .past (.bind (.count _) fun _ => ?_)
    refine .bind (.advance (by simp)) fun _ => ?_
    exact gets_members wf h hm

theorem gets_nested {owner : Schema} :
    Gets (Level.nested opt (Level.next set opt room) owner field schema)
      (feed.CountedTo ((object members).tokens ++ rest) n)
      (feed.CountedPast rest (n + total opt.fastPath (⟨schema, members⟩ ::
        decodedMembers set schema members))) := by
  rw [Level.nested]
  refine .treeKind ?_
  refine .bind (.aside (fun _ => rfl) fun _ => rfl) fun _ => ?_
  exact .bind (gets_object wf h hm) fun _ => .pure _ id

omit hm in
-- Only fields for records take an object.
theorem counts_object : (object members).Counts feed set opt := by
  intro schema k field room rest n hm hk
  cases k
  case scalar k =>
    refine gets_mismatch (t := object members) hk fun h => ?_
    exact absurd (ScalarKind.not_opensContainer h) (by simp [kind, TokenKind.opensContainer])
  case list =>
    refine gets_mismatch (t := object members) hk ?_
    simp [kind, FieldKind.accepts]
  case nested id =>
    have found : set.get? id = some _ := List.getElem?_eq_getElem (hk id rfl)
    simp only [decoded, FieldKind.schema?, decoding, Level.decodeValue, found]
    exact gets_nested wf h (List.getElem_mem _)
  case recursive =>
    simp only [decoded, FieldKind.schema?]
    exact gets_nested wf h hm

end Members

mutual

-- Decoding counts as said, whatever is decoded.
theorem counts (wf : set.WellFormed) : ∀ t : TokenTree, t.Counts feed set opt
  | leaf l         => counts_leaf l
  | array items    => counts_array (counts_items wf items)
  | object members => counts_object wf (counts_members wf members)

theorem counts_items (wf : set.WellFormed) :
    ∀ items : List TokenTree, ∀ item ∈ items, item.Counts feed set opt
  | []            => nofun
  | item :: items => List.forall_mem_cons.mpr ⟨counts wf item, counts_items wf items⟩

theorem counts_members (wf : set.WellFormed) :
    ∀ members : List (MemberName × TokenTree), ∀ m ∈ members, m.2.Counts feed set opt
  | []                => nofun
  | (_, tree) :: more => List.forall_mem_cons.mpr ⟨counts wf tree, counts_members wf more⟩

end

end TokenTree

section

variable {fields : List Field} {members : List (MemberName × TokenTree)}

-- Leading members have names of fields.
theorem exists_field_of_leading : ∀ m ∈ members.take (leadingMembers fields members).length,
    ∃ field ∈ fields, field.name = m.1.text := by
  induction fields generalizing members
  case nil => nofun
  case cons field fields ih =>
    cases members
    case nil => nofun
    case cons m members =>
      obtain ⟨name, tree⟩ := m
      by_cases same : name.text = field.name
      case neg =>
        rw [leadingMembers_miss same]
        nofun
      case pos =>
        rw [leadingMembers_match same, List.length_cons, List.take_succ_cons]
        refine List.forall_mem_cons.mpr ⟨⟨field, List.mem_cons_self .., same.symm⟩, fun m mem => ?_⟩
        have ⟨other, declared, named⟩ := ih m mem
        exact ⟨other, List.mem_cons_of_mem _ declared, named⟩

theorem mem_of_leading {p : Field × MemberName} (h : p ∈ leadingMembers fields members) :
    ∃ m ∈ members, m.1 = p.2 :=
  have zipped := (List.takeWhile_sublist _).subset h
  List.mem_map.mp (List.of_mem_zip zipped).2

end

namespace DecodedObject

open DecodeStats

variable (o : DecodedObject) (fast : Bool)

theorem known_of_leading : ∀ m ∈ o.members.take o.leading.length,
    (o.schema.fieldNamed? m.1.text).isSome := by
  intro m mem
  have ⟨field, declared, named⟩ := exists_field_of_leading m mem
  rw [Option.isSome_iff_ne_none]
  exact fun none => Schema.fieldNamed?_eq_none_iff.mp none field declared named

theorem leading_length_le : o.leading.length ≤ o.members.length :=
  calc o.leading.length
    _ ≤ (o.schema.fields.zip (o.members.map (·.1))).length :=
      (List.takeWhile_sublist _).length_le
    _ ≤ o.members.length := by simp [List.length_zip]

theorem interned_le : o.interned ≤ o.leading.length :=
  List.countP_le_length

theorem interned_eq_zero (h : ∀ m ∈ o.members, m.1.origin = none) : o.interned = 0 := by
  refine List.countP_eq_zero.mpr fun p mem => ?_
  have ⟨m, given, name⟩ := mem_of_leading mem
  have none : p.2.origin = none := name ▸ h m given
  rw [decide_eq_true_iff]
  intro same
  cases none.symm.trans (congrArg MemberName.origin same)

theorem stats_objects : (o.stats fast).objects = 1 :=
  rfl

theorem stats_inOrder : (o.stats fast).inOrder = if fast then o.leading.length else 0 := by
  cases fast <;> simp [stats, matched, lookedUp]

theorem stats_identityHits : (o.stats fast).identityHits = if fast then o.interned else 0 := by
  cases fast <;> simp [stats, matched, lookedUp, interned]

-- A member of the object is skipped if its name is not declared, leading or not.
theorem stats_skipped : (o.stats fast).skipped = o.unknown := by
  cases fast
  case false => simp [stats, unknown, matched, lookedUp]
  case true =>
    have none : (o.members.take o.leading.length).countP
        (fun m => (o.schema.fieldNamed? m.1.text).isNone) = 0 :=
      List.countP_eq_zero.mpr fun m mem => by
        simpa [Option.isSome_iff_ne_none] using o.known_of_leading m mem
    rw [unknown, ← List.take_append_drop o.leading.length o.members, List.countP_append, none]
    simp [stats, matched, lookedUp]

theorem stats_matched : (o.stats fast).inOrder + (o.stats fast).dispatched = o.known := by
  cases fast
  case false => simp [stats, known, matched, lookedUp]
  case true =>
    have all : (o.members.take o.leading.length).countP
        (fun m => (o.schema.fieldNamed? m.1.text).isSome) = o.leading.length := by
      rw [List.countP_eq_length.mpr o.known_of_leading, List.length_take,
        Nat.min_eq_left o.leading_length_le]
    rw [known, ← List.take_append_drop o.leading.length o.members, List.countP_append, all]
    simp [stats, matched, lookedUp]

end DecodedObject

-- The counters account for the members of these objects.
structure DecodeStats.Accounts (stats : DecodeStats) (fast : Bool)
    (decoded : List DecodedObject) : Prop where
  objects : stats.objects = decoded.length
  skipped : stats.skipped = (decoded.map (·.unknown)).sum
  matched : stats.inOrder + stats.dispatched = (decoded.map (·.known)).sum
  inOrder : stats.inOrder = if fast then (decoded.map (·.leading.length)).sum else 0
  identityHits : stats.identityHits = if fast then (decoded.map (·.interned)).sum else 0
  hits_le : stats.identityHits ≤ stats.inOrder

open DecodeStats in
theorem TokenTree.accounts_total (fast : Bool) (decoded : List DecodedObject) :
    (total fast decoded).Accounts fast decoded := by
  induction decoded
  case nil => cases fast <;> constructor <;> rfl
  case cons o decoded ih =>
    rw [total_cons]
    constructor
    case objects =>
      rw [objects_add, ih.objects, o.stats_objects, List.length_cons, Nat.add_comm]
    case skipped =>
      rw [skipped_add, ih.skipped, o.stats_skipped, List.map_cons, List.sum_cons]
    case matched =>
      rw [inOrder_add, dispatched_add, List.map_cons, List.sum_cons, ← ih.matched,
        ← o.stats_matched fast]
      omega
    case inOrder =>
      rw [inOrder_add, ih.inOrder, o.stats_inOrder]
      cases fast <;> simp
    case identityHits =>
      rw [identityHits_add, ih.identityHits, o.stats_identityHits]
      cases fast <;> simp
    case hits_le =>
      rw [identityHits_add, inOrder_add]
      refine Nat.add_le_add ?_ ih.hits_le
      rw [o.stats_identityHits, o.stats_inOrder]
      split
      case isTrue  => exact o.interned_le
      case isFalse => exact Nat.le_refl 0

namespace Json

open TokenTree

variable {set : SchemaSet}

theorem origin_memberTrees (members : List (String × Json)) :
    ∀ m ∈ memberTrees members, m.1.origin = none := by
  induction members
  case nil            => simp [memberTrees]
  case cons m more ih => exact List.forall_mem_cons.mpr ⟨rfl, ih⟩

mutual

-- No name in a text is that of a field.
theorem origin_decoded : ∀ (j : Json) (schema : Schema) (k : FieldKind),
    ∀ o ∈ j.tree.decoded set schema k, ∀ m ∈ o.members, m.1.origin = none
  | null, _, _ | bool _, _, _ | number _, _, _ | string _, _, _ => nofun
  | array items, schema, k => by
    cases k
    case list inner => exact origin_decodedItems items schema inner
    all_goals nofun
  | object members, schema, k => by
    rw [tree, decoded]
    split
    case h_1 target _ =>
      exact List.forall_mem_cons.mpr
        ⟨origin_memberTrees members, origin_decodedMembers members target⟩
    case h_2 => nofun

theorem origin_decodedItems : ∀ (items : List Json) (schema : Schema) (inner : FieldKind),
    ∀ o ∈ decodedItems set schema inner (itemTrees items), ∀ m ∈ o.members, m.1.origin = none
  | [], _, _ => nofun
  | item :: items, schema, inner => by
    rw [itemTrees, decodedItems]
    exact List.forall_mem_append.mpr
      ⟨origin_decoded item schema inner, origin_decodedItems items schema inner⟩

theorem origin_decodedMembers : ∀ (members : List (String × Json)) (schema : Schema),
    ∀ o ∈ decodedMembers set schema (memberTrees members), ∀ m ∈ o.members, m.1.origin = none
  | [], _ => nofun
  | (_, value) :: members, schema => by
    rw [memberTrees, decodedMembers]
    split
    case h_1 field _ =>
      exact List.forall_mem_append.mpr
        ⟨origin_decoded value schema field.kind, origin_decodedMembers members schema⟩
    case h_2 => exact origin_decodedMembers members schema

end

end Json

section

variable {set : SchemaSet} {id : SchemaId} {schema : Schema} {opt : DecodeOptions}

-- What is counted where an object is decoded from its first token on.
theorem Feed.decodeRecord_stats [UuidFormat] {σ : Type} [Cursor σ] (feed : Feed σ)
    (wf : set.WellFormed)
    (found : set.get? id = some schema) {members : List (MemberName × TokenTree)}
    {rest : List Token} {c : σ} {index : Nat}
    (on : feed.On c index ((TokenTree.object members).tokens ++ rest)) {r : Option Record}
    {s : Session σ} (decoded : (decodeRecord set id opt).run { cursor := c } = .ok r s) :
    s.stats = TokenTree.total opt.fastPath
      ((TokenTree.object members).decoded set schema .recursive) := by
  have gets : Gets (decodeRecord set id opt)
      (feed.CountedTo ((TokenTree.object members).tokens ++ rest) 0)
      (feed.CountedPast rest (0 + TokenTree.total opt.fastPath (⟨schema, members⟩ ::
        TokenTree.decodedMembers set schema members))) := by
    rw [decodeRecord, found]
    refine .treeKind (.bind ?_ fun _ => .pure _ fun past => past)
    exact TokenTree.gets_object wf (TokenTree.counts_members wf members)
      (List.mem_of_getElem? found)
  have ends := gets (s := { cursor := c }) ⟨⟨index, on⟩, rfl⟩
  rw [decoded] at ends
  cases ends
  case ok past => exact past.2.trans (zero_add _)

-- Where decoding an object gets through, every member of each object that was decoded is accounted
-- for, and no name in a text is the very name of a field.
theorem decodeRecord_accounts [UuidFormat] {types : List TypeDecl}
    (built : SchemaSet.build types = .ok set)
    (found : set.get? id = some schema) (opt : DecodeOptions) :
    (∀ (members : List (MemberName × TokenTree)) (rest : List Token), ∃ c,
      Replay.ofTokens ((TokenTree.object members).tokens ++ rest) none = .ok c ∧
        ∀ r s, (decodeRecord set id opt).run { cursor := c } = .ok r s →
          s.stats.Accounts opt.fastPath
            ((TokenTree.object members).decoded set schema .recursive)) ∧
    ∀ (members : List (String × Json)) (bytes : List UInt8), Json.IsText (.object members) bytes →
      ∃ c, TextCursor.ofBytes bytes = .ok c ∧
        ∀ r s, (decodeRecord set id opt).run { cursor := c } = .ok r s →
          s.stats.Accounts opt.fastPath
            ((Json.object members).tree.decoded set schema .recursive) ∧
          s.stats.identityHits = 0 := by
  have wf := SchemaSet.wellFormed_of_build built
  refine ⟨fun members rest => ?_, fun members bytes text => ?_⟩
  · let tokens := (TokenTree.object members).tokens ++ rest
    refine ⟨⟨.objectStart, tokens.tail, 0, 0, none⟩, rfl, fun r s decoded => ?_⟩
    have on : Feed.tokens.On ⟨.objectStart, tokens.tail, 0, 0, none⟩ 0 tokens := ⟨rfl, rfl, rfl⟩
    rw [Feed.tokens.decodeRecord_stats wf found on decoded]
    exact TokenTree.accounts_total ..
  · have ⟨c, hc, feeds⟩ := TextCursor.exists_feeds text
    refine ⟨c, hc, fun r s decoded => ?_⟩
    have on : Feed.text.On c 0 _ := feeds
    have accounts : s.stats.Accounts opt.fastPath _ :=
      Feed.text.decodeRecord_stats wf found on decoded ▸ TokenTree.accounts_total ..
    refine ⟨accounts, accounts.identityHits.trans ?_⟩
    split
    case isTrue =>
      refine List.sum_eq_zero fun n hits => ?_
      obtain ⟨o, mem, rfl⟩ := List.mem_map.mp hits
      exact o.interned_eq_zero (Json.origin_decoded (.object members) schema .recursive o mem)
    case isFalse => rfl

-- A node with a node in it. The outer one has its members in order, one of them twice, and one of
-- them by the very name of the field.
theorem decodeRecord_accounts_node :
    let _ : UuidFormat := .hyphenated
    let types : List TypeDecl := [⟨"Node", [
      { name := "id", type := .scalar (.int .w8) },
      { name := "next", type := .named "Node", nullable := true }]⟩]
    let schema : Schema := ⟨⟨0⟩, "Node", [
      ⟨"id", 0, .scalar (.int .w8), false, false⟩, ⟨"next", 1, .recursive, true, false⟩]⟩
    let members : List (MemberName × TokenTree) := [
      (⟨"id", some ⟨0, 0⟩⟩, .leaf (.int 1)),
      (.fresh "next", .object [(.fresh "next", .leaf .null), (.fresh "id", .leaf (.int 2)),
        (.fresh "tag", .array [])]),
      (.fresh "id", .leaf (.int 3))]
    SchemaSet.build types = .ok ⟨[schema]⟩ ∧
      ∃ c, Replay.ofTokens (TokenTree.object members).tokens none = .ok c ∧
        ∃ r s, (decodeRecord ⟨[schema]⟩ ⟨0⟩ .default).run { cursor := c } = .ok (some r) s ∧
          s.stats =
            { objects := 2, inOrder := 2, identityHits := 1, dispatched := 3, skipped := 1 } := by
  intro _ types schema members
  have built : SchemaSet.build types = .ok ⟨[schema]⟩ := by rfl
  have found : SchemaSet.get? ⟨[schema]⟩ ⟨0⟩ = some schema := rfl
  have ⟨c, hc, fromTokens⟩ := heeds_of_tokens (SchemaSet.wellFormed_of_build built) found members
  have ⟨s, decoded, _⟩ := Outcome.Gives.exists_ok (fromTokens .default)
  refine ⟨built, c, hc, _, s, decoded, ?_⟩
  have ⟨c', hc', accounts⟩ := (decodeRecord_accounts built found .default).1 members []
  rw [List.append_nil, hc] at hc'
  cases hc'
  have accounts := accounts _ s decoded
  have inOrder : s.stats.inOrder = 2 := accounts.inOrder
  ext
  case objects => exact accounts.objects
  case inOrder => exact inOrder
  case identityHits => exact accounts.identityHits
  case dispatched => exact Nat.add_left_cancel (inOrder ▸ accounts.matched)
  case skipped => exact accounts.skipped

end

end RecordDecoding
