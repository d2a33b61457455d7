import RecordDecoding.Proofs.Json.Walking

namespace RecordDecoding

-- Tokens of these kinds, each with how many containers are around it. So many are open in front of
-- the first one.
def TokenKind.levels (depth : Nat) : List TokenKind → List (Nat × TokenKind)
  | []      => []
  | k :: ks =>
    let after := Cursor.depthAfter depth k
    (if k.opensContainer then depth else after, k) :: levels after ks

-- A token that neither starts nor ends a container changes nothing.
theorem TokenKind.levels_cons_scalar (depth : Nat) {k : TokenKind} (ks : List TokenKind)
    (opens : k.opensContainer = false) (closes : k.closesContainer = false) :
    levels depth (k :: ks) = (depth, k) :: levels depth ks := by
  simp [levels, Cursor.depthAfter, opens, closes]

namespace Json

mutual

-- The lexemes of a value that so many containers are around.
def outline (depth : Nat) : Json → List (Nat × Lexeme)
  | null           => [(depth, .null)]
  | bool b         => [(depth, .bool b)]
  | number literal => [(depth, .number literal)]
  | string s       => [(depth, .string s)]
  | array items    => (depth, .arrayStart) :: itemOutlines (depth + 1) items ++ [(depth, .arrayEnd)]
  | object members =>
    (depth, .objectStart) :: memberOutlines (depth + 1) members ++ [(depth, .objectEnd)]

def itemOutlines (depth : Nat) : List Json → List (Nat × Lexeme)
  | []            => []
  | item :: items => item.outline depth ++ itemOutlines depth items

def memberOutlines (depth : Nat) : List (String × Json) → List (Nat × Lexeme)
  | []                       => []
  | (name, value) :: members =>
    (depth, .name name) :: value.outline depth ++ memberOutlines depth members

end

mutual

theorem map_outline (depth : Nat) : ∀ j : Json, (j.outline depth).map Prod.snd = j.lexemes
  | null | bool _ | number _ | string _ => rfl
  | array items    => by simp [outline, lexemes, map_itemOutlines _ items]
  | object members => by simp [outline, lexemes, map_memberOutlines _ members]

theorem map_itemOutlines (depth : Nat) : ∀ items : List Json,
    (itemOutlines depth items).map Prod.snd = itemLexemes items
  | []            => rfl
  | item :: items => by
    simp [itemOutlines, itemLexemes, map_outline _ item, map_itemOutlines _ items]

theorem map_memberOutlines (depth : Nat) : ∀ members : List (String × Json),
    (memberOutlines depth members).map Prod.snd = memberLexemes members
  | []                    => rfl
  | (_, value) :: members => by
    simp [memberOutlines, memberLexemes, map_outline _ value, map_memberOutlines _ members]

end

-- The kinds that lexemes are read as, in their places.
def leveled : List (Nat × Lexeme) → List (Nat × TokenKind) :=
  List.map (Prod.map id Lexeme.kind)

theorem leveled_cons (depth : Nat) (l : Lexeme) (entries : List (Nat × Lexeme)) :
    leveled ((depth, l) :: entries) = (depth, l.kind) :: leveled entries := rfl

theorem leveled_append (entries entries' : List (Nat × Lexeme)) :
    leveled (entries ++ entries') = leveled entries ++ leveled entries' := List.map_append ..

def levels (depth : Nat) (j : Json) : List (Nat × TokenKind) :=
  leveled (j.outline depth)

theorem levels_array (depth : Nat) (items : List Json) : (array items).levels depth =
    (depth, .arrayStart) :: leveled (itemOutlines (depth + 1) items) ++ [(depth, .arrayEnd)] := by
  rw [levels, outline, leveled_append, leveled_cons]
  rfl

theorem levels_object (depth : Nat) (members : List (String × Json)) :
    (object members).levels depth = (depth, .objectStart) ::
      leveled (memberOutlines (depth + 1) members) ++ [(depth, .objectEnd)] := by
  rw [levels, outline, leveled_append, leveled_cons]
  rfl

-- Counting containers over the tokens of a value, whatever follows, gives the depths in the value.
mutual

theorem levels_lexemes (depth : Nat) (more : List TokenKind) : ∀ j : Json,
    TokenKind.levels depth (j.lexemes.map Lexeme.kind ++ more) =
      j.levels depth ++ TokenKind.levels depth more
  | null           => rfl
  | bool b         => by cases b <;> rfl
  | number literal => by
    refine TokenKind.levels_cons_scalar depth more ?_ ?_ <;>
    · rcases Lexeme.kind_number literal with hk | hk <;> rw [hk] <;> rfl
  | string _       => rfl
  | array items    => by
    have inside := levels_items (depth + 1) (.arrayEnd :: more) items
    rw [levels_array, lexemes]
    simpa [Lexeme.kind, TokenKind.levels, Cursor.depthAfter, TokenKind.opensContainer,
      TokenKind.closesContainer] using inside
  | object members => by
    have inside := levels_members (depth + 1) (.objectEnd :: more) members
    rw [levels_object, lexemes]
    simpa [Lexeme.kind, TokenKind.levels, Cursor.depthAfter, TokenKind.opensContainer,
      TokenKind.closesContainer] using inside

theorem levels_items (depth : Nat) (more : List TokenKind) : ∀ items : List Json,
    TokenKind.levels depth ((itemLexemes items).map Lexeme.kind ++ more) =
      leveled (itemOutlines depth items) ++ TokenKind.levels depth more
  | []            => rfl
  | item :: items => by
    rw [itemLexemes, List.map_append, List.append_assoc, levels_lexemes depth _ item,
      levels_items depth more items, itemOutlines, leveled_append, List.append_assoc]
    rfl

theorem levels_members (depth : Nat) (more : List TokenKind) : ∀ members : List (String × Json),
    TokenKind.levels depth ((memberLexemes members).map Lexeme.kind ++ more) =
      leveled (memberOutlines depth members) ++ TokenKind.levels depth more
  | []                    => rfl
  | (_, value) :: members => by
    rw [memberLexemes, List.map_append, List.map_cons, List.append_assoc, List.cons_append]
    rw [TokenKind.levels_cons_scalar depth _ rfl rfl, levels_lexemes depth _ value,
      levels_members depth more members, memberOutlines, leveled_append, List.append_assoc]
    rfl

end

theorem levels_eq_cons (depth : Nat) (j : Json) :
    ∃ kind inside, j.levels depth = (depth, kind) :: inside := by
  cases j
  all_goals exact ⟨_, _, rfl⟩

theorem levels_eq_concat (depth : Nat) (j : Json) :
    ∃ inside kind, j.levels depth = inside ++ [(depth, kind)] := by
  cases j
  case array  => exact ⟨_, _, levels_array ..⟩
  case object => exact ⟨_, _, levels_object ..⟩
  all_goals exact ⟨[], _, rfl⟩

-- A container that starts here ends as deep as it starts, and all that is in between is deeper.
def Encloses (depth : Nat) (sort : Container) (after : List (Nat × TokenKind)) : Prop :=
  ∃ j inside rest, levels depth j = (depth, sort.first) :: inside ++ [(depth, sort.last)] ∧
    (∀ token ∈ inside, depth < token.1) ∧ after = inside ++ (depth, sort.last) :: rest

-- The value of a member starts as deep as the name that stands here.
def Names (depth : Nat) (after : List (Nat × TokenKind)) : Prop :=
  ∃ j kind inside rest, levels depth j = (depth, kind) :: inside ∧
    after = (depth, kind) :: inside ++ rest

-- What the depths of tokens tell. Here at least so many containers are around each of them.
structure Nests (depth : Nat) (tokens : List (Nat × TokenKind)) : Prop where
  within : ∀ token ∈ tokens, depth ≤ token.1
  container {depth : Nat} {sort : Container} {after : List (Nat × TokenKind)} :
    (depth, sort.first) :: after <:+ tokens → Encloses depth sort after
  name {depth : Nat} {after : List (Nat × TokenKind)} :
    (depth, .fieldName) :: after <:+ tokens → Names depth after

variable {depth : Nat} {sort : Container} {kind : TokenKind}
  {after tokens tokens' : List (Nat × TokenKind)}

theorem Encloses.append (h : Encloses depth sort after) : Encloses depth sort (after ++ tokens) :=
  have ⟨j, inside, rest, hj, deeper, he⟩ := h
  ⟨j, inside, rest ++ tokens, hj, deeper, by simp [he]⟩

theorem Names.append (h : Names depth after) : Names depth (after ++ tokens) :=
  have ⟨j, kind, inside, rest, hj, he⟩ := h
  ⟨j, kind, inside, rest ++ tokens, hj, by simp [he]⟩

-- A suffix of two lists in a row starts in one of them.
theorem cons_suffix_append {α : Type} {a : α} {as bs cs : List α} (h : a :: as <:+ bs ++ cs) :
    (∃ as', a :: as' <:+ bs ∧ as = as' ++ cs) ∨ a :: as <:+ cs := by
  have ⟨front, he⟩ := h
  rcases List.append_eq_append_iff.mp he with ⟨mid, hb, hc⟩ | ⟨mid, _, hc⟩
  case inl =>
    rcases List.cons_eq_append_iff.mp hc with ⟨_, he⟩ | ⟨as', rfl, ha⟩
    · exact .inr ⟨[], he.symm⟩
    · exact .inl ⟨as', ⟨front, hb.symm⟩, ha⟩
  case inr => exact .inr ⟨mid, hc.symm⟩

namespace Nests

theorem nil : Nests depth [] where
  within    := nofun
  container := fun h => absurd h (by simp)
  name      := fun h => absurd h (by simp)

theorem append (h : Nests depth tokens) (h' : Nests depth tokens') :
    Nests depth (tokens ++ tokens') where
  within := List.forall_mem_append.mpr ⟨h.within, h'.within⟩
  container hs := by
    rcases cons_suffix_append hs with ⟨_, hs, ha⟩ | hs
    · exact ha ▸ (h.container hs).append
    · exact h'.container hs
  name hs := by
    rcases cons_suffix_append hs with ⟨_, hs, ha⟩ | hs
    · exact ha ▸ (h.name hs).append
    · exact h'.name hs

theorem cons (h : Nests depth tokens)
    (container : ∀ {sort : Container}, kind = sort.first → Encloses depth sort tokens)
    (name : kind = .fieldName → Names depth tokens) : Nests depth ((depth, kind) :: tokens) where
  within := List.forall_mem_cons.mpr ⟨le_rfl, h.within⟩
  container hs := by
    rcases List.suffix_cons_iff.mp hs with he | hs
    · cases he
      exact container rfl
    · exact h.container hs
  name hs := by
    rcases List.suffix_cons_iff.mp hs with he | hs
    · cases he
      exact name rfl
    · exact h.name hs

-- A token that starts nothing.
theorem single (hk : kind ∉ [.objectStart, .arrayStart, .fieldName]) :
    Nests depth [(depth, kind)] := by
  refine nil.cons (fun {sort} h => ?_) fun h => absurd (by simp [h]) hk
  refine absurd ?_ hk
  cases sort <;> simp [h, Container.first]

-- A container of what is one deeper.
theorem enclose (sort : Container) {j : Json} (h : Nests (depth + 1) tokens)
    (hj : j.levels depth = (depth, sort.first) :: tokens ++ [(depth, sort.last)]) :
    Nests depth (j.levels depth) := by
  have inside : Nests depth tokens :=
    ⟨fun token ht => Nat.le_of_succ_le (h.within token ht), h.container, h.name⟩
  have last : Nests depth [(depth, sort.last)] := single (by cases sort <;> decide)
  rw [hj]
  refine (inside.append last).cons (fun {sort'} he => ?_) fun he => ?_
  · have same : sort' = sort := by
      cases sort <;> cases sort' <;> first | rfl | cases he
    subst same
    exact ⟨j, tokens, [], hj, h.within, rfl⟩
  · cases sort <;> cases he

-- A member of an object.
theorem member {j : Json} (h : Nests depth (j.levels depth)) :
    Nests depth ((depth, .fieldName) :: j.levels depth) := by
  refine h.cons (fun {sort} he => ?_) fun _ => ?_
  · cases sort <;> cases he
  · have ⟨kind, inside, hj⟩ := levels_eq_cons depth j
    exact ⟨j, kind, inside, [], hj, by simp [hj]⟩

end Nests

mutual

theorem nests_levels (depth : Nat) : ∀ j : Json, Nests depth (j.levels depth)
  | null           => .single (by decide)
  | bool b         => .single (by cases b <;> decide)
  | number literal => by
    refine .single ?_
    rcases Lexeme.kind_number literal with hk | hk <;> simp [hk]
  | string _       => .single (by simp [Lexeme.kind])
  | array items    => .enclose .array (nests_items _ items) (levels_array ..)
  | object members => .enclose .object (nests_members _ members) (levels_object ..)

theorem nests_items (depth : Nat) : ∀ items : List Json,
    Nests depth (leveled (itemOutlines depth items))
  | []            => .nil
  | item :: items => by
    rw [itemOutlines, leveled_append]
    exact (nests_levels depth item).append (nests_items depth items)

theorem nests_members (depth : Nat) : ∀ members : List (String × Json),
    Nests depth (leveled (memberOutlines depth members))
  | []                    => .nil
  | (_, value) :: members => by
    rw [memberOutlines, leveled_append, leveled_cons]
    exact (nests_levels depth value).member.append (nests_members depth members)

end

end Json
end RecordDecoding
