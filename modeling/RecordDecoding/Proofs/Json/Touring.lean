import RecordDecoding.Proofs.Json.Brackets
import RecordDecoding.Proofs.Json.Outline
import RecordDecoding.Proofs.Json.Standing

namespace RecordDecoding

open Forward Json

-- A start or an end is told by its kind.
theorem Lexeme.eq_of_kind {l l' : Lexeme} (h : l.kind = l'.kind)
    (hl : l' ∈ [.objectStart, .objectEnd, .arrayStart, .arrayEnd]) : l = l' := by
  have form := l.of_kind
  rw [h] at form
  simp only [List.mem_cons, List.not_mem_nil, or_false] at hl
  rcases hl with rfl | rfl | rfl | rfl <;> exact form

namespace Json

-- The lexeme of a scalar is a value.
theorem exists_of_scalar {ls : List Lexeme} {k : TokenKind}
    (hk : k ∈ [.string, .integer, .float, .boolTrue, .boolFalse, .null])
    (h : ls.map Lexeme.kind = [k]) : ∃ j : Json, j.lexemes = ls := by
  have ⟨l, hl, hkind⟩ := List.map_eq_singleton_iff.mp h
  subst hl hkind
  cases l
  case string s       => exact ⟨.string s, rfl⟩
  case number literal => exact ⟨.number literal, rfl⟩
  case bool b         => exact ⟨.bool b, rfl⟩
  case null           => exact ⟨.null, rfl⟩
  all_goals simp [Lexeme.kind] at hk

-- What is between a start and an end.
theorem exists_inside {ls : List Lexeme} {first last : Lexeme} {kinds : List TokenKind}
    (hfirst : first ∈ [.objectStart, .objectEnd, .arrayStart, .arrayEnd])
    (hlast : last ∈ [.objectStart, .objectEnd, .arrayStart, .arrayEnd])
    (h : ls.map Lexeme.kind = first.kind :: kinds ++ [last.kind]) :
    ∃ inside, ls = first :: inside ++ [last] ∧ inside.map Lexeme.kind = kinds := by
  have ⟨front, back, hl, hf, hb⟩ := List.map_eq_append_iff.mp h
  have ⟨l, inside, hf, hk, hi⟩ := List.map_eq_cons_iff.mp hf
  have ⟨l', hb, hk'⟩ := List.map_eq_singleton_iff.mp hb
  exact ⟨inside, by rw [hl, hf, hb, Lexeme.eq_of_kind hk hfirst, Lexeme.eq_of_kind hk' hlast], hi⟩

mutual

-- Lexemes of the same kinds as those of a value are those of some value.
theorem exists_lexemes : ∀ {j : Json} {ls : List Lexeme},
    ls.map Lexeme.kind = j.lexemes.map Lexeme.kind → ∃ j' : Json, j'.lexemes = ls
  | null, ls, h            => exists_of_scalar (by decide) h
  | bool b, ls, h          => exists_of_scalar (by cases b <;> decide) h
  | number literal, ls, h  => by
    refine exists_of_scalar ?_ h
    rcases Lexeme.kind_number literal with hk | hk <;> simp [hk]
  | string s, ls, h        => exists_of_scalar (by simp [Lexeme.kind]) h
  | array items, ls, h     => by
    rw [lexemes, List.map_append, List.map_cons] at h
    have ⟨inside, hl, hk⟩ := exists_inside (by simp) (by simp) h
    have ⟨items', hi⟩ := exists_itemLexemes hk
    exact ⟨array items', by rw [lexemes, hi, hl]⟩
  | object members, ls, h  => by
    rw [lexemes, List.map_append, List.map_cons] at h
    have ⟨inside, hl, hk⟩ := exists_inside (by simp) (by simp) h
    have ⟨members', hm⟩ := exists_memberLexemes hk
    exact ⟨object members', by rw [lexemes, hm, hl]⟩

theorem exists_itemLexemes : ∀ {items : List Json} {ls : List Lexeme},
    ls.map Lexeme.kind = (itemLexemes items).map Lexeme.kind → ∃ items', itemLexemes items' = ls
  | [], ls, h            => ⟨[], (List.map_eq_nil_iff.mp h).symm⟩
  | item :: items, ls, h => by
    rw [itemLexemes, List.map_append] at h
    have ⟨front, back, hl, hf, hb⟩ := List.map_eq_append_iff.mp h
    have ⟨item', hf⟩ := exists_lexemes hf
    have ⟨items', hb⟩ := exists_itemLexemes hb
    exact ⟨item' :: items', by rw [itemLexemes, hf, hb, hl]⟩

theorem exists_memberLexemes : ∀ {members : List (String × Json)} {ls : List Lexeme},
    ls.map Lexeme.kind = (memberLexemes members).map Lexeme.kind →
      ∃ members', memberLexemes members' = ls
  | [], ls, h                    => ⟨[], (List.map_eq_nil_iff.mp h).symm⟩
  | (_, value) :: members, ls, h => by
    rw [memberLexemes, List.map_append, List.map_cons] at h
    have ⟨front, back, hl, hf, hb⟩ := List.map_eq_append_iff.mp h
    have ⟨l, front, hf, hk, hv⟩ := List.map_eq_cons_iff.mp hf
    have form := l.of_kind
    rw [hk] at form
    have ⟨name, hn⟩ := form
    have ⟨value', hv⟩ := exists_lexemes hv
    have ⟨members', hb⟩ := exists_memberLexemes hb
    exact ⟨(name, value') :: members', by rw [memberLexemes, hv, hb, hl, hf, hn]⟩

end

end Json

theorem Place.Moves.depthAfter {p q : Place} (h : p.Moves q) :
    q.stack.length = Cursor.depthAfter p.stack.length q.kind := by
  have depth := h.depth
  have starts : q.kind.opensContainer → q.kind.closesContainer = false := by
    cases q.kind <;> decide
  simp only [Cursor.depthAfter]
  split_ifs at depth ⊢ <;> grind

namespace TextCursor

variable {c last : TextCursor} {cursors : List TextCursor} {source : List UInt8} {l l' : Lexeme}
  {ls : List Lexeme} {seen : List TokenKind} {start : Nat}

namespace Tour

-- If a text follows, the tour shows its lexemes.
theorem shows (tour : Tour c cursors last) (h : c.Follows ls) : List.Forall₂ Shows cursors ls := by
  induction tour generalizing ls
  case done hc => exact (h.of_complete hc).1 ▸ .nil
  case move hc hr _ ih =>
    have yields := advance_yields h hc
    cases ls
    case nil => cases yields
    case cons =>
      have ⟨_, hr', shows, follows⟩ := yields
      cases hr.symm.trans hr'
      exact .cons shows (ih follows)

theorem on (tour : Tour c cursors last) (hs : c.source = source) (hr : c.Rests start) :
    (∀ t ∈ cursors, t.On source ∧ c.reader.offset ≤ t.start) ∧
      cursors.Pairwise fun t t' => t.start < t'.start := by
  induction tour generalizing start
  case done => exact ⟨nofun, .nil⟩
  case move hrun _ ih =>
    have ⟨on, le⟩ := on_of_advance hs hr hrun
    have ⟨ahead, ordered⟩ := ih on.source on.rests
    have passed := on.stands.start
    refine ⟨List.forall_mem_cons.mpr ⟨⟨on, le⟩, fun t ht => ?_⟩, ordered.cons fun t ht => ?_⟩
    · have ⟨on, behind⟩ := ahead t ht
      exact ⟨on, by omega⟩
    · exact passed.trans_le (ahead t ht).2

-- The kinds of the tokens tell the depths.
theorem levels (tour : Tour c cursors last) (hs : c.expect.Suits c.stack) :
    cursors.map (fun c => (if c.kind.opensContainer then c.depth - 1 else c.depth, c.kind)) =
      TokenKind.levels c.depth (cursors.map (·.kind)) := by
  induction tour
  case done => rfl
  case move c c' _ _ _ hr _ ih =>
    have moves := moves_of_advance hs hr
    have depth : c'.depth = Cursor.depthAfter c.depth c'.kind := moves.depthAfter
    rw [List.map_cons, List.map_cons, TokenKind.levels, ih moves.within.suits, depth]
    split
    case isTrue opens =>
      simp [Cursor.depthAfter, opens]
    case isFalse => rfl

-- Whatever the bytes are, the tokens are of the kinds of some value.
theorem exists_kinds (tour : Tour c cursors last) (hs : c.expect.Suits c.stack)
    (reached : c.place.Reached seen) :
    ∃ j : Json, j.lexemes.map Lexeme.kind = seen ++ cursors.map (·.kind) := by
  induction tour generalizing seen
  case done c hc =>
    have ⟨j, _, _, hj⟩ := reached.exists_text hs (of_decide_eq_true hc)
    exact ⟨j, hj.trans (List.append_nil _).symm⟩
  case move hr _ ih =>
    have moves := moves_of_advance hs hr
    have settled := reached.step moves
    have ⟨j, hj⟩ := ih moves.within.suits settled.toReached
    exact ⟨j, by rw [hj, List.append_assoc]; rfl⟩

end Tour

-- A cursor shows one lexeme.
theorem Shows.unique (h : c.Shows l) (h' : c.Shows l') : l = l' := by
  have form := l'.of_kind
  rw [← h'.kind_eq, h.kind_eq] at form
  cases l
  case name =>
    obtain ⟨_, rfl⟩ := form
    cases h.2.symm.trans h'.2
    rfl
  case string =>
    obtain ⟨_, rfl⟩ := form
    cases h.2.symm.trans h'.2
    rfl
  case number s =>
    have ⟨_, hl⟩ : ∃ s, l' = .number s := by
      rcases Lexeme.kind_number s with hk | hk <;> simpa [hk] using form
    subst hl
    cases h.1.symm.trans h'.1
    rfl
  case bool b => cases b <;> exact form.symm
  all_goals exact form.symm

-- The tokens of a text are those of a value. It is the value of the text, if that is JSON.
theorem exists_shown (h : all source = .ok cursors) : ∃ j : Json,
    (hasSignedUnit source = false → IsText j source) ∧ List.Forall₂ Shows cursors j.lexemes := by
  have ⟨_, _, tour, _⟩ := tour_of_all h
  cases hs : hasSignedUnit source
  case false =>
    have ⟨j, text⟩ := exists_isText h hs
    exact ⟨j, fun _ => text, tour.shows (follows_initial text)⟩
  case true =>
    have ⟨j, hj⟩ := tour.exists_kinds trivial (Place.reached_initial source)
    have ⟨on, _⟩ := tour.on rfl (rests_initial source)
    have ⟨ls, shows⟩ := exists_forall₂ fun c hc =>
      have ⟨l, _, shows, _⟩ := (on c hc).1.shows
      ⟨l, shows⟩
    have kinds := map_eq_of_forall₂ (shows.imp fun _ _ shows => shows.kind_eq)
    have ⟨j', hl⟩ := exists_lexemes (kinds.symm.trans hj.symm)
    exact ⟨j', nofun, hl ▸ shows⟩

-- The depths are those that the lexemes have in the value.
theorem Tour.outlines {j : Json} (tour : Tour (initial source) cursors last)
    (shows : List.Forall₂ Shows cursors j.lexemes) :
    List.Forall₂ (fun c t => c.Shows t.2 ∧
      (if c.kind.opensContainer then c.depth - 1 else c.depth) = t.1) cursors (j.outline 0) := by
  have kinds : cursors.map (·.kind) = j.lexemes.map Lexeme.kind :=
    map_eq_of_forall₂ (shows.imp fun _ _ shows => shows.kind_eq)
  have levels := tour.levels trivial
  have counted := levels_lexemes 0 [] j
  rw [List.append_nil, ← kinds] at counted
  replace levels := levels.trans counted
  rw [TokenKind.levels, List.append_nil, Json.levels, leveled, map_eq_map_iff_forall₂] at levels
  rw [← map_outline 0 j, List.forall₂_map_right_iff] at shows
  exact shows.mp (fun _ _ shows level => ⟨shows, congrArg Prod.fst level⟩) levels

end TextCursor
end RecordDecoding
