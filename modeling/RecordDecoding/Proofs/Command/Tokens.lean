import RecordDecoding.Command.Rows
import RecordDecoding.Proofs.Json.Touring

namespace RecordDecoding.Command.TokenRow

open Json TextCursor

-- What is written of a lexeme besides its kind.
def shown : Lexeme → Option String
  | .name s | .string s => some (Quoted.text s)
  | .number literal     => some literal
  | _                   => none

-- The row is that of a lexeme with so many containers around it, which stands in the source where
-- the row says.
structure Tells (source : List UInt8) (entry : Nat × Lexeme) (row : TokenRow) : Prop where
  depth    : row.depth = entry.1
  kind     : row.kind = entry.2.kind
  text     : row.text = shown entry.2
  position : row.position = .of source row.position.offset
  spelled  : ∃ text, entry.2.Spells text ∧ text <+: source.drop row.position.offset

variable {source : List UInt8} {c : TextCursor} {l : Lexeme} {row : TokenRow}
  {rows : List TokenRow}

theorem textOf_eq (h : c.Shows l) : textOf c = .ok (shown l) := by
  have kind := h.kind_eq
  rw [textOf, kind]
  cases l
  case name s => simp only [Lexeme.kind, h.2]; rfl
  case string s => simp only [Lexeme.kind, h.2]; rfl
  case number literal =>
    rcases Lexeme.kind_number literal with hk | hk <;> simp only [hk, h.1] <;> rfl
  case bool b => cases b <;> rfl
  all_goals rfl

theorem tells_of_ofCursor {entry : Nat × Lexeme} (on : c.On source) (shows : c.Shows entry.2)
    (depth : (if c.kind.opensContainer then c.depth - 1 else c.depth) = entry.1)
    (h : ofCursor c = .ok row) : row.Tells source entry := by
  have ⟨l, text, shows', spells, spelled⟩ := on.shows
  cases shows.unique shows'
  rw [on.source] at spelled
  rw [ofCursor, textOf_eq shows] at h
  cases h
  exact {
    depth
    kind     := shows.kind_eq
    text     := rfl
    position := by rw [← on.source]; rfl
    spelled  := ⟨text, spells, spelled⟩
  }

theorem position_of_ofCursor (h : ofCursor c = .ok row) : row.position = c.position := by
  have ⟨_, _, h⟩ := ok_of_bind_ok h
  cases h
  rfl

-- A listing has a row for each lexeme of a value, in the order of the source, and its depths are
-- how the lexemes nest.
theorem ofBytes_nests (h : ofBytes source = .ok rows) : ∃ j : Json,
    (hasSignedUnit source = false → IsText j source) ∧
      List.Forall₂ (Tells source) (j.outline 0) rows ∧
      rows.Pairwise (fun row row' => row.position.offset < row'.position.offset) ∧
      rows.head?.map (·.depth) = some 0 ∧ rows.getLast?.map (·.depth) = some 0 ∧
      Nests 0 (rows.map fun row => (row.depth, row.kind)) := by
  have ⟨cursors, hall, hrows⟩ := ok_of_bind_ok h
  have ⟨j, text, shows⟩ := exists_shown hall
  have ⟨_, _, tour, _⟩ := tour_of_all hall
  have ⟨on, ordered⟩ := tour.on rfl (rests_initial source)
  have outlines := (List.forall₂_and_left ..).mpr ⟨on, tour.outlines shows⟩
  have tells : List.Forall₂ (Tells source) (j.outline 0) rows :=
    forall₂_of_mapM_ok outlines.flip hrows fun ⟨on, shows, depth⟩ hrow =>
      tells_of_ofCursor on.1 shows depth hrow
  have offsets : cursors.map (·.start) = rows.map (·.position.offset) := by
    refine map_eq_of_forall₂ ((mapM_ok_iff.mp hrows).imp fun c row hrow => ?_)
    rw [position_of_ofCursor hrow]
    rfl
  have levels : j.levels 0 = rows.map fun row => (row.depth, row.kind) :=
    map_eq_of_forall₂ (tells.imp fun _ _ tells => Prod.ext tells.depth.symm tells.kind.symm)
  have depths : rows.map (·.depth) = (j.levels 0).map Prod.fst := by
    rw [levels, List.map_map]
    rfl
  refine ⟨j, text, tells, ?ordered, ?first, ?last, levels ▸ nests_levels 0 j⟩
  case ordered => rwa [← List.pairwise_map, ← offsets, List.pairwise_map]
  case first =>
    have ⟨kind, inside, hj⟩ := levels_eq_cons 0 j
    rw [← List.head?_map, depths, hj]
    rfl
  case last =>
    have ⟨inside, kind, hj⟩ := levels_eq_concat 0 j
    rw [← List.getLast?_map, depths, hj, List.map_append, List.map_singleton,
      List.getLast?_concat]

theorem ofBytes_nests_members :
    let source := plain "\x7b\"a\": [1, \x7b\x7d]\x7d".toList
    let rows : List TokenRow := [
      ⟨.objectStart, 0, ⟨0, 1, 1⟩, none⟩, ⟨.fieldName, 1, ⟨1, 1, 2⟩, some "\"a\""⟩,
      ⟨.arrayStart, 1, ⟨6, 1, 7⟩, none⟩, ⟨.integer, 2, ⟨7, 1, 8⟩, some "1"⟩,
      ⟨.objectStart, 2, ⟨10, 1, 11⟩, none⟩, ⟨.objectEnd, 2, ⟨11, 1, 12⟩, none⟩,
      ⟨.arrayEnd, 1, ⟨12, 1, 13⟩, none⟩, ⟨.objectEnd, 0, ⟨13, 1, 14⟩, none⟩]
    ofBytes source = .ok rows ∧ ∃ j : Json,
      (hasSignedUnit source = false → IsText j source) ∧
        List.Forall₂ (Tells source) (j.outline 0) rows ∧
        rows.Pairwise (fun row row' => row.position.offset < row'.position.offset) ∧
        rows.head?.map (·.depth) = some 0 ∧ rows.getLast?.map (·.depth) = some 0 ∧
        Nests 0 (rows.map fun row => (row.depth, row.kind)) := by
  intro source rows
  have listed : ofBytes source = .ok rows := by decide +kernel
  exact ⟨listed, ofBytes_nests listed⟩

end RecordDecoding.Command.TokenRow
