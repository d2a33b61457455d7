import RecordDecoding.Json.Writer
import RecordDecoding.Proofs.Json.Sitting

namespace RecordDecoding

namespace Utf8

theorem encode_append (s t : String) : encode (s ++ t) = encode s ++ encode t := by
  rw [encode, String.toList_append, List.flatMap_append]
  rfl

theorem encode_ascii {s : String} (h : ∀ c ∈ s.toList, c.toNat < 128) :
    encode s = Json.plain s.toList :=
  flatMap_ascii h

end Utf8

namespace Json

-- The numbers in a value have literals of numbers.
def Proper (j : Json) : Prop :=
  ∀ l ∈ j.lexemes, l.Valid

section Proper

variable {items : List Json} {members : List (String × Json)}

theorem proper_null : Json.null.Proper :=
  List.forall_mem_singleton.mpr trivial

theorem proper_bool (b : Bool) : (bool b).Proper :=
  List.forall_mem_singleton.mpr trivial

theorem proper_string (s : String) : (string s).Proper :=
  List.forall_mem_singleton.mpr trivial

theorem proper_number_iff {literal : String} :
    (number literal).Proper ↔ Numeral.IsNumber literal.toList :=
  List.forall_mem_singleton

theorem proper_array_iff : (array items).Proper ↔ ∀ j ∈ items, j.Proper := by
  have inside : (∀ l ∈ itemLexemes items, l.Valid) ↔ ∀ j ∈ items, j.Proper := by
    induction items
    case nil     => simp [itemLexemes]
    case cons ih => rw [itemLexemes, List.forall_mem_append, ih, List.forall_mem_cons, Proper]
  rw [← inside, Proper, lexemes, List.cons_append, List.forall_mem_cons, List.forall_mem_append]
  exact ⟨fun h => h.2.1, fun h => ⟨trivial, h, List.forall_mem_singleton.mpr trivial⟩⟩

theorem proper_object_iff : (object members).Proper ↔ ∀ m ∈ members, m.2.Proper := by
  have inside : (∀ l ∈ memberLexemes members, l.Valid) ↔ ∀ m ∈ members, m.2.Proper := by
    induction members
    case nil     => simp [memberLexemes]
    case cons ih =>
      rw [memberLexemes, List.cons_append, List.forall_mem_cons, List.forall_mem_append, ih,
        List.forall_mem_cons, Proper]
      exact and_iff_right trivial
  rw [← inside, Proper, lexemes, List.cons_append, List.forall_mem_cons, List.forall_mem_append]
  exact ⟨fun h => h.2.1, fun h => ⟨trivial, h, List.forall_mem_singleton.mpr trivial⟩⟩

end Proper

section Strings

theorem unitText_fixed {n : Nat} (h : n < 0x10000) :
    UnitText n ((Hex.fixed 4 n).map ascii) := by
  have read : Hex.read? (Hex.fixed 4 n) = some n := by
    rw [Hex.read?_fixed, Nat.mod_eq_of_lt (show n < Nat.pow 16 4 from h)]
  exact ⟨_, _, _, _, read, rfl⟩

-- A character has a short escape, or is a control without one, or stands for itself.
theorem writeChar_cases (c : Char) :
    (∃ letter, (letter, c) ∈ shortEscapes ∧ writeChar c = ['\\', letter]) ∨
      (c.toNat < 0x20 ∧ writeChar c = '\\' :: 'u' :: Hex.fixed 4 c.toNat) ∨
      IsRaw c ∧ writeChar c = [c] := by
  unfold writeChar
  iterate 7
    split
    · subst_vars
      exact .inl ⟨_, by decide, rfl⟩
  split
  case isTrue h  => exact .inr (.inl ⟨h, rfl⟩)
  case isFalse h => exact .inr (.inr ⟨⟨‹c ≠ '"'›, ‹c ≠ '\\'›, Nat.le_of_not_lt h⟩, rfl⟩)

theorem charText_writeChar (c : Char) :
    CharText c ((writeChar c).flatMap String.utf8EncodeChar) := by
  rcases writeChar_cases c with ⟨letter, h, hw⟩ | ⟨h, hw⟩ | ⟨h, hw⟩
  case inl =>
    have letters : ∀ p ∈ shortEscapes, p.1.toNat < 128 := by decide
    have ascii : ∀ l ∈ ['\\', letter], l.toNat < 128 := by simpa using letters _ h
    rw [hw, Utf8.flatMap_ascii ascii]
    exact .escape (.short h)
  case inr.inl =>
    have ascii : ∀ l ∈ '\\' :: 'u' :: Hex.fixed 4 c.toNat, l.toNat < 128 := by
      simpa using fun l hl => (Hex.mem_fixed hl).2
    rw [hw, Utf8.flatMap_ascii ascii]
    exact .escape (.unit (unitText_fixed (Nat.lt_trans h (by decide))))
  case inr.inr =>
    rw [hw, List.flatMap_singleton]
    exact .raw h

theorem charsText_write (cs : List Char) :
    CharsText cs ((cs.flatMap writeChar).flatMap String.utf8EncodeChar) := by
  induction cs
  case nil => exact .nil
  case cons c cs ih =>
    rw [List.flatMap_cons, List.flatMap_append]
    exact .cons (charText_writeChar c) ih

theorem stringText_writeString (s : String) : StringText s (Utf8.encode (writeString s)) := by
  have bytes : Utf8.encode (writeString s) =
      ascii '"' :: ((s.toList.flatMap writeChar).flatMap String.utf8EncodeChar ++ [ascii '"']) := by
    rw [Utf8.encode, writeString, String.toList_ofList, List.cons_append, List.flatMap_cons,
      List.flatMap_append]
    rfl
  exact bytes ▸ .quoted (charsText_write s.toList)

end Strings

section Lines

-- Lines with commas between them, each behind the same gap.
def separated (gap : String) : List String → String
  | []                    => ""
  | [line]                => gap ++ line
  | line :: line' :: more => gap ++ line ++ "," ++ separated gap (line' :: more)

theorem separated_append (before gap : String) : ∀ {lines : List String}, lines ≠ [] →
    before ++ (("," ++ before).intercalate (lines.map (gap ++ ·))) =
      separated (before ++ gap) lines
  | [_], _                   => by simp [separated, String.append_assoc]
  | line :: line' :: more, _ => by
    have next := separated_append before gap (List.cons_ne_nil line' more)
    rw [separated, ← next]
    simp [String.append_assoc]

theorem encode_separated (gap line line' : String) (more : List String) (tail : String) :
    Utf8.encode (separated gap (line :: line' :: more) ++ tail) =
      Utf8.encode gap ++ (Utf8.encode line ++
        ([] ++ ascii ',' :: Utf8.encode (separated gap (line' :: more) ++ tail))) := by
  simp only [separated, Utf8.encode_append, List.append_assoc, List.nil_append]
  rfl

variable {gap tail : String} {lines : List String}

theorem blank_encode {s : String} (h : ∀ c ∈ s.toList, c = ' ' ∨ c = '\n') :
    Blank (Utf8.encode s) := by
  have ascii : ∀ c ∈ s.toList, c.toNat < 128 := by
    intro c hc
    rcases h c hc with rfl | rfl <;> decide
  rw [Utf8.encode_ascii ascii]
  refine List.forall_mem_map.mpr fun c hc => ?_
  rcases h c hc with rfl | rfl <;> decide

theorem itemsText_separated (hg : Blank (Utf8.encode gap)) (ht : Blank (Utf8.encode tail)) :
    ∀ {items : List Json} {lines : List String}, items ≠ [] →
    List.Forall₂ (fun j line => ValueText j (Utf8.encode line)) items lines →
    ItemsText items (Utf8.encode (separated gap lines ++ tail))
  | [_], _, _, .cons hv .nil => by
    simpa [separated, Utf8.encode_append] using ItemsText.one hg hv ht
  | _ :: _ :: _, _, _, .cons hv (.cons hv' h) => by
    rw [encode_separated]
    exact .cons hg hv blank_nil (itemsText_separated hg ht (List.cons_ne_nil _ _) (.cons hv' h))

theorem MemberText.behind {name : String} {j : Json} {blank bytes : List UInt8} (hb : Blank blank)
    (h : MemberText name j bytes) : MemberText name j (blank ++ bytes) := by
  obtain ⟨hb₀, hs, hb₁, hb₂, hv⟩ := h
  rw [← List.append_assoc]
  exact .of (List.forall_mem_append.mpr ⟨hb, hb₀⟩) hs hb₁ hb₂ hv

theorem membersText_separated (hg : Blank (Utf8.encode gap)) (ht : Blank (Utf8.encode tail)) :
    ∀ {members : List (String × Json)} {lines : List String}, members ≠ [] →
    List.Forall₂ (fun m line => MemberText m.1 m.2 (Utf8.encode line)) members lines →
    MembersText members (Utf8.encode (separated gap lines ++ tail))
  | [_], _, _, .cons hm .nil => by
    simpa [separated, Utf8.encode_append] using MembersText.one (hm.behind hg) ht
  | _ :: _ :: _, _, _, .cons hm (.cons hm' h) => by
    rw [encode_separated, ← List.append_assoc]
    exact .cons (hm.behind hg) blank_nil
      (membersText_separated hg ht (List.cons_ne_nil _ _) (.cons hm' h))

-- Brackets around lines, and nothing else if there are none.
def bracketed (start stop gap tail : String) (lines : List String) : String :=
  if lines.isEmpty then start ++ stop else start ++ (separated gap lines ++ tail) ++ stop

theorem valueText_items (hg : Blank (Utf8.encode gap)) (ht : Blank (Utf8.encode tail))
    {items : List Json}
    (h : List.Forall₂ (fun j line => ValueText j (Utf8.encode line)) items lines) :
    ValueText (array items) (Utf8.encode (bracketed "[" "]" gap tail lines)) := by
  cases h
  case nil =>
    rw [bracketed, List.isEmpty_nil, if_pos rfl, Utf8.encode_append]
    exact .emptyArray blank_nil
  case cons hv h =>
    rw [bracketed, List.isEmpty_cons, if_neg Bool.false_ne_true, Utf8.encode_append,
      Utf8.encode_append, List.append_assoc]
    exact .array (itemsText_separated hg ht (List.cons_ne_nil _ _) (.cons hv h))

theorem valueText_members (hg : Blank (Utf8.encode gap)) (ht : Blank (Utf8.encode tail))
    {members : List (String × Json)}
    (h : List.Forall₂ (fun m line => MemberText m.1 m.2 (Utf8.encode line)) members lines) :
    ValueText (object members) (Utf8.encode (bracketed "\x7b" "\x7d" gap tail lines)) := by
  cases h
  case nil =>
    rw [bracketed, List.isEmpty_nil, if_pos rfl, Utf8.encode_append]
    exact .emptyObject blank_nil
  case cons hm h =>
    rw [bracketed, List.isEmpty_cons, if_neg Bool.false_ne_true, Utf8.encode_append,
      Utf8.encode_append, List.append_assoc]
    exact .object (membersText_separated hg ht (List.cons_ne_nil _ _) (.cons hm h))

theorem memberText_written (name : String) {colon line : String} {j : Json} {blank : List UInt8}
    (hc : Utf8.encode colon = ascii ':' :: blank) (hb : Blank blank)
    (hv : ValueText j (Utf8.encode line)) :
    MemberText name j (Utf8.encode (writeString name ++ colon ++ line)) := by
  have text := MemberText.of blank_nil (stringText_writeString name) blank_nil hb hv
  simpa [Utf8.encode_append, hc] using text

end Lines

theorem valueText_bool (b : Bool) : ValueText (bool b) (Utf8.encode (writeBool b)) := by
  cases b
  case false => exact .false
  case true  => exact .true

theorem valueText_number {literal : String} (h : Numeral.IsNumber literal.toList) :
    ValueText (number literal) (Utf8.encode literal) :=
  Utf8.encode_ascii h.lt ▸ .number h

section Compact

theorem intercalate_eq (start stop : String) (lines : List String) :
    start ++ ",".intercalate lines ++ stop = bracketed start stop "" "" lines := by
  cases lines
  case nil => simp [bracketed]
  case cons line lines =>
    have eq := separated_append "" "" (List.cons_ne_nil line lines)
    simp only [String.append_empty, String.empty_append, List.map_id'] at eq
    simp [bracketed, ← eq]

theorem blank_none : Blank (Utf8.encode "") :=
  blank_encode (by simp)

mutual

theorem valueText_compact : ∀ j : Json, j.Proper → ValueText j (Utf8.encode j.compact)
  | null, _           => .null
  | bool b, _         => valueText_bool b
  | number literal, h => valueText_number (proper_number_iff.mp h)
  | string s, _       => .string (stringText_writeString s)
  | array items, h    => by
    rw [compact, intercalate_eq]
    exact valueText_items blank_none blank_none (itemTexts_compact items (proper_array_iff.mp h))
  | object members, h => by
    rw [compact, intercalate_eq]
    exact valueText_members blank_none blank_none
      (memberTexts_compact members (proper_object_iff.mp h))

theorem itemTexts_compact : ∀ items : List Json, (∀ j ∈ items, j.Proper) →
    List.Forall₂ (fun j line => ValueText j (Utf8.encode line)) items (compactItems items)
  | [], _            => .nil
  | item :: items, h =>
    have ⟨hi, h⟩ := List.forall_mem_cons.mp h
    .cons (valueText_compact item hi) (itemTexts_compact items h)

theorem memberTexts_compact : ∀ members : List (String × Json), (∀ m ∈ members, m.2.Proper) →
    List.Forall₂ (fun m line => MemberText m.1 m.2 (Utf8.encode line)) members
      (compactMembers members)
  | [], _                      => .nil
  | (name, value) :: members, h =>
    have ⟨hv, h⟩ := List.forall_mem_cons.mp h
    .cons (memberText_written name rfl blank_nil (valueText_compact value hv))
      (memberTexts_compact members h)

end

end Compact

section Pretty

theorem blank_lineBreak (level : Nat) : Blank (Utf8.encode ("\n" ++ indentation level)) := by
  refine blank_encode fun c hc => ?_
  simp only [indentation, String.toList_append, String.toList_ofList] at hc
  rcases List.mem_append.mp hc with hc | hc
  case inl => exact .inr (List.mem_singleton.mp hc)
  case inr => exact .inl (List.eq_of_mem_replicate hc)

theorem writeBlock_eq (level : Nat) (start stop : String) (lines : List String) :
    writeBlock level start stop lines = bracketed start stop ("\n" ++ indentation (level + 1))
      ("\n" ++ indentation level) lines := by
  cases lines
  case nil => rfl
  case cons line lines =>
    have eq := separated_append "\n" (indentation (level + 1)) (List.cons_ne_nil line lines)
    simp only [writeBlock, bracketed, ← eq, String.append_assoc]
    rfl

mutual

theorem valueText_pretty (level : Nat) : ∀ j : Json, j.Proper →
    ValueText j (Utf8.encode (j.prettyAt level))
  | null, _           => prettyAt.eq_1 level ▸ .null
  | bool b, _         => valueText_bool b
  | number literal, h => valueText_number (proper_number_iff.mp h)
  | string s, _       => .string (stringText_writeString s)
  | array items, h    => by
    rw [prettyAt, writeBlock_eq]
    exact valueText_items (blank_lineBreak _) (blank_lineBreak _)
      (itemTexts_pretty level items (proper_array_iff.mp h))
  | object members, h => by
    rw [prettyAt, writeBlock_eq]
    exact valueText_members (blank_lineBreak _) (blank_lineBreak _)
      (memberTexts_pretty level members (proper_object_iff.mp h))

theorem itemTexts_pretty (level : Nat) : ∀ items : List Json, (∀ j ∈ items, j.Proper) →
    List.Forall₂ (fun j line => ValueText j (Utf8.encode line)) items (prettyItems level items)
  | [], _            => .nil
  | item :: items, h =>
    have ⟨hi, h⟩ := List.forall_mem_cons.mp h
    .cons (valueText_pretty (level + 1) item hi) (itemTexts_pretty level items h)

theorem memberTexts_pretty (level : Nat) : ∀ members : List (String × Json),
    (∀ m ∈ members, m.2.Proper) →
    List.Forall₂ (fun m line => MemberText m.1 m.2 (Utf8.encode line)) members
      (prettyMembers level members)
  | [], _                      => .nil
  | (name, value) :: members, h =>
    have ⟨hv, h⟩ := List.forall_mem_cons.mp h
    have blank : Blank [ascii ' '] := List.forall_mem_singleton.mpr rfl
    .cons (memberText_written name rfl blank (valueText_pretty (level + 1) value hv))
      (memberTexts_pretty level members h)

end

end Pretty

theorem ValueText.isText {j : Json} {bytes : List UInt8} (h : ValueText j bytes) :
    IsText j bytes :=
  ⟨[], bytes, [], blank_nil, h, blank_nil, by simp⟩

theorem Proper.isText_compact {j : Json} (h : j.Proper) : IsText j (Utf8.encode j.compact) :=
  (valueText_compact j h).isText

theorem Proper.isText_pretty {j : Json} (h : j.Proper) : IsText j (Utf8.encode j.pretty) :=
  (valueText_pretty 0 j h).isText

end Json
end RecordDecoding
