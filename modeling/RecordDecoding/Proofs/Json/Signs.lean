import RecordDecoding.Proofs.Json.Strings

namespace RecordDecoding.Json

-- Backslashes are in strings only.
theorem ne_of_isBlank {b : UInt8} (h : Ascii.isBlank b) : b ≠ ascii '\\' := by
  rcases Scan.eq_of_isBlank h with rfl | rfl | rfl | rfl <;> decide

theorem Blank.ne {bytes : List UInt8} (h : Blank bytes) : ∀ b ∈ bytes, b ≠ ascii '\\' :=
  fun b hb => ne_of_isBlank (h b hb)

theorem ne_of_number {cs : List Char} (h : Numeral.IsNumber cs) :
    ∀ b ∈ plain cs, b ≠ ascii '\\' := by
  intro b hb
  have ⟨c, hc, hb⟩ := List.mem_map.mp hb
  have lt : c.toNat < 256 := Nat.lt_trans (h.lt c hc) (by decide)
  rw [← hb, Ne, ascii_inj lt (by decide)]
  rintro rfl
  exact absurd (h.mem _ hc) (by decide)

theorem Unsigned.blank {bytes : List UInt8} (h : Blank bytes) : Unsigned bytes :=
  .of_ne h.ne

theorem Unsigned.number {cs : List Char} (h : Numeral.IsNumber cs) : Unsigned (plain cs) :=
  .of_ne (ne_of_number h)

theorem Unsigned.chars {cs : List Char} {bytes : List UInt8} (h : CharsText cs bytes) :
    Unsigned bytes := by
  induction h
  case nil => exact fun _ => rfl
  case cons hc _ ih =>
    refine .append ?_ ih
    cases hc
    case raw h    => exact .raw h
    case escape h => exact .escape h

theorem Unsigned.string {s : String} {bytes : List UInt8} (h : StringText s bytes) :
    Unsigned bytes := by
  cases h
  case quoted h => exact .cons (by decide) (.append (.chars h) (.of_all rfl))

mutual

theorem Unsigned.value : ∀ {j : Json} {bytes : List UInt8}, ValueText j bytes → Unsigned bytes
  | _, _, .null          => .of_all rfl
  | _, _, .true          => .of_all rfl
  | _, _, .false         => .of_all rfl
  | _, _, .number h      => .number h
  | _, _, .string h      => .string h
  | _, _, .emptyArray h  => .cons (by decide) <| .append (.blank h) (.of_all rfl)
  | _, _, .array h       => .cons (by decide) <| .append (Unsigned.items h) (.of_all rfl)
  | _, _, .emptyObject h => .cons (by decide) <| .append (.blank h) (.of_all rfl)
  | _, _, .object h      => .cons (by decide) <| .append (Unsigned.members h) (.of_all rfl)

theorem Unsigned.items : ∀ {items : List Json} {bytes : List UInt8},
    ItemsText items bytes → Unsigned bytes
  | _, _, .one hb hv hb'    => .append (.blank hb) <| .append (Unsigned.value hv) (.blank hb')
  | _, _, .cons hb hv hb' h =>
    .append (.blank hb) <| .append (Unsigned.value hv) <| .append (.blank hb') <|
      .cons (by decide) (Unsigned.items h)

theorem Unsigned.members : ∀ {members : List (String × Json)} {bytes : List UInt8},
    MembersText members bytes → Unsigned bytes
  | _, _, .one hm hb    => .append (Unsigned.member hm) (.blank hb)
  | _, _, .cons hm hb h =>
    .append (Unsigned.member hm) <| .append (.blank hb) <| .cons (by decide) (Unsigned.members h)

theorem Unsigned.member : ∀ {name : String} {j : Json} {bytes : List UInt8},
    MemberText name j bytes → Unsigned bytes
  | _, _, _, .of hb hs hb' hb'' hv =>
    .append (.blank hb) <| .append (.string hs) <| .append (.blank hb') <| .cons (by decide) <|
      .append (.blank hb'') (Unsigned.value hv)

end

theorem hasSignedUnit_text {j : Json} {bytes : List UInt8} (h : IsText j bytes) :
    hasSignedUnit bytes = false := by
  obtain ⟨before, text, after, hb, hv, hb', rfl⟩ := h
  have unsigned := (Unsigned.blank hb).append (.append (.value hv) (.blank hb'))
  rw [← List.append_nil (before ++ (text ++ after))]
  exact unsigned []

end RecordDecoding.Json
