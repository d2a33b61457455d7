import RecordDecoding.External.Uuid
import RecordDecoding.Proofs.Text.Bytes

namespace RecordDecoding

namespace Uuid

-- The digits of an identifier.
def digits (id : Uuid) : List Char :=
  Hex.fixed 32 id.bits.toNat

variable (id : Uuid)

theorem length_digits : id.digits.length = 32 :=
  Hex.length_fixed ..

theorem ofDigits?_digits : ofDigits? id.digits = some id := by
  have read : Hex.read? id.digits = some id.bits.toNat := by
    rw [digits, Hex.read?_fixed, Nat.mod_eq_of_lt (show _ < Nat.pow 16 32 from id.bits.isLt)]
  rw [ofDigits?, if_pos id.length_digits, read, Option.map_some, BitVec.ofNat_toNat,
    BitVec.setWidth_eq]

-- A text of five groups, and the digits in it.
inductive Grouped : List Char → List Char → Prop
  | groups {a b c d e : List Char} : a.length = 8 → b.length = 4 → c.length = 4 → d.length = 4 →
    e.length = 12 →
    Grouped (a ++ hyphen :: (b ++ hyphen :: (c ++ hyphen :: (d ++ hyphen :: e))))
      (a ++ (b ++ (c ++ (d ++ e))))

theorem toList_text : Grouped id.text.toList id.digits := by
  have rest (n m : Nat) :
      (id.digits.drop n).take m ++ id.digits.drop (n + m) = id.digits.drop n := by
    rw [← List.drop_drop, List.take_append_drop]
  have text : id.text.toList = id.digits.take 8 ++ hyphen :: ((id.digits.drop 8).take 4 ++ hyphen ::
      ((id.digits.drop 12).take 4 ++ hyphen :: ((id.digits.drop 16).take 4 ++ hyphen ::
        id.digits.drop 20))) := by
    simp [Uuid.text, List.intercalate, digits]
  have whole : id.digits = id.digits.take 8 ++ ((id.digits.drop 8).take 4 ++
      ((id.digits.drop 12).take 4 ++ ((id.digits.drop 16).take 4 ++ id.digits.drop 20))) := by
    rw [rest 16 4, rest 12 4, rest 8 4, List.take_append_drop]
  rw [text]
  conv => arg 2; rw [whole]
  constructor <;> simp [length_digits]

namespace Grouped

variable {cs digits : List Char} (h : Grouped cs digits)
include h

theorem length : cs.length = 36 := by
  cases h
  case groups ha hb hc hd he => simp [ha, hb, hc, hd, he]

theorem hyphens : hyphenPlaces.all (cs[·]? == some hyphen) := by
  cases h
  case groups ha hb hc hd he => simp [hyphenPlaces, List.getElem?_append, ha, hb, hc, hd]

theorem filter (other : ∀ c ∈ digits, c ≠ hyphen) : cs.filter (· != hyphen) = digits := by
  cases h
  case groups =>
    have kept : ∀ {ds : List Char}, (∀ c ∈ ds, c ≠ hyphen) → ds.filter (· != hyphen) = ds :=
      fun h => List.filter_eq_self.mpr (by simpa using h)
    simp only [List.forall_mem_append] at other
    obtain ⟨ha, hb, hc, hd, he⟩ := other
    simp [kept ha, kept hb, kept hc, kept hd, kept he]

theorem mem {c : Char} (hc : c ∈ cs) : c = hyphen ∨ c ∈ digits := by
  cases h
  case groups => grind

end Grouped

theorem ofGroups?_text : ofGroups? id.text.toList = some id := by
  have grouped := id.toList_text
  rw [ofGroups?, if_pos ⟨grouped.length, grouped.hyphens⟩,
    grouped.filter fun c hc => (Hex.mem_fixed hc).1, id.ofDigits?_digits]

theorem byteSize_text : byteSize id.text.toList = 36 := by
  have ascii : ∀ c ∈ id.text.toList, c.toNat < 128 := by
    intro c hc
    rcases id.toList_text.mem hc with rfl | hc
    case inl => decide
    case inr => exact (Hex.mem_fixed hc).2
  rw [byteSize, Utf8.utf8ByteSize_ascii ascii, id.toList_text.length]

theorem parse_text : parse id.text = .ok id := by
  have plain : wrapped? id.text.toList = none := by simp [wrapped?, id.byteSize_text]
  have digits : ofDigits? id.text.toList = none := by simp [ofDigits?, id.toList_text.length]
  simp only [parse, plain, digits, Option.none_or, id.ofGroups?_text, Option.elim_some]

end Uuid

theorem UuidFormat.hyphenated_inverts (id : Uuid) :
    hyphenated.parse (hyphenated.text id) = .ok id := by
  show (Uuid.parse id.text).mapError (·.message) = .ok id
  rw [id.parse_text]
  rfl

end RecordDecoding
