import RecordDecoding.Text.Bytes

namespace RecordDecoding

theorem toNat_charOfNat {n : Nat} (h : n.isValidChar) : (Char.ofNat n).toNat = n := by
  rw [Char.ofNat, dif_pos h]
  rfl

theorem toNat_ascii {c : Char} (h : c.toNat < 256) : (ascii c).toNat = c.toNat := by
  rw [ascii, UInt8.toNat_ofNat', Nat.mod_eq_of_lt h]

theorem ascii_inj {c d : Char} (hc : c.toNat < 256) (hd : d.toNat < 256) :
    ascii c = ascii d ↔ c = d := by
  rw [← UInt8.toNat_inj, toNat_ascii hc, toNat_ascii hd, Char.toNat_inj]

namespace Ascii

-- The character of a byte.
def char (b : UInt8) : Char :=
  Char.ofNat b.toNat

theorem toNat_char (b : UInt8) : (char b).toNat = b.toNat := by
  have h : b.toNat < 256 := b.toNat_lt
  exact toNat_charOfNat (.inl (by omega))

theorem ascii_char (b : UInt8) : ascii (char b) = b := by
  rw [ascii, toNat_char, UInt8.ofNat_toNat]

theorem char_ascii {c : Char} (h : c.toNat < 256) : char (ascii c) = c := by
  rw [char, toNat_ascii h, Char.ofNat_toNat]

theorem map_ascii_map_char (bytes : List UInt8) : (bytes.map char).map ascii = bytes := by
  rw [List.map_map]
  exact List.map_id'' ascii_char bytes

theorem text_map_ascii {cs : List Char} (h : ∀ c ∈ cs, c.toNat < 256) :
    text (cs.map ascii) = String.ofList cs := by
  have id : cs.map (char ∘ ascii) = cs.map id :=
    List.map_congr_left fun c hc => char_ascii (h c hc)
  rw [text, List.map_map]
  exact congrArg _ (id.trans (List.map_id cs))

theorem isDigit_char (b : UInt8) : (char b).isDigit = isDigit b := by
  rw [Bool.eq_iff_iff, Char.isDigit_iff_toNat, toNat_char]
  simp only [isDigit, Bool.and_eq_true, decide_eq_true_eq, UInt8.le_iff_toNat_le]
  rfl

end Ascii

namespace Utf8

theorem encodeChar_ascii {c : Char} (h : c.toNat < 128) : String.utf8EncodeChar c = [ascii c] := by
  have h : c.val.toNat ≤ 0x7f := Nat.le_of_lt_succ h
  rw [String.utf8EncodeChar, if_pos h]
  rfl

theorem le_of_mem_encodeChar {c : Char} {b : UInt8} (h : 128 ≤ c.toNat)
    (hb : b ∈ String.utf8EncodeChar c) : 128 ≤ b.toNat := by
  have h : ¬c.val.toNat ≤ 0x7f := Nat.not_le_of_lt h
  have small {n : Nat} (h : 128 ≤ n) (hn : n < 256) : 128 ≤ (UInt8.ofNat n).toNat := by
    rw [UInt8.toNat_ofNat', Nat.mod_eq_of_lt hn]
    exact h
  simp only [String.utf8EncodeChar, if_neg h] at hb
  split at hb
  · simp only [List.mem_cons, List.not_mem_nil, or_false] at hb
    rcases hb with rfl | rfl <;> exact small (by omega) (by omega)
  · split at hb
    · simp only [List.mem_cons, List.not_mem_nil, or_false] at hb
      rcases hb with rfl | rfl | rfl <;> exact small (by omega) (by omega)
    · simp only [List.mem_cons, List.not_mem_nil, or_false] at hb
      rcases hb with rfl | rfl | rfl | rfl <;> exact small (by omega) (by omega)

variable {cs : List Char} {bytes : List UInt8} {s : String}

theorem flatMap_ascii (h : ∀ c ∈ cs, c.toNat < 128) :
    cs.flatMap String.utf8EncodeChar = cs.map ascii := by
  induction cs
  case nil => rfl
  case cons c cs ih =>
    have ⟨hc, h⟩ := List.forall_mem_cons.mp h
    rw [List.flatMap_cons, encodeChar_ascii hc, ih h, List.map_cons, List.singleton_append]

theorem utf8ByteSize_ascii (h : ∀ c ∈ cs, c.toNat < 128) :
    (String.ofList cs).utf8ByteSize = cs.length := by
  have bytes : cs.utf8Encode.size = (cs.flatMap String.utf8EncodeChar).length := by
    rw [List.utf8Encode, List.size_toByteArray]
  rw [← String.size_toByteArray, String.toByteArray_ofList, bytes, flatMap_ascii h, List.length_map]

theorem decode?_flatMap (cs : List Char) :
    decode? (cs.flatMap String.utf8EncodeChar) = some (String.ofList cs) := by
  have he : (⟨(cs.flatMap String.utf8EncodeChar).toArray⟩ : ByteArray) = cs.utf8Encode :=
    ByteArray.ext (List.data_toByteArray ..).symm
  have valid : ByteArray.IsValidUTF8 cs.utf8Encode := .intro cs rfl
  rw [decode?, he, String.fromUTF8?, dif_pos valid]
  rfl

theorem eq_of_decode? (h : decode? bytes = some s) :
    bytes = s.toList.flatMap String.utf8EncodeChar := by
  rw [decode?, String.fromUTF8?] at h
  split at h
  case isTrue valid =>
    obtain ⟨cs, hc⟩ := valid
    have hs : s = String.ofList cs := by
      cases h
      rw [← String.toByteArray_inj]
      exact hc
    have hb : bytes = cs.flatMap String.utf8EncodeChar := by
      have := congrArg (·.data.toList) hc
      simpa [List.utf8Encode] using this
    rw [hs, String.toList_ofList, hb]
  case isFalse => cases h

end Utf8
end RecordDecoding
