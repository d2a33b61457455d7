import RecordDecoding.Payload

namespace RecordDecoding

-- All that comes out, if nothing fails.
def Decompression.content? : Decompression → Option (List UInt8)
  | finished           => some []
  | failed             => none
  | portion bytes rest => rest.content?.map (bytes ++ ·)

-- Reading on succeeds if all comes out and is not too large together with what was there before.
theorem Decompression.collect_eq_ok_iff {limit : Nat} {out bytes : List UInt8}
    (h : out.length ≤ limit) (d : Decompression) : d.collect limit out = .ok bytes ↔
      d.content?.map (out ++ ·) = some bytes ∧ bytes.length ≤ limit := by
  induction d generalizing out
  case finished =>
    simp only [collect, content?, Option.map_some, List.append_nil, Except.ok.injEq,
      Option.some.injEq]
    exact ⟨fun eq => ⟨eq, eq ▸ h⟩, And.left⟩
  case failed => simp [collect, content?]
  case portion portion rest ih =>
    rw [collect, content?, Option.map_map]
    split
    case isTrue large =>
      refine iff_of_false nofun fun ⟨eq, le⟩ => ?_
      obtain ⟨content, _, rfl⟩ := Option.map_eq_some_iff.mp eq
      simp only [Function.comp_apply, List.length_append] at le
      omega
    case isFalse small =>
      rw [ih (by rw [List.length_append]; omega)]
      simp [Function.comp_def]

-- Compressed bytes are a payload if all of them are decompressed without getting too large. Others
-- are one as they are.
theorem Payload.ofRaw_eq_ok_iff (decompress : List UInt8 → Decompression) (raw : List UInt8)
    (p : Payload) : ofRaw decompress raw = .ok p ↔
      if magic.isPrefixOf raw then p.compression = .zstd ∧
        (decompress raw).content? = some p.bytes ∧ p.bytes.length ≤ maxBytes
      else p = ⟨.none, raw⟩ := by
  rw [ofRaw]
  split
  case isFalse => exact ⟨fun h => by cases h; rfl, fun h => congrArg Except.ok h.symm⟩
  case isTrue =>
    have collected : (decompress raw).collect maxBytes [] = .ok p.bytes ↔
        (decompress raw).content? = some p.bytes ∧ p.bytes.length ≤ maxBytes := by
      have none : ([] : List UInt8).length ≤ maxBytes := Nat.zero_le _
      simpa using (decompress raw).collect_eq_ok_iff none
    rw [← collected]
    cases (decompress raw).collect maxBytes []
    case error => exact iff_of_false nofun fun h => nomatch h.2
    case ok bytes =>
      obtain ⟨compression, bytes'⟩ := p
      show Except.ok (⟨.zstd, bytes⟩ : Payload) = .ok _ ↔ _
      simp only [Except.ok.injEq, mk.injEq]
      exact and_congr_left fun _ => eq_comm

end RecordDecoding
