import RecordDecoding.External.Uuid
import RecordDecoding.Proofs.Decode.Passing

namespace RecordDecoding

open Forward

namespace TextCursor

-- Decoding walks through a container whatever it fails with otherwise.
def passing [UuidFormat] (start : TextCursor) (container : Container) (base : List Container) :
    Passage :=
  (throughContainer start container base).passage

variable {c c' : TextCursor} {base : List Container} {set : SchemaSet} {id : SchemaId}
  {opt : DecodeOptions} {s s' : Session TextCursor} {r : Option Record}

-- What is left of an object that was decoded is what skipping it leaves.
theorem skipValue_of_decodeRecord_ok [UuidFormat] (wf : set.WellFormed)
    (begins : s.cursor.place.Begins base) (hk : s.cursor.kind = .objectStart)
    (h : (decodeRecord set id opt).run s = .ok r s') :
    Cursor.skipValue.run s.cursor = .ok () s'.cursor := by
  have hk : s.cursor.kind = Container.first .object := hk
  have start : OnTrail s.cursor .object base s.cursor := .first begins hk
  cases found : set.get? id
  case none =>
    simp only [decodeRecord, found] at h
    cases h
  case some schema =>
    have before : (passing s.cursor .object base).Before [] s.cursor := ⟨start, begins⟩
    have sat := (passing s.cursor .object base).decodeRecord_takes wf found opt [] before
    rw [h] at sat
    cases sat
    case ok behind => exact skipValue_of_trail begins hk behind.on.trail behind.ends.stack

-- A container that is skipped ends where the cursor stops, and an object that is decoded is skipped
-- likewise.
theorem takes_one_value [UuidFormat] {source : List UInt8} {p : TextCursor}
    (reached : Reached source p) (step : advance.run p = .ok () c) :
    (∀ container : Container, c.kind = container.first →
      ∀ c', Cursor.skipValue.run c = .ok () c' →
        Trail (container :: p.stack) c c' ∧ c'.stack = p.stack ∧ c'.kind = container.last) ∧
    (c.kind = .objectStart → ∀ types set, SchemaSet.build types = .ok set →
      ∀ id opt (s s' : Session TextCursor) r, s.cursor = c →
        (decodeRecord set id opt).run s = .ok r s' →
          Cursor.skipValue.run c = .ok () s'.cursor) := by
  have moves := moves_of_advance reached.suits step
  constructor
  case left =>
    intro container hk c' h
    have opens : c.place.kind.opensContainer := by
      rw [show c.place.kind = _ from hk]
      cases container <;> rfl
    exact ends_of_skipValue_ok (moves.begins_of_opens opens) hk h
  case right =>
    rintro hk types set built id opt s s' r rfl h
    have wf := SchemaSet.wellFormed_of_build built
    have begins := moves.begins_of_opens (congrArg TokenKind.opensContainer hk)
    exact skipValue_of_decodeRecord_ok wf begins hk h

-- An object in an array, with an array in it. It is decoded, and skipping it leaves the same.
theorem takes_one_value_item :
    let _ : UuidFormat := .hyphenated
    let types : List TypeDecl := [⟨"Node", [{ name := "ids", type := .list (.scalar (.int .w8)) }]⟩]
    let set : SchemaSet := ⟨[⟨⟨0⟩, "Node", [⟨"ids", 0, .list (.scalar (.int .w8)), false, false⟩]⟩]⟩
    let source := Json.plain "[\x7b\"ids\":[1]\x7d]".toList
    let p : TextCursor := { initial source with
      reader := ⟨1, source.drop 1⟩, kind := .arrayStart, stack := [.array], expect := .valueOrEnd }
    let c : TextCursor := { p with
      reader := ⟨2, source.drop 2⟩, kind := .objectStart, start := 1, stack := [.object, .array],
      expect := .keyOrEnd }
    Reached source p ∧ advance.run p = .ok () c ∧ SchemaSet.build types = .ok set ∧
    ∃ r s', (decodeRecord set ⟨0⟩ .default).run { cursor := c } = .ok (some r) s' ∧
      Cursor.skipValue.run c = .ok () s'.cursor ∧
      Trail [.object, .array] c s'.cursor ∧ s'.cursor.stack = [.array] ∧
      s'.cursor.kind = .objectEnd := by
  intro _ types set source p c
  have reached : Reached source p := .single ⟨List.nil_suffix, rfl⟩
  have step : advance.run p = .ok () c := rfl
  have built : SchemaSet.build types = .ok set := by rfl
  let o := (decodeRecord set ⟨0⟩ .default).run { cursor := c }
  have decoded : ∃ r s', o = .ok (some r) s' := by
    have ok : (o.result.toOption.bind id).isSome := by decide +kernel
    generalize o = o at ok
    rcases o with ⟨_ | r, s'⟩ | _
    case ok.some => exact ⟨r, s', rfl⟩
    all_goals cases ok
  obtain ⟨r, s', decoded⟩ := decoded
  obtain ⟨skipped, likewise⟩ := takes_one_value reached step
  have skips := likewise rfl types set built ⟨0⟩ .default { cursor := c } s' _ rfl decoded
  exact ⟨reached, step, built, r, s', decoded, skips, skipped .object rfl _ skips⟩

end TextCursor
end RecordDecoding
