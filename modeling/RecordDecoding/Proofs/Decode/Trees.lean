import RecordDecoding.External.Uuid
import RecordDecoding.Proofs.Decode.Feeding

namespace RecordDecoding

open Decoding Forward

theorem IntegerText.read?_text (n : IntegerText) : Binary.read? n.text = some n.double :=
  (Option.some_get _).symm

section

variable [UuidFormat]

namespace Leaf

variable {r : Replay} {index : Nat} {tokens : List Token}

theorem read_not_accepted {l : Leaf} {k : ScalarKind} (h : l.token.kind ∉ k.accepts) :
    l.read index k = .error (.mismatch k.accepts l.token.kind) := by
  cases k <;> cases l <;> try rfl
  all_goals
    refine absurd ?_ h
    simp only [ScalarKind.accepts, KindSet.mem_onlyString, KindSet.mem_onlyBool,
      KindSet.mem_onlyInteger, KindSet.mem_anyNumber]
  case bool.bool b => cases b <;> simp [Leaf.token, Token.kind]
  all_goals first | exact rfl | exact .inl rfl | exact .inr rfl

theorem read_accepted {l : Leaf} {k : ScalarKind} (h : l.token.kind ∈ k.accepts)
    (hr : r.On index (l.token :: tokens)) : k.readAccepted r = l.read index k := by
  obtain ⟨current, ahead, _, _, _⟩ := r
  obtain ⟨ht, rfl, rfl⟩ := hr
  cases ht
  rcases l with _ | (_ | _) | text | n | n | x
  all_goals cases k <;> try rfl
  all_goals try simp [ScalarKind.accepts, Leaf.token, Token.kind] at h
  case refl.string.binary =>
    simp only [ScalarKind.readAccepted, ScalarKind.access, Cursor.binary, Replay.binary,
      Replay.text, Leaf.read, bind, Except.bind]
    cases Base64.decode? text <;> rfl
  case refl.bigInt.int width =>
    simp only [ScalarKind.readAccepted, ScalarKind.access, Cursor.int, Replay.int, Leaf.read]
    cases readInt64? n.text <;> rfl
  all_goals
    simp only [ScalarKind.readAccepted, ScalarKind.access, Cursor.float, Replay.float, Leaf.token,
      Leaf.read, n.read?_text]
    rfl

theorem read_eq (l : Leaf) (k : ScalarKind) (hr : r.On index (l.token :: tokens)) :
    k.read r = l.read index k := by
  rw [ScalarKind.read, hr.kind]
  split
  case isTrue h  => exact read_accepted h hr
  case isFalse h => exact (read_not_accepted h).symm

end Leaf

-- A replay shows its tokens, and is read as they are.
def Feed.replay : Feed Replay where
  On r index tokens := r.On index tokens
  read := TokenTree.replayed
  error := Eq
  kind_eq h := h.kind
  fieldName h := by simp only [Cursor.fieldName, Replay.fieldName, h.current]
  advance h := h.advance
  scalar {s index l _} schema field k h := by
    simp only [Level.scalar, run_bind, run_look, l.read_eq k h, TokenTree.replayed]
    cases l.read index k
    case ok          => exact .ok rfl
    case error fault => cases fault <;> exact .error rfl
  error_refl _ := rfl
  error_at _ _ := rfl

-- The root, which is an object.
theorem TokenTree.record_gives {set : SchemaSet} {opt : DecodeOptions} {id : SchemaId}
    {schema : Schema} {members : List (MemberName × TokenTree)} {rest : List Token}
    {s : Session Replay} (wf : set.WellFormed) (slow : opt.fastPath = false)
    (found : set.get? id = some schema) (hs : s.cursor.On 0 ((object members).tokens ++ rest)) :
    ((decodeRecord set id opt).run s).Gives Eq
      (Feed.replay.Past (object members).size rest
        (s.tally + (object members).tally set schema .recursive 0))
      (some <$> record set opt.rules schema members) := by
  have gives : ((decodeRecord set id opt).run s).Gives Feed.replay.error .. :=
    root_gives wf slow found hs
  rw [objectVerdict, show Feed.replay.read = replayed from rfl, memberVerdicts_replayed] at gives
  exact gives

-- The tokens of an object decode to what the object means, whichever way members are matched.
theorem decodeRecord_tokens {types : List TypeDecl} {set : SchemaSet}
    (built : SchemaSet.build types = .ok set) {id : SchemaId} {schema : Schema}
    (found : set.get? id = some schema) (opt : DecodeOptions)
    (members : List (MemberName × TokenTree)) :
    ∃ replay, Replay.ofTokens (TokenTree.object members).tokens none = .ok replay ∧
      ((decodeRecord set id opt).run { cursor := replay }).result =
        some <$> TokenTree.record set opt.rules schema members := by
  have wf := SchemaSet.wellFormed_of_build built
  simp only [TokenTree.tokens, Replay.ofTokens]
  refine ⟨_, rfl, ?_⟩
  generalize hr : Replay.mk _ _ _ _ _ = replay
  have on : replay.On 0 ((TokenTree.object members).tokens ++ []) := by
    subst hr
    exact ⟨by simp [TokenTree.tokens], rfl, rfl⟩
  have slow :
      ((decodeRecord set id { opt with fastPath := false }).run { cursor := replay }).result =
        some <$> TokenTree.record set opt.rules schema members :=
    (TokenTree.record_gives (s := { cursor := replay }) wf rfl found on).result_eq
  cases hf : opt.fastPath
  case false =>
    have ho : opt = { opt with fastPath := false } := by rw [← hf]
    rw [ho]
    exact slow
  case true =>
    have ho : opt = { opt with fastPath := true } := by rw [← hf]
    have same := wf.fastPath_steps id opt (s := { cursor := replay }) (t := { cursor := replay })
      ⟨rfl, ⟨rfl, rfl, rfl⟩, rfl⟩
    rw [ho]
    exact same.result_eq.trans slow

end

-- A point that is given twice has the last coordinate, and no next point.
theorem decodeRecord_tokens_point :
    let _ : UuidFormat := .hyphenated
    let types : List TypeDecl := [⟨"Point", [
      { name := "x", type := .scalar (.int .w32) },
      { name := "next", type := .named "Point", nullable := true }]⟩]
    let schema : Schema := ⟨⟨0⟩, "Point", [
      ⟨"x", 0, .scalar (.int .w32), false, false⟩, ⟨"next", 1, .recursive, true, false⟩]⟩
    let members := [(MemberName.fresh "x", TokenTree.leaf (.int 1)), (.fresh "y", .array []),
      (⟨"x", some ⟨0, 0⟩⟩, .leaf (.int 2))]
    SchemaSet.build types = .ok ⟨[schema]⟩ ∧
      ∃ replay, Replay.ofTokens (TokenTree.object members).tokens none = .ok replay ∧
        ((decodeRecord ⟨[schema]⟩ ⟨0⟩ .default).run { cursor := replay }).result =
          .ok (some ⟨"Point", [⟨"x", .value (.int .w32 2)⟩, ⟨"next", .value .null⟩]⟩) := by
  intro _ types schema members
  have built : SchemaSet.build types = .ok ⟨[schema]⟩ := by rfl
  have found : SchemaSet.get? ⟨[schema]⟩ ⟨0⟩ = some schema := rfl
  have ⟨replay, hr, h⟩ := decodeRecord_tokens built found .default members
  exact ⟨built, replay, hr, h⟩

end RecordDecoding
