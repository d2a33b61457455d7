import Mathlib.Data.List.DropRight
import Mathlib.Data.List.TakeWhile
import RecordDecoding.Proofs.Base64.Groups

namespace RecordDecoding.Base64

theorem sextet?_symbol : ∀ n < 64, sextet? (symbol n) = some n := by
  decide

theorem symbol_ne_pad : ∀ n < 64, symbol n ≠ pad := by
  decide

theorem body_append {cs : List Char} (h : ∀ c ∈ cs, c ≠ pad) (padding : Nat) :
    body (cs ++ List.replicate padding pad) = cs := by
  have pads : ∀ c ∈ List.replicate padding pad, decide (c = pad) = true := by simp
  have kept : cs.reverse.dropWhile (· = pad) = cs.reverse := by
    refine List.dropWhile_eq_self_iff.mpr fun hl => ?_
    simpa using h _ (List.mem_reverse.mp (List.getElem_mem hl))
  rw [body, List.reverse_append, List.reverse_replicate, List.dropWhile_append_of_pos pads, kept,
    List.reverse_reverse]

-- The padding at the end of a text is what is not its groups.
theorem length_padding (cs : List Char) :
    (cs.rtakeWhile (· = pad)).length = cs.length - (body cs).length := by
  have length : (body cs ++ cs.rtakeWhile (· = pad)).length = cs.length :=
    congrArg List.length List.rdropWhile_append_rtakeWhile
  rw [List.length_append] at length
  omega

theorem body_append_padding (cs : List Char) :
    body cs ++ List.replicate (cs.length - (body cs).length) pad = cs := by
  have pads : cs.rtakeWhile (· = pad) = List.replicate (cs.length - (body cs).length) pad :=
    List.eq_replicate_iff.mpr
      ⟨length_padding cs, fun c hc => by simpa using List.mem_rtakeWhile_imp hc⟩
  rw [← pads]
  exact List.rdropWhile_append_rtakeWhile

-- What a text stands for, by its characters instead of its bytes.
theorem decode?_eq (s : String) : decode? s =
    let groups := body s.toList
    let padding := s.toList.length - groups.length
    if padding = 0 ∨ (padding ≤ 2 ∧ groups.length % 4 + padding = 4) then decodeGroups? groups
    else none := by
  by_cases foreign : ∃ c ∈ body s.toList, sextet? c = none
  case pos =>
    have refused := (decodeGroups?_eq_none_iff _).mpr (.inl foreign)
    obtain ⟨c, hc, none⟩ := foreign
    have ⟨b, hb, none⟩ := exists_foreign none
    simp only [decode?, Utf8.encode, String.toList_ofList, refused, ite_self,
      Accumulator.unpack?_eq_none ⟨b, List.mem_flatMap_of_mem hc hb, none⟩]
  case neg =>
    have small : ∀ c ∈ body s.toList, c.toNat < 128 := fun c hc =>
      have ⟨_, hs⟩ := Option.ne_none_iff_exists'.mp fun none => foreign ⟨c, hc, none⟩
      lt_of_sextet? hs
    have small' : ∀ c ∈ s.toList, c.toNat < 128 := by
      rw [← body_append_padding s.toList]
      refine List.forall_mem_append.mpr ⟨small, fun c hc => ?_⟩
      rw [List.eq_of_mem_replicate hc]
      decide
    have unpacked : (body s.toList).length % 4 ≠ 1 →
        Accumulator.empty.unpack? (Utf8.encode (String.ofList (body s.toList))) =
          decodeGroups? (body s.toList) := fun lone => by
      rw [Utf8.encode, String.toList_ofList]
      exact Accumulator.unpack?_eq_decodeGroups? Accumulator.holds_empty lone
    have length : (Utf8.encode s).length = s.toList.length := by
      rw [Utf8.encode, Utf8.flatMap_ascii small', List.length_map]
    have length' : (Utf8.encode (String.ofList (body s.toList))).length =
        (body s.toList).length := by
      rw [Utf8.encode, String.toList_ofList, Utf8.flatMap_ascii small, List.length_map]
    simp only [decode?, length, length']
    split
    case isTrue wrong =>
      split
      case isFalse => rfl
      case isTrue => exact ((decodeGroups?_eq_none_iff _).mpr (.inr (.inl (by omega)))).symm
    case isFalse right =>
      split
      case isTrue unfilled => rw [if_neg (by omega)]
      case isFalse filled =>
        rw [if_pos (by omega)]
        exact unpacked (by omega)

-- How some bytes are written: groups of characters which are read as these bytes, and the padding
-- that fills up the last group.
structure Written (bytes : List UInt8) (groups : List Char) (padding : Nat) : Prop where
  text     : encodeChars bytes = groups ++ List.replicate padding pad
  unpadded : ∀ c ∈ groups, c ≠ pad
  full     : padding = 0 ∨ padding ≤ 2 ∧ groups.length % 4 + padding = 4
  read     : decodeGroups? groups = some bytes

namespace Written

variable {bytes : List UInt8} {groups : List Char} {padding : Nat}

theorem decode?_encode (h : Written bytes groups padding) :
    decode? (encode bytes) = some bytes := by
  have size : (groups ++ List.replicate padding pad).length - groups.length = padding := by simp
  rw [decode?_eq, encode, h.text]
  simp only [String.toList_ofList, body_append h.unpadded, size]
  rw [if_pos h.full, h.read]

-- The symbol for six bits that are in range.
theorem symbols {ns : List Nat} (h : ∀ n ∈ ns, n < 64) : ∀ c ∈ ns.map symbol, c ≠ pad :=
  List.forall_mem_map.mpr fun n hn => symbol_ne_pad n (h n hn)

theorem nil : Written [] [] 0 where
  text     := rfl
  unpadded := nofun
  full     := .inl rfl
  read     := rfl

theorem one (a : UInt8) : Written [a] ([a.toNat / 4, a.toNat % 4 * 16].map symbol) 2 where
  text     := rfl
  unpadded := symbols (by have := a.toNat_lt; simp; omega)
  full     := .inr ⟨by decide, rfl⟩
  read     := by
    have lt := a.toNat_lt
    have ha : a.toNat / 4 * 4 + a.toNat % 4 * 16 / 16 = a.toNat := by omega
    have spare : a.toNat % 4 * 16 % 16 = 0 := by omega
    simp only [List.map_cons, List.map_nil, decodeGroups?,
      sextet?_symbol _ (by omega : a.toNat / 4 < 64),
      sextet?_symbol _ (by omega : a.toNat % 4 * 16 < 64), Option.bind_eq_bind, Option.bind_some,
      spare, ha, UInt8.ofNat_toNat]
    rfl

theorem two (a b : UInt8) : Written [a, b]
    ([a.toNat / 4, a.toNat % 4 * 16 + b.toNat / 16, b.toNat % 16 * 4].map symbol) 1 where
  text     := rfl
  unpadded := symbols (by have := a.toNat_lt; have := b.toNat_lt; simp; omega)
  full     := .inr ⟨by decide, rfl⟩
  read     := by
    have lt := a.toNat_lt
    have lt' := b.toNat_lt
    have ha : a.toNat / 4 * 4 + (a.toNat % 4 * 16 + b.toNat / 16) / 16 = a.toNat := by omega
    have hb : (a.toNat % 4 * 16 + b.toNat / 16) % 16 * 16 + b.toNat % 16 * 4 / 4 = b.toNat := by
      omega
    have spare : b.toNat % 16 * 4 % 4 = 0 := by omega
    simp only [List.map_cons, List.map_nil, decodeGroups?,
      sextet?_symbol _ (by omega : a.toNat / 4 < 64),
      sextet?_symbol _ (by omega : a.toNat % 4 * 16 + b.toNat / 16 < 64),
      sextet?_symbol _ (by omega : b.toNat % 16 * 4 < 64), Option.bind_eq_bind, Option.bind_some,
      spare, ha, hb, UInt8.ofNat_toNat]
    rfl

-- Three bytes in front of others are a group without padding.
theorem more (a b c : UInt8) (h : Written bytes groups padding) :
    Written (a :: b :: c :: bytes) ([a.toNat / 4, a.toNat % 4 * 16 + b.toNat / 16,
      b.toNat % 16 * 4 + c.toNat / 64, c.toNat % 64].map symbol ++ groups) padding where
  text     := by
    rw [encodeChars, h.text]
    rfl
  unpadded := by
    refine List.forall_mem_append.mpr ⟨symbols ?_, h.unpadded⟩
    have := a.toNat_lt
    have := b.toNat_lt
    have := c.toNat_lt
    simp
    omega
  full     := by
    refine h.full.imp_right (And.imp_right fun full => ?_)
    rw [List.length_append, List.length_map]
    exact (congrArg (· + padding) (Nat.add_mod_left 4 _)).trans full
  read     := by
    have lt := a.toNat_lt
    have lt' := b.toNat_lt
    have lt'' := c.toNat_lt
    have ha : a.toNat / 4 * 4 + (a.toNat % 4 * 16 + b.toNat / 16) / 16 = a.toNat := by omega
    have hb : (a.toNat % 4 * 16 + b.toNat / 16) % 16 * 16 + (b.toNat % 16 * 4 + c.toNat / 64) / 4 =
        b.toNat := by omega
    have hc : (b.toNat % 16 * 4 + c.toNat / 64) % 4 * 64 + c.toNat % 64 = c.toNat := by omega
    simp only [List.map_cons, List.map_nil, List.cons_append, List.nil_append, decodeGroups?,
      sextet?_symbol _ (by omega : a.toNat / 4 < 64),
      sextet?_symbol _ (by omega : a.toNat % 4 * 16 + b.toNat / 16 < 64),
      sextet?_symbol _ (by omega : b.toNat % 16 * 4 + c.toNat / 64 < 64),
      sextet?_symbol _ (by omega : c.toNat % 64 < 64), h.read, Option.bind_eq_bind,
      Option.bind_some, ha, hb, hc, UInt8.ofNat_toNat]
    rfl

end Written

theorem exists_written : ∀ bytes : List UInt8, ∃ groups padding, Written bytes groups padding
  | []                  => ⟨_, _, .nil⟩
  | [a]                 => ⟨_, _, .one a⟩
  | [a, b]              => ⟨_, _, .two a b⟩
  | a :: b :: c :: more =>
    have ⟨_, _, h⟩ := exists_written more
    ⟨_, _, h.more a b c⟩

theorem decode?_encode (bytes : List UInt8) : decode? (encode bytes) = some bytes :=
  have ⟨_, _, h⟩ := exists_written bytes
  h.decode?_encode

-- Six bits are read from their symbol alone.
theorem symbol_of_sextet? {c : Char} {n : Nat} (h : sextet? c = some n) :
    n < 64 ∧ symbol n = c := by
  have ascii : ∀ k < 128,
      (sextet? (Char.ofNat k)).all fun n => n < 64 ∧ symbol n = Char.ofNat k := by
    decide
  have at_c := ascii c.toNat (lt_of_sextet? h)
  rw [Char.ofNat_toNat, h] at at_c
  simpa using at_c

theorem length_encodeChars : ∀ bytes : List UInt8, (encodeChars bytes).length % 4 = 0
  | []     => rfl
  | [_]    => Nat.mod_self 4
  | [_, _] => Nat.mod_self 4
  | _ :: _ :: _ :: bytes => (Nat.add_mod_right _ 4).trans (length_encodeChars bytes)

namespace Written

variable {bytes : List UInt8} {groups : List Char} {padding : Nat}

theorem rdropWhile_eq (h : Written bytes groups padding) :
    (encodeChars bytes).rdropWhile (· = pad) = groups := by
  rw [h.text]
  exact body_append h.unpadded padding

-- The padding is what is missing of a group.
theorem length_eq (h : Written bytes groups padding) : (groups.length + padding) % 4 = 0 := by
  have length := length_encodeChars bytes
  rwa [h.text, List.length_append, List.length_replicate] at length

theorem of_two {c₀ c₁ : Char} {s₀ s₁ : Nat} (h₀ : sextet? c₀ = some s₀) (h₁ : sextet? c₁ = some s₁)
    (spare : s₁ % 16 = 0) : Written [UInt8.ofNat (s₀ * 4 + s₁ / 16)] [c₀, c₁] 2 := by
  have ⟨_, hc₀⟩ := symbol_of_sextet? h₀
  have ⟨_, hc₁⟩ := symbol_of_sextet? h₁
  have written := Written.one (UInt8.ofNat (s₀ * 4 + s₁ / 16))
  have byte : (UInt8.ofNat (s₀ * 4 + s₁ / 16)).toNat = s₀ * 4 + s₁ / 16 :=
    UInt8.toNat_ofNat_of_lt' (show s₀ * 4 + s₁ / 16 < 256 by omega)
  rw [byte, show (s₀ * 4 + s₁ / 16) / 4 = s₀ by omega,
    show (s₀ * 4 + s₁ / 16) % 4 * 16 = s₁ by omega] at written
  rwa [← hc₀, ← hc₁]

theorem of_three {c₀ c₁ c₂ : Char} {s₀ s₁ s₂ : Nat} (h₀ : sextet? c₀ = some s₀)
    (h₁ : sextet? c₁ = some s₁) (h₂ : sextet? c₂ = some s₂) (spare : s₂ % 4 = 0) :
    Written [UInt8.ofNat (s₀ * 4 + s₁ / 16), UInt8.ofNat (s₁ % 16 * 16 + s₂ / 4)]
      [c₀, c₁, c₂] 1 := by
  have ⟨_, hc₀⟩ := symbol_of_sextet? h₀
  have ⟨_, hc₁⟩ := symbol_of_sextet? h₁
  have ⟨_, hc₂⟩ := symbol_of_sextet? h₂
  have written := Written.two (UInt8.ofNat (s₀ * 4 + s₁ / 16)) (UInt8.ofNat (s₁ % 16 * 16 + s₂ / 4))
  have byte₀ : (UInt8.ofNat (s₀ * 4 + s₁ / 16)).toNat = s₀ * 4 + s₁ / 16 :=
    UInt8.toNat_ofNat_of_lt' (show s₀ * 4 + s₁ / 16 < 256 by omega)
  have byte₁ : (UInt8.ofNat (s₁ % 16 * 16 + s₂ / 4)).toNat = s₁ % 16 * 16 + s₂ / 4 :=
    UInt8.toNat_ofNat_of_lt' (show s₁ % 16 * 16 + s₂ / 4 < 256 by omega)
  rw [byte₀, byte₁, show (s₀ * 4 + s₁ / 16) / 4 = s₀ by omega,
    show (s₀ * 4 + s₁ / 16) % 4 * 16 + (s₁ % 16 * 16 + s₂ / 4) / 16 = s₁ by omega,
    show (s₁ % 16 * 16 + s₂ / 4) % 16 * 4 = s₂ by omega] at written
  rwa [← hc₀, ← hc₁, ← hc₂]

theorem of_four {c₀ c₁ c₂ c₃ : Char} {s₀ s₁ s₂ s₃ : Nat} (h₀ : sextet? c₀ = some s₀)
    (h₁ : sextet? c₁ = some s₁) (h₂ : sextet? c₂ = some s₂) (h₃ : sextet? c₃ = some s₃)
    (h : Written bytes groups padding) :
    Written (UInt8.ofNat (s₀ * 4 + s₁ / 16) :: UInt8.ofNat (s₁ % 16 * 16 + s₂ / 4) ::
      UInt8.ofNat (s₂ % 4 * 64 + s₃) :: bytes) (c₀ :: c₁ :: c₂ :: c₃ :: groups) padding := by
  have ⟨_, hc₀⟩ := symbol_of_sextet? h₀
  have ⟨_, hc₁⟩ := symbol_of_sextet? h₁
  have ⟨_, hc₂⟩ := symbol_of_sextet? h₂
  have ⟨_, hc₃⟩ := symbol_of_sextet? h₃
  have written := h.more (UInt8.ofNat (s₀ * 4 + s₁ / 16)) (UInt8.ofNat (s₁ % 16 * 16 + s₂ / 4))
    (UInt8.ofNat (s₂ % 4 * 64 + s₃))
  have byte₀ : (UInt8.ofNat (s₀ * 4 + s₁ / 16)).toNat = s₀ * 4 + s₁ / 16 :=
    UInt8.toNat_ofNat_of_lt' (show s₀ * 4 + s₁ / 16 < 256 by omega)
  have byte₁ : (UInt8.ofNat (s₁ % 16 * 16 + s₂ / 4)).toNat = s₁ % 16 * 16 + s₂ / 4 :=
    UInt8.toNat_ofNat_of_lt' (show s₁ % 16 * 16 + s₂ / 4 < 256 by omega)
  have byte₂ : (UInt8.ofNat (s₂ % 4 * 64 + s₃)).toNat = s₂ % 4 * 64 + s₃ :=
    UInt8.toNat_ofNat_of_lt' (show s₂ % 4 * 64 + s₃ < 256 by omega)
  rw [byte₀, byte₁, byte₂, show (s₀ * 4 + s₁ / 16) / 4 = s₀ by omega,
    show (s₀ * 4 + s₁ / 16) % 4 * 16 + (s₁ % 16 * 16 + s₂ / 4) / 16 = s₁ by omega,
    show (s₁ % 16 * 16 + s₂ / 4) % 16 * 4 + (s₂ % 4 * 64 + s₃) / 64 = s₂ by omega,
    show (s₂ % 4 * 64 + s₃) % 64 = s₃ by omega] at written
  rwa [← hc₀, ← hc₁, ← hc₂, ← hc₃]

end Written

-- Groups that are read are those that are written.
theorem written_of_decodeGroups? {groups : List Char} {bytes : List UInt8}
    (h : decodeGroups? groups = some bytes) : ∃ padding, Written bytes groups padding := by
  fun_induction decodeGroups? groups generalizing bytes
  case case1 =>
    cases h
    exact ⟨0, .nil⟩
  case case2 => cases h
  case case3 c₀ c₁ =>
    simp only [Option.bind_eq_bind, Option.bind_eq_some_iff] at h
    obtain ⟨s₀, h₀, s₁, h₁, h⟩ := h
    split at h
    case isFalse => cases h
    case isTrue spare =>
      cases h
      exact ⟨2, .of_two h₀ h₁ spare⟩
  case case4 c₀ c₁ c₂ =>
    simp only [Option.bind_eq_bind, Option.bind_eq_some_iff] at h
    obtain ⟨s₀, h₀, s₁, h₁, s₂, h₂, h⟩ := h
    split at h
    case isFalse => cases h
    case isTrue spare =>
      cases h
      exact ⟨1, .of_three h₀ h₁ h₂ spare⟩
  case case5 c₀ c₁ c₂ c₃ cs ih =>
    simp only [Option.bind_eq_bind, Option.bind_eq_some_iff] at h
    obtain ⟨s₀, h₀, s₁, h₁, s₂, h₂, s₃, h₃, bytes, hr, h⟩ := h
    cases h
    obtain ⟨padding, written⟩ := ih hr
    exact ⟨padding, .of_four h₀ h₁ h₂ h₃ written⟩

-- What is wrong with a text that stands for no bytes. Its groups are what is in front of the
-- padding at its end.
inductive Malformed (cs : List Char) : Prop
  -- A character that is no symbol, or padding with a character behind it.
  | foreign {c : Char} : c ∈ cs.rdropWhile (· = pad) → sextet? c = none → Malformed cs
  -- More padding than a group may have.
  | excess : 2 < (cs.rtakeWhile (· = pad)).length → Malformed cs
  -- Padding that does not fill up a group.
  | unfilled : 0 < (cs.rtakeWhile (· = pad)).length → cs.length % 4 ≠ 0 → Malformed cs
  -- A last group of one symbol.
  | lone : (cs.rdropWhile (· = pad)).length % 4 = 1 → Malformed cs
  -- A last symbol with bits that belong to no byte.
  | leftover : HasLeftover (cs.rdropWhile (· = pad)) → Malformed cs

theorem decode?_eq_none_iff (s : String) : decode? s = none ↔ Malformed s.toList := by
  have padding := length_padding s.toList
  rw [decode?_eq]
  dsimp only
  constructor
  case mp =>
    intro h
    split at h
    case isTrue =>
      rcases (decodeGroups?_eq_none_iff _).mp h with ⟨c, hc, hn⟩ | hl | hl
      · exact .foreign hc hn
      · exact .lone hl
      · exact .leftover hl
    case isFalse unfit =>
      by_cases many : 2 < (s.toList.rtakeWhile (· = pad)).length
      case pos => exact .excess many
      case neg => exact .unfilled (by omega) (by omega)
  case mpr =>
    intro h
    split
    case isFalse => rfl
    case isTrue fit =>
      rw [decodeGroups?_eq_none_iff]
      cases h
      case foreign c hc hn => exact .inl ⟨c, hc, hn⟩
      case lone hl         => exact .inr (.inl hl)
      case leftover hl     => exact .inr (.inr hl)
      case excess          => omega
      case unfilled        => omega

theorem decode?_eq_some_iff (s : String) (bytes : List UInt8) : decode? s = some bytes ↔
    s = encode bytes ∨ s = .ofList ((encode bytes).toList.rdropWhile (· = '=')) := by
  constructor
  case mp =>
    intro h
    have split := body_append_padding s.toList
    rw [decode?_eq] at h
    dsimp only at h
    split at h
    case isFalse => cases h
    case isTrue fit =>
      have ⟨padding, written⟩ := written_of_decodeGroups? h
      have full := written.length_eq
      have bound := written.full
      rw [encode, String.toList_ofList, show '=' = pad from rfl, written.rdropWhile_eq,
        written.text]
      rcases fit with none | fit
      · right
        rw [none, List.replicate_zero, List.append_nil] at split
        rw [split, String.ofList_toList]
      · left
        rw [show padding = s.toList.length - (body s.toList).length by omega, split,
          String.ofList_toList]
  case mpr =>
    rintro (rfl | rfl)
    · exact decode?_encode bytes
    · have ⟨groups, padding, written⟩ := exists_written bytes
      have bare : body groups = groups := by simpa using body_append written.unpadded 0
      rw [encode, String.toList_ofList, show '=' = pad from rfl, written.rdropWhile_eq, decode?_eq]
      simp only [String.toList_ofList, bare, Nat.sub_self, true_or, if_true]
      exact written.read

-- Reading takes the text that is written for some bytes, and that text without its padding, for
-- these bytes, and no other text.
theorem decode?_inverts_encode (s : String) :
    (∀ bytes, decode? s = some bytes ↔
      s = encode bytes ∨ s = .ofList ((encode bytes).toList.rdropWhile (· = '='))) ∧
    (decode? s = none ↔ Malformed s.toList) ∧ ∀ bytes, decode? (encode bytes) = some bytes :=
  ⟨decode?_eq_some_iff s, decode?_eq_none_iff s, decode?_encode⟩

end RecordDecoding.Base64
