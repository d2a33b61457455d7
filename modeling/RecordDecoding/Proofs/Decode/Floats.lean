import RecordDecoding.External.Uuid
import RecordDecoding.Proofs.Decode.Integers
import RecordDecoding.Proofs.Number.Floats

namespace RecordDecoding

open Decoding Forward ScalarKind

-- A float of a kind that is neither infinite nor no number.
inductive ScalarKind.AdmitsFinite : ScalarKind → Value → Prop
  | single {x : Single} : x.isFinite → AdmitsFinite .f32 (.f32 x)
  | double {x : Double} : x.isFinite → AdmitsFinite .f64 (.f64 x)

inductive ScalarKind.AdmitsInfinite : ScalarKind → Value → Prop
  | single {x : Single} : x.isInfinite → AdmitsInfinite .f32 (.f32 x)
  | double {x : Double} : x.isInfinite → AdmitsInfinite .f64 (.f64 x)

-- A number as a float of a kind, if it is finite as such.
def ScalarKind.ofDouble? (x : Double) : ScalarKind → Option Value
  | f32 =>
    let y : Single := x.convert
    if x.isInfinite || y.isInfinite then none else some (.f32 y)
  | f64 => if x.isInfinite then none else some (.f64 x)
  | _   => none

-- The same where nothing is checked.
def ScalarKind.ofDouble (x : Double) : ScalarKind → Value
  | f32 => .f32 x.convert
  | _   => .f64 x

-- What is read, or that it is of no use.
inductive ScalarKind.ReadsAs : Option Value → Except ScalarFault Value → Prop
  | value {v} : ReadsAs (some v) (.ok v)
  | invalid {reason} : ReadsAs none (.error (.invalid reason))

namespace ScalarKind

variable {k : ScalarKind} {x : Double}

theorem admitsFinite_of_ofDouble? (number : x.isNan = false) {v : Value}
    (h : k.ofDouble? x = some v) : k.AdmitsFinite v := by
  have finite : x.isFinite = !x.isInfinite := Binary.isFinite_eq number
  cases k <;> simp only [ofDouble?, Option.ite_none_left_eq_some, reduceCtorEq] at h
  case f32 =>
    obtain ⟨inside, ⟨⟩⟩ := h
    simp only [Bool.or_eq_true, not_or, Bool.not_eq_true] at inside
    have single : (x.convert : Single).isNan = false := by
      rw [Binary.convert, if_neg (by simp [number]), if_neg (by simp [inside.1])]
      exact Binary.isNan_ofRatio (by decide) (by decide) ..
    exact .single (by rw [Binary.isFinite_eq single, inside.2]; rfl)
  case f64 =>
    obtain ⟨inside, ⟨⟩⟩ := h
    exact .double (by rw [finite, Bool.eq_false_iff.mpr inside]; rfl)

theorem ofDouble?_of_isInfinite (h : x.isInfinite) : k.ofDouble? x = none := by
  cases k <;> simp [ofDouble?, h]

theorem admitsInfinite_ofDouble (floats : k = .f32 ∨ k = .f64) (h : x.isInfinite) :
    k.AdmitsInfinite (k.ofDouble x) := by
  obtain rfl | rfl := floats
  case inr => exact .double h
  case inl =>
    have number : x.isNan = false := by
      simp only [Binary.isInfinite, Binary.isNan, decide_eq_true_eq] at h ⊢
      exact decide_eq_false (by omega)
    refine .single ?_
    rw [Binary.convert, if_neg (by simp [number]), if_pos h]
    cases x.isNegative <;> decide

theorem narrowFloat_readsAs (number : x.isNan = false) (h : x.isInfinite = false) :
    ReadsAs (ofDouble? x .f32) (narrowFloat x) := by
  have finite : x.isFinite = true := by rw [Binary.isFinite_eq number, h]; rfl
  simp only [narrowFloat, finite, ofDouble?, h, Bool.true_and, Bool.false_or]
  split
  · exact .invalid
  · exact .value

-- A kind of floats reads what a cursor gives as a float.
theorem read_float [UuidFormat] {σ : Type} [Cursor σ] {c : σ} (floats : k = .f32 ∨ k = .f64)
    (kind : Cursor.kind c = .integer) (number : x.isNan = false) (finite : x.isInfinite = false)
    (h : Cursor.float c = .ok x) : ReadsAs (k.ofDouble? x) (k.read c) := by
  rw [read, if_pos (accepts_integer floats kind)]
  obtain rfl | rfl := floats
  · rw [readAccepted, access_of_ok h]
    exact narrowFloat_readsAs number finite
  · rw [readAccepted, access_of_ok h, ofDouble?, if_neg (by simp [finite])]
    exact .value

end ScalarKind

section

variable [UuidFormat]
variable {k : ScalarKind} (floats : k = .f32 ∨ k = .f64) {literal : String} {x : Double}
variable (integer : Numeral.IsInteger literal.toList) (read : Binary.read? literal = some x)
variable (number : x.isNan = false)
include floats integer read number

-- In a text it does not matter how great the integer is.
theorem TextCursor.Shows.read_float {c : TextCursor} (shows : c.Shows (.number literal)) :
    ReadsAs (k.ofDouble? x) (k.read c) := by
  obtain ⟨lexeme, ⟨kind, _⟩ | ⟨_, decimal⟩⟩ := shows
  case inr => exact absurd integer decimal
  have float := TextCursor.float_eq lexeme read
  split at float
  case isTrue infinite =>
    rw [ScalarKind.read, if_pos (accepts_integer floats kind), ofDouble?_of_isInfinite infinite]
    obtain rfl | rfl := floats
    all_goals
      rw [readAccepted, access_of_fault (show Cursor.float c = .error _ from float) rfl]
      exact .invalid
  case isFalse finite =>
    exact ScalarKind.read_float floats kind number (Bool.eq_false_iff.mpr finite) float

omit integer in
theorem Replay.read_float {r : Replay} (current : r.current = .bigInt literal)
    (finite : x.isInfinite = false) : ReadsAs (k.ofDouble? x) (k.read r) :=
  ScalarKind.read_float floats (congrArg Token.kind current) number finite
    (Replay.float_eq current read)

omit integer number in
-- A replay does not take infinity for out of range, and neither does single precision.
theorem Replay.read_infinite {r : Replay} (current : r.current = .bigInt literal)
    (infinite : x.isInfinite) : ReadsAs (some (k.ofDouble x)) (k.read r) := by
  have kind : Cursor.kind r = .integer := congrArg Token.kind current
  have not_finite : x.isFinite = false := by
    simp only [Binary.isInfinite, Binary.isFinite, decide_eq_true_eq] at infinite ⊢
    exact decide_eq_false (by omega)
  rw [ScalarKind.read, if_pos (accepts_integer floats kind)]
  obtain rfl | rfl := floats
  · rw [readAccepted, access_of_ok (Replay.float_eq current read)]
    show ReadsAs _ (narrowFloat x)
    simp only [narrowFloat, not_finite, Bool.false_and]
    exact .value
  · rw [readAccepted, access_of_ok (Replay.float_eq current read)]
    exact .value

end

-- What decoding a scalar came to: the value, or the error that it is of no use.
def Outcome.IsScalar {σ : Type} [Cursor σ] (schema : Schema) (field : Field) (k : ScalarKind)
    (s : Session σ) (answer : Option Value) (o : Outcome DecodeError (Session σ) Value) : Prop :=
  match answer with
  | some v => o = .ok v s
  | none   => ∃ reason p, o = .error (.invalidScalar schema.typeName field.name k reason p) s

theorem ScalarKind.ReadsAs.isScalar [UuidFormat] {σ : Type} [Cursor σ] {k : ScalarKind}
    {s : Session σ} {answer : Option Value} (h : ReadsAs answer (k.read s.cursor)) (set : SchemaSet)
    (opt : DecodeOptions) (level : Option (Level σ)) (schema : Schema) (field : Field) :
    ((Level.decodeValue set opt level schema field (.scalar k)).run s).IsScalar schema field k s
      answer := by
  simp only [Level.decodeValue, Level.scalar, run_bind, run_look]
  generalize k.read s.cursor = read at h
  cases h
  case value   => rfl
  case invalid => exact ⟨_, _, rfl⟩

namespace TokenTree

mutual

def leaves : TokenTree → List Leaf
  | leaf l         => [l]
  | array items    => itemLeaves items
  | object members => memberLeaves members

def itemLeaves : List TokenTree → List Leaf
  | []            => []
  | item :: items => item.leaves ++ itemLeaves items

def memberLeaves : List (MemberName × TokenTree) → List Leaf
  | []                   => []
  | (_, tree) :: members => tree.leaves ++ memberLeaves members

end

section

variable (set : SchemaSet) (rules : DecodeRules) {read read' : ScalarReading}

mutual

-- A verdict depends on the leaves only as they are read.
theorem verdict_congr (schema : Schema) (field : Field) (k : FieldKind) (depth index : Nat) :
    ∀ t : TokenTree, (∀ l ∈ t.leaves, ∀ k, read k l = read' k l) →
      t.verdict set rules (fun _ => read) schema field k depth index =
        t.verdict set rules (fun _ => read') schema field k depth index
  | leaf l, same         => by
    cases k <;> simp only [verdict, same l (by simp [leaves])]
  | array items, same    => by
    rw [leaves] at same
    cases k <;> simp only [verdict, itemVerdicts_congr _ _ _ _ _ _ items same]
  | object members, same => by
    rw [leaves] at same
    simp only [verdict]
    cases k.schema? set schema
    case none   => rfl
    case some _ => simp only [memberVerdicts_congr _ _ _ members same]

theorem itemVerdicts_congr (schema : Schema) (field : Field) (inner : FieldKind)
    (depth index count : Nat) : ∀ items : List TokenTree,
    (∀ l ∈ itemLeaves items, ∀ k, read k l = read' k l) →
      itemVerdicts set rules (fun _ => read) schema field inner depth index count items =
        itemVerdicts set rules (fun _ => read') schema field inner depth index count items
  | [], _               => rfl
  | item :: items, same => by
    rw [itemLeaves, List.forall_mem_append] at same
    simp only [itemVerdicts, verdict_congr _ _ _ _ _ item same.1,
      itemVerdicts_congr _ _ _ _ _ _ items same.2]

theorem memberVerdicts_congr (schema : Schema) (depth index : Nat) :
    ∀ members : List (MemberName × TokenTree),
    (∀ l ∈ memberLeaves members, ∀ k, read k l = read' k l) →
      memberVerdicts set rules (fun _ => read) schema depth index members =
        memberVerdicts set rules (fun _ => read') schema depth index members
  | [], _                         => rfl
  | (name, tree) :: members, same => by
    rw [memberLeaves, List.forall_mem_append] at same
    simp only [memberVerdicts]
    cases schema.fieldNamed? name.text
    case none   => simp only [memberVerdicts_congr _ _ _ members same.2]
    case some _ =>
      simp only [verdict_congr _ _ _ _ _ tree same.1, memberVerdicts_congr _ _ _ members same.2]

end

end
end TokenTree

-- A number that is finite in double precision. Of an integer this is said by its size.
inductive Leaf.IsFinite : Leaf → Prop
  | integer {m : IntegerText} {n : Int} : Numeral.Denotes m.text.toList n →
    n.natAbs < Binary.leastInfinite → IsFinite (.bigInt m)
  | float {x : Double} : x.isFinite → IsFinite (.float x)
  | other {l : Leaf} : l.number? = none → IsFinite l

theorem Leaf.IsFinite.not_infinite {l : Leaf} (h : l.IsFinite) {x : Double}
    (number : l.number? = some x) : x.isInfinite = false := by
  cases h
  case integer m n denotes small =>
    cases number
    have ⟨x, read, _, infinite⟩ := denotes.exists_double
    cases m.read?_text.symm.trans read
    exact Bool.eq_false_iff.mpr (infinite.not.mpr small.not_ge)
  case float finite =>
    cases number
    simp only [Binary.isFinite, Binary.isInfinite, decide_eq_true_eq] at finite ⊢
    exact decide_eq_false finite.ne
  case other none => cases none.symm.trans number

-- Only infinite numbers are read from a text as they are not from a replay.
theorem Leaf.IsFinite.readText_eq [UuidFormat] {l : Leaf} (h : l.IsFinite) (k : ScalarKind) :
    l.readText k = l.read 0 k := by
  unfold readText
  split
  case h_1 number | h_2 number => rw [if_neg (by simp [h.not_infinite number])]
  case h_3 => rfl

-- Integers in fields for floats, read from a text and from a replay.
structure SchemaSet.KeepsFloats [UuidFormat] (set : SchemaSet) (id : SchemaId) : Prop where
  -- As a value of a field, or of an item of it: what a text gives, if it is of any use, is finite,
  -- and a replay gives the same. From the least infinite integer on a text refuses it, and a replay
  -- gives infinity.
  value {k : ScalarKind} (_ : k = .f32 ∨ k = .f64) {literal : String} {n : Int}
    (_ : Numeral.Denotes literal.toList n) :
    ∃ fromText fromReplay : Option Value, (∀ v ∈ fromText, k.AdmitsFinite v) ∧
      (if n.natAbs < Binary.leastInfinite then fromReplay = fromText
        else fromText = none ∧ ∃ v ∈ fromReplay, k.AdmitsInfinite v) ∧
      ∀ (opt : DecodeOptions) (schema : Schema) (field : Field),
        (∀ (level : Option (Level TextCursor)) (s : Session TextCursor),
          s.cursor.Shows (.number literal) →
          ((Level.decodeValue set opt level schema field (.scalar k)).run s).IsScalar schema field k
            s fromText) ∧
        ∀ (level : Option (Level Replay)) (s : Session Replay), s.cursor.current = .bigInt literal →
          ((Level.decodeValue set opt level schema field (.scalar k)).run s).IsScalar schema field k
            s fromReplay
  -- As values anywhere in an object, where other numbers are finite too.
  object (opt : DecodeOptions) {j : Json} {members : List (MemberName × TokenTree)}
    (_ : j.tree = .object members) (_ : ∀ l ∈ j.tree.leaves, l.IsFinite) {bytes : List UInt8}
    (_ : Json.IsText j bytes) :
    ∃ c r, TextCursor.ofBytes bytes = .ok c ∧ Replay.ofTokens j.tree.tokens none = .ok r ∧
      ((decodeRecord set id opt).run { cursor := c }).result.mapError DecodeError.gist =
        ((decodeRecord set id opt).run { cursor := r }).result.mapError DecodeError.gist

theorem Outcome.Gives.gist_eq {σ α : Type} {P : σ → Prop} {o : Outcome DecodeError σ α}
    {x : Except DecodeError α} (h : o.Gives (fun e e' => e.gist = e'.gist) P x) :
    o.result.mapError DecodeError.gist = x.mapError DecodeError.gist := by
  cases h
  case ok         => rfl
  case error same => exact congrArg Except.error same

theorem decodeRecord_floats [UuidFormat] {types : List TypeDecl} {set : SchemaSet}
    (built : SchemaSet.build types = .ok set) {id : SchemaId} {schema : Schema}
    (found : set.get? id = some schema) : set.KeepsFloats id where
  value {k} floats {literal n} denotes := by
    have ⟨x, double, number, infinite⟩ := denotes.exists_double
    have text {s : Session TextCursor} (shows : s.cursor.Shows (.number literal)) :=
      shows.read_float floats denotes.isInteger double number
    by_cases small : n.natAbs < Binary.leastInfinite
    case pos =>
      have finite : x.isInfinite = false := Bool.eq_false_iff.mpr (infinite.not.mpr small.not_ge)
      refine ⟨k.ofDouble? x, k.ofDouble? x, fun v => admitsFinite_of_ofDouble? number,
        by rw [if_pos small], fun opt schema field => ⟨fun level s shows => ?_, ?_⟩⟩
      · exact (text shows).isScalar set opt level schema field
      · intro level s current
        exact (Replay.read_float floats double number current finite).isScalar ..
    case neg =>
      have great : x.isInfinite := infinite.mpr (Nat.le_of_not_lt small)
      refine ⟨none, some (k.ofDouble x), nofun, ?_, fun opt schema field =>
        ⟨fun level s shows => ?_, fun level s current => ?_⟩⟩
      · rw [if_neg small]
        exact ⟨rfl, _, rfl, admitsInfinite_ofDouble floats great⟩
      · exact (ofDouble?_of_isInfinite great ▸ text shows).isScalar set opt level schema field
      · exact (Replay.read_infinite floats double current great).isScalar ..
  object opt j members tree finite bytes text := by
    have wf := SchemaSet.wellFormed_of_build built
    have ⟨c, hc, fromText⟩ := heeds_of_text wf found tree text
    have ⟨r, hr, fromTokens⟩ := heeds_of_tokens wf found members
    refine ⟨c, r, hc, tree ▸ hr, ?_⟩
    rw [tree, TokenTree.leaves] at finite
    rw [(fromText opt).gist_eq, (fromTokens opt).gist_eq, TokenTree.objectVerdict,
      TokenTree.memberVerdicts_congr _ _ _ _ _ _ fun l mem k => (finite l mem).readText_eq k]
    rfl

-- The text of an object with a single number in it.
def Json.scale (literal : String) : List UInt8 :=
  plain ("\x7b\"x\":".toList ++ (literal.toList ++ ['\x7d']))

theorem Json.isText_scale {literal : String} (h : Numeral.IsInteger literal.toList) :
    IsText (.object [("x", .number literal)]) (scale literal) := by
  have raw : CharText 'x' (plain ['x']) := .raw ⟨by decide, by decide, by decide⟩
  have name : StringText "x" (plain "\"x\"".toList) := .quoted (s := "x") (.cons raw .nil)
  have none : Blank [] := nofun
  refine ⟨[], _, [], none,
    .object (.one (.of none name none none (.number h.isNumber)) none), none, ?_⟩
  simp [scale, plain]

-- Ten is the same float from a text and from a replay.
theorem decodeRecord_floats_ten :
    let _ : UuidFormat := .hyphenated
    let types : List TypeDecl := [⟨"Scale", [{ name := "x", type := .scalar .f64 }]⟩]
    let schema : Schema := ⟨⟨0⟩, "Scale", [⟨"x", 0, .scalar .f64, false, false⟩]⟩
    let j : Json := .object [("x", .number "10")]
    let members := [(MemberName.fresh "x", TokenTree.leaf (.ofLiteral "10"))]
    SchemaSet.build types = .ok ⟨[schema]⟩ ∧ j.tree = .object members ∧
      (∀ l ∈ j.tree.leaves, l.IsFinite) ∧ Json.IsText j (Json.scale "10") ∧
      ∃ c r, TextCursor.ofBytes (Json.scale "10") = .ok c ∧
        Replay.ofTokens j.tree.tokens none = .ok r ∧
        ((decodeRecord ⟨[schema]⟩ ⟨0⟩ .default).run { cursor := c }).result.mapError
            DecodeError.gist =
          ((decodeRecord ⟨[schema]⟩ ⟨0⟩ .default).run { cursor := r }).result.mapError
            DecodeError.gist := by
  intro _ types schema j members
  have built : SchemaSet.build types = .ok ⟨[schema]⟩ := by rfl
  have found : SchemaSet.get? ⟨[schema]⟩ ⟨0⟩ = some schema := rfl
  have tree : j.tree = .object members := rfl
  have whole : Numeral.IsWhole "10".toList := .digits (by decide) (by decide)
  have finite : ∀ l ∈ j.tree.leaves, l.IsFinite := by
    intro l mem
    cases List.mem_singleton.mp mem
    rw [Leaf.ofLiteral_integer (.plain whole)]
    have small : (Nat.ofDigitChars 10 "10".toList 0 : Int).natAbs < Binary.leastInfinite := by
      decide +kernel
    exact .integer (.plain whole) small
  have text := Json.isText_scale (.plain whole)
  exact ⟨built, tree, finite, text,
    (decodeRecord_floats built found).object .default tree finite text⟩

section

-- A type of records with a single float.
abbrev scaleTypes : List TypeDecl := [⟨"Scale", [{ name := "x", type := .scalar .f64 }]⟩]

abbrev scaleSet : SchemaSet := ⟨[⟨⟨0⟩, "Scale", [⟨"x", 0, .scalar .f64, false, false⟩]⟩]⟩

variable {literal : String} {n : Int} (denotes : Numeral.Denotes literal.toList n)
variable (great : Binary.leastInfinite ≤ n.natAbs)
include denotes great

-- Given by its literal, an integer that is too great makes an infinite float, which the same
-- literal in a text does not.
theorem decodeRecord_of_great [UuidFormat] :
    (∃ c, TextCursor.ofBytes (Json.scale literal) = .ok c ∧
      ((decodeRecord scaleSet ⟨0⟩ .default).run { cursor := c }).result.mapError
        DecodeError.gist = .error (.invalidScalar "Scale" "x" .f64 "" none)) ∧
    ∃ r x, Replay.ofTokens [.objectStart, .fieldName (.fresh "x"), .bigInt literal, .objectEnd]
        none = .ok r ∧ x.isInfinite ∧
      ((decodeRecord scaleSet ⟨0⟩ .default).run { cursor := r }).result =
        .ok (some ⟨"Scale", [⟨"x", .value (.f64 x)⟩]⟩) := by
  have built : SchemaSet.build scaleTypes = .ok scaleSet := by rfl
  have wf := SchemaSet.wellFormed_of_build built
  obtain ⟨x, double, _, infinite⟩ := denotes.exists_double
  let m : IntegerText := ⟨literal, denotes.isInteger⟩
  have value : m.double = x := Option.some.inj (m.read?_text.symm.trans double)
  let members := [(MemberName.fresh "x", TokenTree.leaf (.bigInt m))]
  have tree : Json.tree (.object [("x", .number literal)]) = .object members := by
    simp only [Json.tree, Json.memberTrees, Leaf.ofLiteral_integer denotes.isInteger]
    rfl
  have found : scaleSet.get? ⟨0⟩ = some ⟨⟨0⟩, "Scale", _⟩ := rfl
  obtain ⟨c, hc, fromText⟩ := heeds_of_text wf found tree (Json.isText_scale denotes.isInteger)
  obtain ⟨r, hr, fromTokens⟩ := heeds_of_tokens wf found members
  refine ⟨⟨c, hc, ?_⟩, r, x, hr, infinite.mpr great, ?_⟩
  · have refused : (Leaf.bigInt m).readText .f64 = .error (.invalid "") :=
      if_pos (value ▸ infinite.mpr great)
    have not_null : (Leaf.bigInt m).token.kind ≠ .null := by rintro ⟨⟩
    have split : members = [] ++ (.fresh "x", .leaf (.bigInt m)) :: [] := rfl
    rw [(fromText _).gist_eq, split, TokenTree.objectVerdict_leaf rfl rfl not_null, refused]
    rfl
  · refine (fromTokens _).result_eq ?_
    rw [← value]
    rfl

end

theorem Numeral.ofDigitChars_zeros (count n : Nat) :
    Nat.ofDigitChars 10 (List.replicate count '0') n = n * 10 ^ count := by
  induction count generalizing n
  case zero      => exact (Nat.mul_one n).symm
  case succ n ih =>
    rw [List.replicate_succ, Nat.ofDigitChars_cons, ih, Nat.pow_succ']
    simp [Nat.mul_left_comm, Nat.mul_assoc]

theorem Numeral.denotes_power (count : Nat) :
    Denotes ('1' :: List.replicate count '0') (10 ^ count : Nat) := by
  have whole : IsWhole ('1' :: List.replicate count '0') := by
    refine .digits (isDigits_iff.mpr ⟨nofun, fun c mem => ?_⟩) (by simp)
    obtain rfl | ⟨_, rfl⟩ := (List.mem_cons.mp mem).imp_right List.mem_replicate.mp <;> rfl
  have value : Nat.ofDigitChars 10 ('1' :: List.replicate count '0') 0 = 10 ^ count := by
    rw [Nat.ofDigitChars_cons, ofDigitChars_zeros]
    exact Nat.one_mul _
  exact value ▸ .plain whole

-- The one with 309 zeros is the first among them that is too great.
theorem decodeRecord_infinite :
    let _ : UuidFormat := .hyphenated
    let literal := String.ofList ('1' :: List.replicate 309 '0')
    SchemaSet.build scaleTypes = .ok scaleSet ∧ Numeral.IsInteger literal.toList ∧
      (∃ c, TextCursor.ofBytes (Json.scale literal) = .ok c ∧
        ((decodeRecord scaleSet ⟨0⟩ .default).run { cursor := c }).result.mapError
          DecodeError.gist = .error (.invalidScalar "Scale" "x" .f64 "" none)) ∧
      ∃ r x, Replay.ofTokens [.objectStart, .fieldName (.fresh "x"), .bigInt literal, .objectEnd]
          none = .ok r ∧ x.isInfinite ∧
        ((decodeRecord scaleSet ⟨0⟩ .default).run { cursor := r }).result =
          .ok (some ⟨"Scale", [⟨"x", .value (.f64 x)⟩]⟩) := by
  intro _ literal
  have denotes : Numeral.Denotes literal.toList (10 ^ 309 : Nat) := by
    rw [String.toList_ofList]
    exact Numeral.denotes_power 309
  have great : Binary.leastInfinite ≤ ((10 ^ 309 : Nat) : Int).natAbs := by
    rw [Int.natAbs_natCast]
    decide +kernel
  exact ⟨by rfl, denotes.isInteger, decodeRecord_of_great denotes great⟩

end RecordDecoding
