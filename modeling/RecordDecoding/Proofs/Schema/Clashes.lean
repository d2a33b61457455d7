import RecordDecoding.Proofs.Schema.Describing

namespace RecordDecoding

-- A declared type is spelled like another type, or both are lists of such types.
inductive FieldType.Clashes : FieldType → FieldType → Prop
  | scalar (k : ScalarKind) : Clashes (.named k.label) (.scalar k)
  | list (inner : FieldType) : Clashes (.named (inner.spell ++ "[]")) (.list inner)
  | inner {t t' : FieldType} : Clashes t t' → Clashes (.list t) (.list t')

-- The type that a field of a kind has.
def SchemaSet.typeOf (set : SchemaSet) (owner : Schema) : FieldKind → FieldType
  | .scalar kind => .scalar kind
  | .nested id   => .named (set.describe owner (.nested id))
  | .recursive   => .named owner.typeName
  | .list inner  => .list (set.typeOf owner inner)

theorem ScalarKind.label_injective : Function.Injective ScalarKind.label := by
  intro k k' h
  have found := congrArg ofLabel? h
  rw [k.ofLabel?_label, k'.ofLabel?_label] at found
  exact Option.some.inj found

-- There is no bracket in a name.
theorem TypeSpec.ne_append_of_isName {name : String} (h : isName name.toList) (text : String) :
    name ≠ text ++ "[]" := by
  rintro rfl
  have bracket : ']' ∈ (text ++ "[]").toList := by simp
  exact absurd (continuesName_of_mem h bracket) (by decide +kernel)

theorem ScalarKind.label_ne_append (k : ScalarKind) (text : String) : k.label ≠ text ++ "[]" :=
  TypeSpec.ne_append_of_isName k.isName_label text

namespace FieldType

variable {t t' : FieldType}

theorem Clashes.spell_eq (h : t.Clashes t') : t.spell = t'.spell := by
  induction h
  case scalar   => rfl
  case list     => rfl
  case inner ih => rw [spell, ih, spell]

theorem eq_or_clashes_of_spell_eq (h : t.spell = t'.spell) :
    t = t' ∨ t.Clashes t' ∨ t'.Clashes t := by
  induction t generalizing t'
  case scalar k =>
    cases t'
    case scalar k'   => exact .inl (congrArg _ (ScalarKind.label_injective h))
    case named name  =>
      obtain rfl : k.label = name := h
      exact .inr (.inr (.scalar k))
    case list inner' => exact absurd h (k.label_ne_append _)
  case named name =>
    obtain rfl : name = t'.spell := h
    cases t'
    case scalar k'   => exact .inr (.inl (.scalar k'))
    case named name' => exact .inl rfl
    case list inner' => exact .inr (.inl (.list inner'))
  case list inner ih =>
    cases t'
    case scalar k'   => exact absurd h.symm (k'.label_ne_append _)
    case named name' =>
      obtain rfl : inner.spell ++ "[]" = name' := h
      exact .inr (.inr (.list inner))
    case list inner' =>
      obtain he | hc | hc := ih (String.append_left_inj _ |>.mp h)
      case inl    => exact .inl (congrArg _ he)
      case inr.inl => exact .inr (.inl (.inner hc))
      case inr.inr => exact .inr (.inr (.inner hc))

theorem spell_eq_iff : t.spell = t'.spell ↔ t = t' ∨ t.Clashes t' ∨ t'.Clashes t := by
  refine ⟨eq_or_clashes_of_spell_eq, ?_⟩
  rintro (rfl | hc | hc)
  case inl     => rfl
  case inr.inl => exact hc.spell_eq
  case inr.inr => exact hc.spell_eq.symm

-- A type that can be spelled is read back, so it is told from all others that can be.
theorem Spellable.eq_of_spell_eq (h : t.Spellable) (h' : t'.Spellable) (he : t.spell = t'.spell) :
    t = t' := by
  have read := TypeSpec.parse?_spell h
  rw [he, TypeSpec.parse?_spell h'] at read
  exact (Option.some.inj read).symm

namespace Spellable

variable {name : String} (h : t.Spellable) (hn : name ∈ t.target?)
include h hn

theorem ne_label (k : ScalarKind) : name ≠ k.label := by
  rintro rfl
  cases (h _ hn).2.symm.trans k.ofLabel?_label

theorem ne_append (text : String) : name ≠ text ++ "[]" :=
  TypeSpec.ne_append_of_isName (h _ hn).1 text

end Spellable
end FieldType

namespace SchemaSet

variable {decls : List TypeDecl} {set : SchemaSet} {s : Schema} {f g : Field}

theorem typeOf_eq {t : FieldType} {k : FieldKind}
    (h : t.Resolves (set.schemas.map (·.typeName)) s.typeName k) : set.typeOf s k = t := by
  induction h
  case scalar   => rfl
  case owner    => rfl
  case list ih  => rw [typeOf, ih]
  case other name index hne hi =>
    have resolves := FieldType.Resolves.other hne hi
    rw [typeOf, describe_eq resolves, FieldType.spell]

theorem names_nodup (built : SchemaSet.build decls = .ok set) :
    (set.schemas.map (·.typeName)).Nodup :=
  names_eq (registers_of_build built).types ▸ (valid_of_build built).names

theorem resolves_typeOf (built : SchemaSet.build decls = .ok set) (hs : s ∈ set.schemas)
    (hf : f ∈ s.fields) :
    (set.typeOf s f.kind).Resolves (set.schemas.map (·.typeName)) s.typeName f.kind := by
  have ⟨_, _, _, _, resolves⟩ := exists_resolves built hs hf
  rwa [typeOf_eq resolves]

-- The kinds of two fields are described alike if they are the same or the types clash. In a
-- document no field refers to a type that is named like a scalar or a list, and fields that are
-- described alike are of the same kind.
theorem describe_tells (built : SchemaSet.build decls = .ok set) (hs : s ∈ set.schemas)
    (hf : f ∈ s.fields) (hg : g ∈ s.fields) :
    (set.describe s f.kind = set.describe s g.kind ↔ f.kind = g.kind ∨
      (set.typeOf s f.kind).Clashes (set.typeOf s g.kind) ∨
      (set.typeOf s g.kind).Clashes (set.typeOf s f.kind)) ∧
    ∀ (d : Document) root, d.build = .ok ⟨set, root⟩ →
      (∀ name ∈ (set.typeOf s f.kind).target?,
        (∀ k : ScalarKind, name ≠ k.label) ∧ ∀ text : String, name ≠ text ++ "[]") ∧
      (set.describe s f.kind = set.describe s g.kind → f.kind = g.kind) := by
  have nodup := names_nodup built
  constructor
  case left =>
    have ht := resolves_typeOf built hs hf
    have ht' := resolves_typeOf built hs hg
    have same : set.typeOf s f.kind = set.typeOf s g.kind ↔ f.kind = g.kind :=
      ⟨fun he => ht.unique nodup (he ▸ ht'), congrArg _⟩
    rw [describe_eq ht, describe_eq ht', ← same]
    exact FieldType.spell_eq_iff
  case right =>
    intro d root loaded
    have ⟨decls', declared, built', _⟩ := Document.build_ok_iff.mp loaded
    have spellable := spellable_of_build built' (Document.spellable_of_declare declared)
    have ⟨t, ht, hr⟩ := spellable s hs f hf
    have ⟨t', ht', hr'⟩ := spellable s hs g hg
    refine ⟨fun name hn => ?_, fun he => ?_⟩
    · rw [typeOf_eq hr] at hn
      exact ⟨ht.ne_label hn, ht.ne_append hn⟩
    · rw [describe_eq hr, describe_eq hr'] at he
      exact hr.unique nodup (ht.eq_of_spell_eq ht' he ▸ hr')

-- A document with a type that has the name of a scalar, which no field can refer to.
theorem describe_tells_list :
    let d : Document := ⟨none, [⟨"i64", []⟩, ⟨"Node", [
      { name := "next", type := "Node[]" }, { name := "size", type := "i64" },
      { name := "prior", type := "Node[]" }]⟩]⟩
    let next : Field := ⟨"next", 0, .list .recursive, false, false⟩
    let prior : Field := ⟨"prior", 2, .list .recursive, false, false⟩
    let s : Schema := ⟨⟨1⟩, "Node", [next, ⟨"size", 1, .scalar (.int .w64), false, false⟩, prior]⟩
    let set : SchemaSet := ⟨[⟨⟨0⟩, "i64", []⟩, s]⟩
    d.build = .ok ⟨set, some ⟨0⟩⟩ ∧ s ∈ set.schemas ∧ next ∈ s.fields ∧ prior ∈ s.fields ∧
      (set.typeOf s next.kind).target? = some "Node" ∧
      ((∀ k : ScalarKind, "Node" ≠ k.label) ∧ ∀ text : String, "Node" ≠ text ++ "[]") ∧
      set.describe s next.kind = set.describe s prior.kind ∧ next.kind = prior.kind := by
  intro d next prior s set
  have lists : TypeSpec.parse? "Node[]" = some (.list (.named "Node")) := by
    refine TypeSpec.parse?_spell (t := .list (.named "Node")) ?_
    rintro _ ⟨⟩
    decide +kernel
  have scalar : TypeSpec.parse? "i64" = some (.scalar (.int .w64)) :=
    TypeSpec.parse?_spell (t := .scalar (.int .w64)) nofun
  have loaded : d.build = .ok ⟨set, some ⟨0⟩⟩ := by
    simp only [Document.build, d, List.mapM_cons, TypeDoc.declare, FieldDoc.declare, lists, scalar]
    rfl
  obtain ⟨_, _, built, _⟩ := Document.build_ok_iff.mp loaded
  have hs : s ∈ set.schemas := by decide
  have hn : next ∈ s.fields := by decide
  have hp : prior ∈ s.fields := by decide
  have alike : set.describe s next.kind = set.describe s prior.kind := rfl
  obtain ⟨names, tells⟩ := (describe_tells built hs hn hp).2 d _ loaded
  exact ⟨loaded, hs, hn, hp, rfl, names "Node" rfl, alike, tells alike⟩

-- A field of a type with the name of a scalar, and a field of the scalar.
theorem describe_conflates :
    let a : Field := ⟨"a", 0, .nested ⟨1⟩, false, false⟩
    let b : Field := ⟨"b", 1, .scalar (.int .w64), false, false⟩
    let s : Schema := ⟨⟨0⟩, "P", [a, b]⟩
    let set : SchemaSet := ⟨[s, ⟨⟨1⟩, "i64", []⟩]⟩
    SchemaSet.build [⟨"P", [{ name := "a", type := .named "i64" },
      { name := "b", type := .scalar (.int .w64) }]⟩, ⟨"i64", []⟩] = .ok set ∧
    s ∈ set.schemas ∧ a ∈ s.fields ∧ b ∈ s.fields ∧
    set.describe s a.kind = set.describe s b.kind ∧ a.kind ≠ b.kind :=
  ⟨rfl, by decide, by decide, by decide, rfl, by decide⟩

end SchemaSet
end RecordDecoding
