import RecordDecoding.Proofs.Decode.Faults
import RecordDecoding.Proofs.Json.Members
import RecordDecoding.Proofs.Json.Standing
import RecordDecoding.Proofs.Position

namespace RecordDecoding

open Forward TextCursor

-- What is decoded: a value of some type, from its first token on.
structure Request where
  set : SchemaSet
  type : SchemaId
  first : TextCursor

namespace Request

mutual

-- Where an object of a schema starts.
inductive ObjectOf (r : Request) : Schema → TextCursor → Prop
  | root {s} : r.set.get? r.type = some s → r.first.kind = .objectStart → ObjectOf r s r.first
  | value {s f k target v} : ValueOf r s f k v → k.schema? r.set s = some target →
    v.kind = .objectStart → ObjectOf r target v

-- Where a value for a field of a schema starts: that of a member, or an item of a list.
inductive ValueOf (r : Request) : Schema → Field → FieldKind → TextCursor → Prop
  | member {s f o m v} : ObjectOf r s o → f ∈ s.fields → NamesMember o f.name m →
    advance.run m = .ok () v → ValueOf r s f f.kind v
  | item {s f k a u v} : ValueOf r s f (.list k) a → a.kind = .arrayStart → DirectlyIn a u →
    advance.run u = .ok () v → v.kind ≠ .arrayEnd → ValueOf r s f k v

end

variable {r : Request} {schema : Schema} {field : Field} {k : FieldKind} {c o v : TextCursor}

mutual

theorem ObjectOf.trail : ∀ {schema : Schema} {o : TextCursor}, r.ObjectOf schema o →
    Trail [] r.first o
  | _, _, .root _ _        => .refl
  | _, _, .value value _ _ => value.trail

theorem ValueOf.trail : ∀ {schema : Schema} {field : Field} {k : FieldKind} {v : TextCursor},
    r.ValueOf schema field k v → Trail [] r.first v
  | _, _, _, _, .member object _ hm hr =>
    object.trail.trans ((hm.directly.advance hr).mono List.nil_suffix)
  | _, _, _, _, .item list _ hu hr _ => list.trail.trans ((hu.advance hr).mono List.nil_suffix)

end

theorem ObjectOf.kind (h : r.ObjectOf schema o) : o.kind = .objectStart := by
  cases h <;> assumption

-- A value for a field of that name, in an object of the type of that name, starts at the cursor.
def Valued (r : Request) (type field : String) (k : FieldKind) (c : TextCursor) : Prop :=
  ∃ s f, r.ValueOf s f k c ∧ s.typeName = type ∧ f.name = field

variable [UuidFormat]

-- What an error says of the token that the cursor is on.
def Blames (r : Request) (c : TextCursor) : DecodeError → Prop
  | .tokenMismatch type (some field) expected actual _ =>
    c.kind = actual ∧ actual ∉ expected ∧ ∃ k, r.Valued type field k c ∧ expected = k.accepts
  | .tokenMismatch type none expected actual _ =>
    c.kind = actual ∧ actual ∉ expected ∧ c = r.first ∧ expected = .onlyObject ∧
      ∃ s, r.set.get? r.type = some s ∧ s.typeName = type
  | .nullViolation type field _ => c.kind = .null ∧ ∃ k, r.Valued type field k c
  | .invalidScalar type field k reason _ =>
    c.kind ∈ k.accepts ∧ k.read c = .error (.invalid reason) ∧ r.Valued type field (.scalar k) c
  | .unknownField type name _ =>
    ∃ s o, r.ObjectOf s o ∧ s.typeName = type ∧ NamesMember o name c ∧ ∀ f ∈ s.fields, f.name ≠ name
  | .missingFields type names _ =>
    c.kind = .objectEnd ∧ ∃ s o, r.ObjectOf s o ∧ s.typeName = type ∧ Closes o c ∧
      ∀ name ∈ names, (∃ f ∈ s.fields, f.name = name ∧ f.isRequired) ∧ ¬∃ m, NamesMember o name m
  | _ => False

-- A position points at the token that the cursor is on if this is where its text starts in the
-- source, and if the error speaks of this token.
structure PointsAt (r : Request) (source : List UInt8) (e : DecodeError) (p : Position)
    (c : TextCursor) : Prop where
  trail : Trail [] r.first c
  offset : c.start = p.offset
  heads : c.kind.Heads (source.drop p.offset)
  tells : p.Tells source
  blames : r.Blames c e

end Request
end RecordDecoding
