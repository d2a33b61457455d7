import RecordDecoding.Decode.Filling

namespace RecordDecoding

open Decoding Forward

-- Decodes the current value for a field of a schema, as some kind: the field's, or that of an item.
abbrev ValueDecoding (σ : Type) [Cursor σ] := Schema → Field → FieldKind → Decoding σ Value

namespace ValueDecoding

variable {σ : Type} [Cursor σ]

-- The state that a member gives to its field.
def state (value : ValueDecoding σ) (schema : Schema) (field : Field) :
    Decoding σ (TriState Value) := do
  match ← kind with
  | .null =>
    if field.isRequired then fail (.nullViolation schema.typeName field.name (← position))
    else return .null
  | _ => return .value (← value schema field field.kind)

-- Decodes the current value into the slot of a field.
def store (value : ValueDecoding σ) (schema : Schema) (field : Field) (f : Filling) :
    Decoding σ Filling := do
  return f.put field (← value.state schema field)

-- Notes how the name of a field was recognised, or that it was not.
def matchName (schema : Schema) (field : Field) (name : MemberName) : Decoding σ Bool := do
  if name = schema.nameOf field then
    count fun s => { s with identityHits := s.identityHits + 1 }
    return true
  else if name.text = field.name then return true
  else
    report (.stoppedInOrder schema.typeName name.text field.name)
    return false

-- Matches members with the given fields one by one, and stops at the first that is not the next
-- field. What was decoded until then is kept.
def inOrder (value : ValueDecoding σ) (schema : Schema) : List Field → Filling → Decoding σ Filling
  | [], f => return f
  | field :: fields, f => do
    match ← kind with
    | .fieldName =>
      if ← matchName schema field (← fieldName) then
        advance
        let f ← value.store schema field f
        count fun s => { s with inOrder := s.inOrder + 1 }
        advance
        value.inOrder schema fields f
      else return f
    | _ => return f

-- One member whose name no field has, its value included.
def skipMember (opt : DecodeOptions) (schema : Schema) (name : String) : Decoding σ Unit := do
  if opt.denyUnknownFields then
    fail (.unknownField schema.typeName name (← position))
  else
    report (.skipping schema.typeName name)
    advance
    onCursor Cursor.skipValue
    count fun s => { s with skipped := s.skipped + 1 }

-- One member whose name is looked up, or the end of the object.
def lookedUp (value : ValueDecoding σ) (opt : DecodeOptions) (schema : Schema) (f : Filling) :
    Decoding σ (Filling ⊕ Filling) := do
  match ← kind with
  | .objectEnd => return .inr f
  | .fieldName =>
    let name ← fieldName
    match schema.fieldNamed? name.text with
    | some field =>
      advance
      let f ← value.store schema field f
      count fun s => { s with dispatched := s.dispatched + 1 }
      return .inl f
    | none =>
      skipMember opt schema name.text
      return .inl f
  | actual => fail (.tokenMismatch schema.typeName none .memberOrEnd actual (← position))

-- The members up to the end of the object.
def dispatch (value : ValueDecoding σ) (opt : DecodeOptions) (schema : Schema) (f : Filling) :
    Decoding σ Filling :=
  loop advance advance_reads (value.lookedUp opt schema) f

-- The members of an object, from the token after its start on.
def members (value : ValueDecoding σ) (opt : DecodeOptions) (schema : Schema) :
    Decoding σ Record := do
  let f ← if opt.fastPath then value.inOrder schema schema.fields (.blank schema)
    else pure (.blank schema)
  (← value.dispatch opt schema f).complete schema

end ValueDecoding

end RecordDecoding
