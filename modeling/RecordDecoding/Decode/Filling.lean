import RecordDecoding.Decode.Session
import RecordDecoding.Record.Value

namespace RecordDecoding

open Decoding Forward

structure Filling where
  slots : List (TriState Value)
  seen : Presence

namespace Filling

-- No member was read yet.
def blank (schema : Schema) : Filling where
  slots := List.replicate schema.length .undefined
  seen := schema.seed

-- A later member of the same name replaces an earlier one.
def put (f : Filling) (field : Field) (state : TriState Value) : Filling where
  slots := f.slots.set field.ordinal state
  seen := f.seen.mark field.ordinal

-- The fields that were not satisfied, in the order of their ordinals.
def missing (f : Filling) (schema : Schema) : List Field :=
  f.seen.missing.filterMap schema.field?

-- What a field shows of its state: absence and null look the same unless they are told apart.
def slotOf (field : Field) (state : TriState Value) : Slot Value :=
  if field.triState then .optional state else .value (state.toOption.getD .null)

def record (f : Filling) (schema : Schema) : Record where
  typeName := schema.typeName
  fields := List.zipWith (fun field state => ⟨field.name, slotOf field state⟩) schema.fields f.slots

-- Makes the record at the end of its object.
def complete {σ : Type} [Cursor σ] (f : Filling) (schema : Schema) : Decoding σ Record := do
  if f.seen.isComplete then return f.record schema
  else
    let names := (f.missing schema).map (·.name)
    report (.fieldsMissing schema.typeName names.length)
    fail (.missingFields schema.typeName names (← position))

end Filling

end RecordDecoding
