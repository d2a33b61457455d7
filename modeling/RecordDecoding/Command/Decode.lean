import RecordDecoding.Command.Basic
import RecordDecoding.Cursor.Text
import RecordDecoding.Decode.Record
import RecordDecoding.Record.Json
import RecordDecoding.Record.Tree

namespace RecordDecoding.Command

structure DecodeArgs where
  schema : File
  payload : File
  typeName : Option String := none
  asJson : Bool := false
  noFastPath : Bool := false
  denyUnknown : Bool := false
  maxDepth : Option Nat := none
  maxList : Option Nat := none
  showStats : Bool := false

namespace DecodeArgs

def options (args : DecodeArgs) : DecodeOptions where
  maxDepth := args.maxDepth.getD DecodeOptions.default.maxDepth
  maxListLength := args.maxList.getD DecodeOptions.default.maxListLength
  fastPath := !args.noFastPath
  denyUnknownFields := args.denyUnknown

end DecodeArgs

-- What decoding gave.
structure Decoded where
  compression : Compression
  typeName : String
  record : Option Record
  stats : DecodeStats

def Decoded.ofArgs [Libraries] (args : DecodeArgs) : Answer Decoded := do
  let loaded ← args.schema.schema
  let id ← selectType loaded args.typeName
  let payload ← args.payload.payload
  let cursor ← (TextCursor.ofBytes payload.bytes).mapError .cursor
  match (decodeRecord loaded.set id args.options).run { cursor } with
  | .error e _ => throw (.decode e)
  | .ok record session =>
    (TextCursor.finish.run session.cursor).result.mapError .cursor
    return {
      compression := payload.compression
      typeName := ((loaded.set.get? id).map (·.typeName)).getD ""
      record
      stats := session.stats
    }

def statsJson (s : DecodeStats) : Json :=
  .object [("objects", .ofNat s.objects), ("in_order", .ofNat s.inOrder),
    ("identity_hits", .ofNat s.identityHits), ("dispatched", .ofNat s.dispatched),
    ("skipped", .ofNat s.skipped)]

def statsLine (s : DecodeStats) : String :=
  s!"stats: objects={s.objects} in_order={s.inOrder} identity_hits={s.identityHits} "
    ++ s!"dispatched={s.dispatched} skipped={s.skipped}"

namespace Decoded

variable [Libraries]

def toJson (d : Decoded) (args : DecodeArgs) : Json :=
  .object <|
    [("payload", .string args.payload.path), ("compression", .string d.compression.label),
      ("type", .string d.typeName), ("value", (d.record.map (·.toJson)).getD .null)]
    ++ if args.showStats then [("stats", statsJson d.stats)] else []

def text (d : Decoded) (args : DecodeArgs) : String :=
  let head :=
    ["schema: " ++ args.schema.path, "payload: " ++ args.payload.path,
      "compression: " ++ d.compression.label, "type: " ++ d.typeName]
    ++ (if args.showStats then [statsLine d.stats] else [])
    ++ ["decoded:"]
  printLines head ++ (d.record.map (·.tree {})).getD "null\n"

end Decoded

def decode [Libraries] (args : DecodeArgs) : Answer String := do
  let d ← Decoded.ofArgs args
  return if args.asJson then printJson (d.toJson args) else d.text args

end RecordDecoding.Command
