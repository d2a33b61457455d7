import RecordDecoding.Command.Basic
import RecordDecoding.Command.Rows

namespace RecordDecoding.Command

structure TokensArgs where
  payload : File
  asJson : Bool := false

def listTokens [Libraries] (args : TokensArgs) : Answer String := do
  let payload ← args.payload.payload
  let rows ← (TokenRow.ofBytes payload.bytes).mapError .cursor
  if args.asJson then
    return printJson <| .object [("payload", .string args.payload.path),
      ("compression", .string payload.compression.label), ("tokens", .array (rows.map (·.toJson)))]
  else
    return printLines <|
      ["payload: " ++ args.payload.path, "compression: " ++ payload.compression.label,
        s!"tokens: {rows.length}"] ++ rows.map (·.line)

end RecordDecoding.Command
