import RecordDecoding.Command.Decode
import RecordDecoding.Command.Schema
import RecordDecoding.Command.Tokens

namespace RecordDecoding.Command

-- The options of all commands; each command has some of them.
structure Flags where
  typeName : Option String := none
  asJson : Bool := false
  noFastPath : Bool := false
  denyUnknown : Bool := false
  maxDepth : Option Nat := none
  maxList : Option Nat := none
  showStats : Bool := false
  deriving DecidableEq, Repr

-- A command with the paths of its files.
inductive Request where
  | decode (schemaPath payloadPath : String) (flags : Flags)
  | schema (path : String) (flags : Flags)
  | tokens (path : String) (flags : Flags)
  deriving DecidableEq, Repr

-- Carries out a request, given what reads files.
def Request.run [Libraries] {m : Type → Type} [Monad m] (read : String → m File) :
    Request → m (Answer String)
  | decode schemaPath payloadPath flags => do
    return Command.decode {
      schema := ← read schemaPath
      payload := ← read payloadPath
      typeName := flags.typeName
      asJson := flags.asJson
      noFastPath := flags.noFastPath
      denyUnknown := flags.denyUnknown
      maxDepth := flags.maxDepth
      maxList := flags.maxList
      showStats := flags.showStats
    }
  | schema path flags => do
    return showSchema {
      schema := ← read path
      typeName := flags.typeName
      asJson := flags.asJson
    }
  | tokens path flags => do
    return listTokens {
      payload := ← read path
      asJson := flags.asJson
    }

end RecordDecoding.Command
