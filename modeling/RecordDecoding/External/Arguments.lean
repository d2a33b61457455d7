import RecordDecoding.Command.Request

namespace RecordDecoding.Command

-- A number of digits alone.
def count? (arg : String) : Option Nat :=
  if Numeral.isDigits arg.toList then some (Numeral.ofDigits arg.toList) else none

-- Takes the options out of arguments, and leaves the paths.
def Flags.read? : List String → Option (Flags × List String)
  | [] => some ({}, [])
  | "--json" :: args => do
    let (flags, paths) ← read? args
    return ({ flags with asJson := true }, paths)
  | "--no-fast-path" :: args => do
    let (flags, paths) ← read? args
    return ({ flags with noFastPath := true }, paths)
  | "--deny-unknown" :: args => do
    let (flags, paths) ← read? args
    return ({ flags with denyUnknown := true }, paths)
  | "--stats" :: args => do
    let (flags, paths) ← read? args
    return ({ flags with showStats := true }, paths)
  | "--type" :: name :: args => do
    let (flags, paths) ← read? args
    return ({ flags with typeName := flags.typeName.or (some name) }, paths)
  | "--max-depth" :: n :: args => do
    let (flags, paths) ← read? args
    return ({ flags with maxDepth := flags.maxDepth.or (some (← count? n)) }, paths)
  | "--max-list" :: n :: args => do
    let (flags, paths) ← read? args
    return ({ flags with maxList := flags.maxList.or (some (← count? n)) }, paths)
  | arg :: args => do
    if arg.startsWith "--" then failure
    let (flags, paths) ← read? args
    return (flags, arg :: paths)

def Request.ofArgs? : List String → Option Request
  | [] => none
  | command :: args => do
    match command, ← Flags.read? args with
    | "decode", (flags, [schemaPath, payloadPath]) => return .decode schemaPath payloadPath flags
    | "schema", (flags, [schemaPath]) => return .schema schemaPath flags
    | "tokens", (flags, [payloadPath]) => return .tokens payloadPath flags
    | _, _ => none

def usage : String :=
  printLines [
    "usage: decode SCHEMA PAYLOAD [--type NAME] [--json] [--no-fast-path] [--deny-unknown]",
    "                             [--max-depth N] [--max-list N] [--stats]",
    "       schema SCHEMA [--type NAME] [--json]",
    "       tokens PAYLOAD [--json]"]

end RecordDecoding.Command
