import RecordDecoding.External.Arguments
import RecordDecoding.External.Libraries

namespace RecordDecoding.Command

-- A file that cannot be read has no bytes.
def File.read (path : String) : IO File := do
  try
    return ⟨path, some (← IO.FS.readBinFile path).toList⟩
  catch _ =>
    return ⟨path, none⟩

end RecordDecoding.Command

open RecordDecoding.Command

def main (args : List String) : IO UInt32 := do
  let _ : Libraries := .standard
  match Request.ofArgs? args with
  | none =>
    IO.eprint usage
    return 2
  | some request =>
    match ← request.run File.read with
    | .ok text =>
      IO.print text
      return 0
    | .error e =>
      IO.eprintln ("error: " ++ e.message)
      return 1
