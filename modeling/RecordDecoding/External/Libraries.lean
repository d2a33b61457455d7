import RecordDecoding.Command.Basic
import RecordDecoding.External.Document
import RecordDecoding.External.Unpacking
import RecordDecoding.External.Uuid

namespace RecordDecoding.Command

-- Stand-ins for the libraries, for a program to run with. What comes out of bytes is one portion.
@[reducible] def Libraries.standard : Libraries where
  toUuidFormat := .hyphenated
  decompress raw := (Part.unpack? raw).elim .failed (.portion · .finished)
  document? := Document.parse?

end RecordDecoding.Command
