import RecordDecoding.Base64
import RecordDecoding.Command.Basic
import RecordDecoding.Command.Decode
import RecordDecoding.Command.Request
import RecordDecoding.Command.Rows
import RecordDecoding.Command.Schema
import RecordDecoding.Command.Tokens
import RecordDecoding.Cursor.Basic
import RecordDecoding.Cursor.Error
import RecordDecoding.Cursor.Reader
import RecordDecoding.Cursor.Replay
import RecordDecoding.Cursor.Text
import RecordDecoding.Decode.Error
import RecordDecoding.Decode.Filling
import RecordDecoding.Decode.Members
import RecordDecoding.Decode.Record
import RecordDecoding.Decode.Scalar
import RecordDecoding.Decode.Session
import RecordDecoding.External.Arguments
import RecordDecoding.External.Block
import RecordDecoding.External.Document
import RecordDecoding.External.Frame
import RecordDecoding.External.JsonText
import RecordDecoding.External.Libraries
import RecordDecoding.External.Unpacking
import RecordDecoding.External.Uuid
import RecordDecoding.Forward
import RecordDecoding.Json.Basic
import RecordDecoding.Json.Lexeme
import RecordDecoding.Json.Writer
import RecordDecoding.Main
import RecordDecoding.Number.Binary
import RecordDecoding.Number.Layout
import RecordDecoding.Number.Read
import RecordDecoding.Number.Shortest
import RecordDecoding.Payload
import RecordDecoding.Presence
import RecordDecoding.Proofs.Answers
import RecordDecoding.Proofs.Base64
import RecordDecoding.Proofs.Base64.Groups
import RecordDecoding.Proofs.Command.Tokens
import RecordDecoding.Proofs.Cutting
import RecordDecoding.Proofs.Decode.Balance
import RecordDecoding.Proofs.Decode.Blaming
import RecordDecoding.Proofs.Decode.Cancelling
import RecordDecoding.Proofs.Decode.Composed
import RecordDecoding.Proofs.Decode.Conforms
import RecordDecoding.Proofs.Decode.Correspondence
import RecordDecoding.Proofs.Decode.Counting
import RecordDecoding.Proofs.Decode.Culprits
import RecordDecoding.Proofs.Decode.FastPath
import RecordDecoding.Proofs.Decode.Faults
import RecordDecoding.Proofs.Decode.Feed
import RecordDecoding.Proofs.Decode.Feeding
import RecordDecoding.Proofs.Decode.Filling
import RecordDecoding.Proofs.Decode.Floats
import RecordDecoding.Proofs.Decode.Guards
import RecordDecoding.Proofs.Decode.Integers
import RecordDecoding.Proofs.Decode.Leading
import RecordDecoding.Proofs.Decode.Limits
import RecordDecoding.Proofs.Decode.Meaning
import RecordDecoding.Proofs.Decode.OneValue
import RecordDecoding.Proofs.Decode.Padding
import RecordDecoding.Proofs.Decode.Passing
import RecordDecoding.Proofs.Decode.Pointing
import RecordDecoding.Proofs.Decode.Progress
import RecordDecoding.Proofs.Decode.Reading
import RecordDecoding.Proofs.Decode.Reordering
import RecordDecoding.Proofs.Decode.Replaying
import RecordDecoding.Proofs.Decode.RoundTrip
import RecordDecoding.Proofs.Decode.Session
import RecordDecoding.Proofs.Decode.Sources
import RecordDecoding.Proofs.Decode.Tally
import RecordDecoding.Proofs.Decode.TokenTree
import RecordDecoding.Proofs.Decode.Trees
import RecordDecoding.Proofs.Decode.Truncating
import RecordDecoding.Proofs.Decode.Verdict
import RecordDecoding.Proofs.Json.Bounds
import RecordDecoding.Proofs.Json.Brackets
import RecordDecoding.Proofs.Json.Calls
import RecordDecoding.Proofs.Json.Completing
import RecordDecoding.Proofs.Json.Due
import RecordDecoding.Proofs.Json.Endings
import RecordDecoding.Proofs.Json.Escapes
import RecordDecoding.Proofs.Json.Grammar
import RecordDecoding.Proofs.Json.Marking
import RecordDecoding.Proofs.Json.Members
import RecordDecoding.Proofs.Json.Moves
import RecordDecoding.Proofs.Json.Outline
import RecordDecoding.Proofs.Json.Prolonging
import RecordDecoding.Proofs.Json.Reading
import RecordDecoding.Proofs.Json.Scan
import RecordDecoding.Proofs.Json.Signs
import RecordDecoding.Proofs.Json.Sitting
import RecordDecoding.Proofs.Json.Soundness
import RecordDecoding.Proofs.Json.Spelling
import RecordDecoding.Proofs.Json.Standing
import RecordDecoding.Proofs.Json.Strings
import RecordDecoding.Proofs.Json.Touring
import RecordDecoding.Proofs.Json.Walking
import RecordDecoding.Proofs.Json.Wanting
import RecordDecoding.Proofs.Json.Writer
import RecordDecoding.Proofs.Lockstep
import RecordDecoding.Proofs.Number.Canonical
import RecordDecoding.Proofs.Number.Floats
import RecordDecoding.Proofs.Number.Integers
import RecordDecoding.Proofs.Number.Literal
import RecordDecoding.Proofs.Number.Rounding
import RecordDecoding.Proofs.Payload
import RecordDecoding.Proofs.Position
import RecordDecoding.Proofs.Presence
import RecordDecoding.Proofs.Presence.Checked
import RecordDecoding.Proofs.Presence.Sets
import RecordDecoding.Proofs.Promises
import RecordDecoding.Proofs.Record.Excerpt
import RecordDecoding.Proofs.Rounds
import RecordDecoding.Proofs.Schema.Clashes
import RecordDecoding.Proofs.Schema.Declaring
import RecordDecoding.Proofs.Schema.Describing
import RecordDecoding.Proofs.Schema.Fields
import RecordDecoding.Proofs.Schema.Registry
import RecordDecoding.Proofs.Schema.Scope
import RecordDecoding.Proofs.Schema.Stored
import RecordDecoding.Proofs.Schema.TypeSpec
import RecordDecoding.Proofs.Schema.WellFormed
import RecordDecoding.Proofs.Skipping
import RecordDecoding.Proofs.Text.Bytes
import RecordDecoding.Proofs.Uuid
import RecordDecoding.Record.Json
import RecordDecoding.Record.Reading
import RecordDecoding.Record.Tree
import RecordDecoding.Record.Value
import RecordDecoding.Schema.Basic
import RecordDecoding.Schema.Declaration
import RecordDecoding.Schema.Document
import RecordDecoding.Schema.Error
import RecordDecoding.Schema.Registry
import RecordDecoding.Schema.Scalar
import RecordDecoding.Schema.TypeSpec
import RecordDecoding.Text.Alphabetic
import RecordDecoding.Text.Bytes
import RecordDecoding.Text.GraphemeExtend
import RecordDecoding.Text.Hex
import RecordDecoding.Text.Numeric
import RecordDecoding.Text.Quoted
import RecordDecoding.Text.Ranges
import RecordDecoding.Text.Unprintable
import RecordDecoding.Text.WhiteSpace
import RecordDecoding.Token.Basic
import RecordDecoding.Token.Kind
import RecordDecoding.Token.Position
import RecordDecoding.Uuid
