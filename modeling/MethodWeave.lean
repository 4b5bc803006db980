import MethodWeave.Binary.Double
import MethodWeave.Binary.Format
import MethodWeave.Binary.Word
import MethodWeave.Blob.Command
import MethodWeave.Blob.Metadata
import MethodWeave.Body
import MethodWeave.Bytes
import MethodWeave.Code.Payload
import MethodWeave.Code.Reader
import MethodWeave.Decimal.Literal
import MethodWeave.Decimal.Shortest
import MethodWeave.Host.Arithmetic
import MethodWeave.Host.Error
import MethodWeave.Host.Guarded
import MethodWeave.Host.Hooks
import MethodWeave.Host.Installer
import MethodWeave.Host.Machine
import MethodWeave.Host.Module
import MethodWeave.Host.Operation
import MethodWeave.Host.Value
import MethodWeave.Host.Workbench
import MethodWeave.Instruction.Basic
import MethodWeave.Instruction.Decode
import MethodWeave.Instruction.Label
import MethodWeave.Instruction.Listing
import MethodWeave.Instruction.Native
import MethodWeave.Instruction.Operand
import MethodWeave.Instruction.Region
import MethodWeave.Instruction.Value
import MethodWeave.KeyMap
import MethodWeave.Log
import MethodWeave.Main
import MethodWeave.Member
import MethodWeave.Metadata
import MethodWeave.Native.Encode
import MethodWeave.Native.Layout
import MethodWeave.Native.Region
import MethodWeave.Native.Stream
import MethodWeave.Opcode.Basic
import MethodWeave.Opcode.Table
import MethodWeave.Patch.Change
import MethodWeave.Patch.ChangeList
import MethodWeave.Patch.Decorated
import MethodWeave.Patch.Edit
import MethodWeave.Patch.Journal
import MethodWeave.Patch.Pattern
import MethodWeave.Patch.PrintMode
import MethodWeave.Patch.Registry
import MethodWeave.Patch.Session
import MethodWeave.Patch.Site
import MethodWeave.Patch.Transpiler
import MethodWeave.Proofs.Alike
import MethodWeave.Proofs.Blob.Placeholders
import MethodWeave.Proofs.Blob.RoundTrip
import MethodWeave.Proofs.Code.Related
import MethodWeave.Proofs.Code.Spelling
import MethodWeave.Proofs.Code.Words
import MethodWeave.Proofs.Failing
import MethodWeave.Proofs.Host.Balancing
import MethodWeave.Proofs.Host.Building
import MethodWeave.Proofs.Host.Calling
import MethodWeave.Proofs.Host.Comparing
import MethodWeave.Proofs.Host.Epilogue
import MethodWeave.Proofs.Host.Following
import MethodWeave.Proofs.Host.Frames
import MethodWeave.Proofs.Host.History
import MethodWeave.Proofs.Host.Hooking
import MethodWeave.Proofs.Host.Labelling
import MethodWeave.Proofs.Host.Landing
import MethodWeave.Proofs.Host.Looping
import MethodWeave.Proofs.Host.Managing
import MethodWeave.Proofs.Host.Nesting
import MethodWeave.Proofs.Host.Pacing
import MethodWeave.Proofs.Host.PaddedCommit
import MethodWeave.Proofs.Host.Padding
import MethodWeave.Proofs.Host.Patched
import MethodWeave.Proofs.Host.Programs
import MethodWeave.Proofs.Host.Rearranging
import MethodWeave.Proofs.Host.Rebuilding
import MethodWeave.Proofs.Host.Refusing
import MethodWeave.Proofs.Host.Slots
import MethodWeave.Proofs.Host.Stepping
import MethodWeave.Proofs.Host.Straight
import MethodWeave.Proofs.Host.Wrapping
import MethodWeave.Proofs.Instruction.Agreement
import MethodWeave.Proofs.Instruction.Copying
import MethodWeave.Proofs.Instruction.Decoding
import MethodWeave.Proofs.Instruction.LabelRegistry
import MethodWeave.Proofs.Instruction.Labelling
import MethodWeave.Proofs.Instruction.Landing
import MethodWeave.Proofs.Instruction.Lifting
import MethodWeave.Proofs.Instruction.Lowering
import MethodWeave.Proofs.Instruction.MarkersReadBack
import MethodWeave.Proofs.Instruction.ReadBack
import MethodWeave.Proofs.Instruction.Reencoding
import MethodWeave.Proofs.Instruction.Refusals
import MethodWeave.Proofs.Instruction.Regions
import MethodWeave.Proofs.Instruction.Reordering
import MethodWeave.Proofs.Instruction.Shifting
import MethodWeave.Proofs.Instruction.Sizes
import MethodWeave.Proofs.Metadata
import MethodWeave.Proofs.Metadata.Rows
import MethodWeave.Proofs.Metadata.Strings
import MethodWeave.Proofs.Native.Clauses
import MethodWeave.Proofs.Native.Covering
import MethodWeave.Proofs.Native.Encodable
import MethodWeave.Proofs.Native.Encoding
import MethodWeave.Proofs.Native.Interning
import MethodWeave.Proofs.Native.Layout
import MethodWeave.Proofs.Native.Operands
import MethodWeave.Proofs.Native.Refusals
import MethodWeave.Proofs.Native.Regions
import MethodWeave.Proofs.Native.Relabelling
import MethodWeave.Proofs.Native.Retyping
import MethodWeave.Proofs.Native.Widening
import MethodWeave.Proofs.Native.Writing
import MethodWeave.Proofs.Opcode.Forms
import MethodWeave.Proofs.Outcome
import MethodWeave.Proofs.Padded
import MethodWeave.Proofs.Pairwise
import MethodWeave.Proofs.Pass
import MethodWeave.Proofs.Patch.Blind
import MethodWeave.Proofs.Patch.Commit
import MethodWeave.Proofs.Patch.Courses
import MethodWeave.Proofs.Patch.Editing
import MethodWeave.Proofs.Patch.Handling
import MethodWeave.Proofs.Patch.Labelling
import MethodWeave.Proofs.Patch.Ownership
import MethodWeave.Proofs.Patch.Padding
import MethodWeave.Proofs.Patch.Polling
import MethodWeave.Proofs.Patch.Registering
import MethodWeave.Proofs.Patch.Scripted
import MethodWeave.Proofs.Patch.Shims
import MethodWeave.Proofs.Patch.Staging
import MethodWeave.Proofs.Patch.Stopping
import MethodWeave.Proofs.Patch.Unchanged
import MethodWeave.Proofs.Patch.Uniform
import MethodWeave.Proofs.Region.Grouping
import MethodWeave.Proofs.Region.Moving
import MethodWeave.Proofs.Region.Nesting
import MethodWeave.Proofs.Region.Placing
import MethodWeave.Proofs.Region.Scanning
import MethodWeave.Proofs.Region.Sorting
import MethodWeave.Proofs.Region.Tables
import MethodWeave.Script.Drafts
import MethodWeave.Script.Passes
import MethodWeave.Script.Scope
import MethodWeave.Script.Symbols
import MethodWeave.Text.Blank
import MethodWeave.Text.Hex
import MethodWeave.Text.Quoted
import MethodWeave.Text.Unprintable
import MethodWeave.Token
