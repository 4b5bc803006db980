import MethodWeave.Blob.Metadata
import MethodWeave.Instruction.Decode
import MethodWeave.Instruction.Native
/-!
The commands on code blobs: show the instructions, or check that decoding and encoding give the
same bytes again.  A command is a function from what the file holds to what is printed and the exit
status.
-/

namespace MethodWeave.Blob

/-- What a command prints, and its exit status. -/
structure Report where
  status : Nat := 0
  out : String := ""
  err : String := ""
deriving Repr, Inhabited

/-- A report of nothing but an error. -/
def Report.failure (message : String) : Report :=
  { status := 1, err := "Error: " ++ message ++ "\n" }

/-- The report for a count of local slots that 16 bits cannot hold. -/
def Report.tooManyLocals (locals : Nat) : Report :=
  { status := 2
    err := s!"error: invalid value '{locals}' for '--locals <LOCALS>': {locals} is not in 0..=65535"
      ++ "\n\nFor more information, try '--help'.\n" }

/-- The body that a blob is taken for: every local slot is declared as an object. -/
def bodyOf (code : List UInt8) (locals : Nat) : Body :=
  { code := code, locals := List.replicate locals BlobMetadata.object }

/-- A blob with its metadata and instructions, or the message of the first error. -/
def decoded (code : List UInt8) (locals : Nat) :
    Except String (BlobMetadata × List Instruction) := do
  let metadata ← (BlobMetadata.scan code).mapError ReadError.message
  let instructions ←
    ((bodyOf code locals).decode metadata {}).1.mapError InstructionError.message
  return (metadata, instructions)

/-- The line of an instruction behind its offset. -/
def offsetLine (i : Instruction) : String :=
  match i.offset? with
  | some offset => "IL_" ++ Text.hex 4 offset ++ ":  " ++ i.text ++ "\n"
  | none => "         " ++ i.text ++ "\n"

/-- Show the instructions of a blob, each with its offset. -/
def disassemble (path : String) (code : List UInt8) (locals : Nat) : Report :=
  match decoded code locals with
  | .error e => .failure e
  | .ok (_, instructions) =>
    { out := s!"# {path} ({code.length} bytes, {instructions.length} instructions)\n\n"
        ++ String.join (instructions.map offsetLine) }

/-- The code that a blob's instructions encode to. -/
def reencoded (metadata : BlobMetadata) (locals : List TypeRef) (instructions : List Instruction) :
    Except String (List UInt8) := do
  let (stream, g) := Instruction.lowerWith (.withLocals locals) instructions
  let stream ← stream.mapError InstructionError.message
  let (body, _) := g.encode stream metadata
  return (← body.mapError EncodeError.message).code

/-- The first place at which two codes differ; the end of the shorter if they agree that far. -/
def firstDifference : List UInt8 → List UInt8 → Nat
  | a :: as, b :: bs => if a = b then firstDifference as bs + 1 else 0
  | _, _ => 0

/-- Decode and encode a blob, and compare the bytes. -/
def roundTrip (code : List UInt8) (locals : Nat) : Report :=
  match decoded code locals with
  | .error e => .failure e
  | .ok (metadata, instructions) =>
    match reencoded metadata (bodyOf code locals).locals instructions with
    | .error e => .failure e
    | .ok again =>
      if again = code then
        { out := s!"identical ({code.length} bytes, {instructions.length} instructions)\n" }
      else
        { status := 1
          err := "differs at byte 0x" ++ Text.hex 1 (firstDifference again code)
            ++ s!" ({code.length} bytes in, {again.length} bytes out)\n" }

/-- The commands. -/
inductive Command where
  | disassemble
  | roundTrip
deriving DecidableEq, Repr

/-- The word that names a command on the command line. -/
def Command.ofName? : String → Option Command
  | "disasm" => some .disassemble
  | "roundtrip" => some .roundTrip
  | _ => none

/-- Run a command on what a file holds; `none` stands for a file that does not exist.  The count of
locals is checked before the file. -/
def Command.run (command : Command) (path : String) (content : Option (List UInt8))
    (locals : Nat) : Report :=
  if 65535 < locals then .tooManyLocals locals
  else
    match content with
    | none => .failure (path ++ ": No such file or directory (os error 2)")
    | some code =>
      match command with
      | .disassemble => Blob.disassemble path code locals
      | .roundTrip => Blob.roundTrip code locals

end MethodWeave.Blob
