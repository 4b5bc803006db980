import MethodWeave.Blob.Command
/-!
The command line: `disasm FILE [--locals N]` and `roundtrip FILE [--locals N]`.
-/

namespace MethodWeave.CommandLine

open Blob

/-- What the arguments ask for. -/
structure Request where
  command : Command
  path : String
  locals : Nat := 256

/-- A count in decimal digits, at least one of them, behind an optional plus. -/
def count? (text : String) : Option Nat :=
  let digits := match text.toList with
    | '+' :: rest => rest
    | all => all
  if !digits.isEmpty && digits.all Char.isDigit then
    some (digits.foldl (fun n d => 10 * n + (d.toNat - '0'.toNat)) 0)
  else none

/-- Read the options behind the command word. -/
def parseRest (command : Command) : List String → Option String → Nat → Option Request
  | [], some path, locals => some { command, path, locals }
  | [], none, _ => none
  | "--locals" :: n :: rest, path?, _ => do parseRest command rest path? (← count? n)
  | path :: rest, none, locals => parseRest command rest (some path) locals
  | _ :: _, some _, _ => none

/-- Read the arguments. -/
def parse : List String → Option Request
  | word :: rest => do
    let command ← Command.ofName? word
    parseRest command rest none 256
  | [] => none

def usage : String := "usage: (disasm | roundtrip) FILE [--locals N]\n"

/-- The bytes of a file, if it can be read. -/
def load (path : String) : IO (Option (List UInt8)) := do
  try
    let bytes ← IO.FS.readBinFile path
    return some bytes.toList
  catch _ => return none

end MethodWeave.CommandLine

/-- Run the command that the arguments name. -/
def main (args : List String) : IO UInt32 := do
  match MethodWeave.CommandLine.parse args with
  | none =>
    (← IO.getStderr).putStr MethodWeave.CommandLine.usage
    return 2
  | some request =>
    let content ← MethodWeave.CommandLine.load request.path
    let report := request.command.run request.path content request.locals
    (← IO.getStdout).putStr report.out
    (← IO.getStderr).putStr report.err
    return UInt32.ofNat report.status
