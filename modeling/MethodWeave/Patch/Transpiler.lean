import MethodWeave.Instruction.Listing
import MethodWeave.Instruction.Native
import MethodWeave.Patch.PrintMode
import MethodWeave.Patch.Journal
/-!
Transpilers, and the stage that runs a chain of them on one method.

A transpiler is a named function from instructions to instructions.  Besides the instructions it
sees the method and a lowering pass, from which it gets labels and locals.  The rewrite stage lifts
a native stream, runs the chain over it and lowers the result in the same pass; it works for the
one method it was built for.
-/

namespace MethodWeave

/-- What a transpiler has to say about its failure. -/
structure TranspileError where
  message : String
deriving DecidableEq, Repr

/-- What a transpiler works with besides the instructions. -/
structure TranspileContext where
  method : MethodRef
  mode : PrintMode
  supply : LabelSupply
  lowering : Lowering
  notes : List String

/-- The effects and failures of a transpiler. -/
abbrev TranspileM (ε : Type) := ExceptT ε (StateM TranspileContext)

/-- A named pass over the instructions of a method. -/
structure Transpiler where
  name : String
  run : List Instruction → TranspileM TranspileError (List Instruction)

/-- Transpilers are told apart by name in messages. -/
def Transpiler.describe (t : Transpiler) : String := "Transpiler(" ++ Text.quoted t.name ++ ")"

/-- Errors of a rewrite stage. -/
inductive RewriteError where
  | instruction (cause : InstructionError)
  | transpiler (name : String) (cause : TranspileError)
  | unknownMethod (method : MethodRef)
deriving Repr

def RewriteError.message : RewriteError → String
  | .instruction cause => cause.message
  | .transpiler name _ => "transpiler `" ++ name ++ "` failed"
  | .unknownMethod m => "rewrite stage invoked for unknown method " ++ m.text

/-- The word for the kind of error; an error of another family is named behind its family. -/
def RewriteError.kind : RewriteError → String
  | .instruction cause => "Ir." ++ cause.kind
  | .transpiler _ _ => "Transpiler"
  | .unknownMethod _ => "UnknownMethod"

namespace TranspileContext

/-- Add a log line. -/
def write (c : TranspileContext) (level : Level) (line : Unit → String) : TranspileContext :=
  { c with lowering.log := c.lowering.log.write level line }

/-- Log a listing if the print mode has the flag. -/
def record (c : TranspileContext) (flag : PrintMode) (which : String) (code : List Instruction) :
    TranspileContext :=
  if c.mode.contains flag then
    c.write .info fun _ =>
      "========== " ++ which ++ " method " ++ c.method.text ++ " ==========\n" ++ listing code
  else c

end TranspileContext

/-- Run one transpiler; its failure is reported under its name. -/
def Transpiler.apply (t : Transpiler) (code : List Instruction) :
    TranspileM RewriteError (List Instruction) := do
  modify fun c => c.write .trace fun _ => "Running transpiler " ++ t.name ++ " on " ++ c.method.text
  ExceptT.adapt (.transpiler t.name) (t.run code)

/-- Run a chain of transpilers, each on the result of the one before. -/
def Transpiler.chain (ts : List Transpiler) (code : List Instruction) :
    TranspileM RewriteError (List Instruction) :=
  ts.foldlM (fun code t => t.apply code) code

/-- The transpilers of one method, in the order in which they run. -/
structure RewriteStage where
  method : MethodRef
  transpilers : List Transpiler
  mode : PrintMode

namespace RewriteStage

/-- Lift a stream, run the chain and lower the result. -/
def rewrite (stage : RewriteStage) (stream : List NativeInstruction) :
    TranspileM RewriteError (List NativeInstruction) := do
  let (lifted, supply) := Instruction.ofNative stream (← get).supply
  modify fun c => { c with supply := supply }
  match lifted with
  | .error e => throw (.instruction e)
  | .ok code =>
    modify fun c => c.record .before "Original" code
    let code ← Transpiler.chain stage.transpilers code
    modify fun c => c.record .after "Patched" code
    let (lowered, pass) := (Instruction.lowerAll code).run (← get).lowering
    modify fun c => { c with lowering := pass }
    match lowered with
    | .error e => throw (.instruction e)
    | .ok stream => return stream

/-- Run the stage on the native form of `method`, drawing on its generator. -/
def run (stage : RewriteStage) (method : MethodRef) (stream : List NativeInstruction)
    (generator : Generator) (journal : Journal) :
    Except RewriteError (List NativeInstruction × Generator) × Journal :=
  if method == stage.method then
    let (result, c) := (stage.rewrite stream).run
      { method := method
        mode := stage.mode
        supply := journal.supply
        lowering :=
          { generator := generator, level := stage.mode.emitLevel, log := journal.log }
        notes := journal.notes }
    (result.map fun stream => (stream, c.lowering.generator),
      { supply := c.supply, log := c.lowering.log, notes := c.notes })
  else (.error (.unknownMethod method), journal)

end RewriteStage

end MethodWeave
