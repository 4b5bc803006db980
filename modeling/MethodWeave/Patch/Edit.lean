import MethodWeave.Patch.Pattern
import MethodWeave.Script.Scope
/-!
Transpilers written as lists of edits.

Each edit changes the instructions at a place, or acts on the lowering pass, and the edits of a
transpiler are done in order; the first that fails ends the transpiler.  Labels and locals go by
names, which start afresh with every run.

A place counts from the beginning, or from the end if it is negative, and is brought into the range
of the instructions; it may be just behind the last one.
-/

namespace MethodWeave

/-- One edit. -/
inductive Edit where
  | insert (place : Int) (code : List Script.Line)
  | remove (place : Int) (count : Nat)
  /-- Repeat an instruction in front of itself. -/
  | duplicate (place : Int)
  | set (place : Int) (value : Script.Value)
  /-- Put another opcode into an instruction. -/
  | copy (place : Int) (opcode : Opcode)
  /-- Change the value of every 32-bit constant that has the value `source`. -/
  | replaceConstant (source target : Int32)
  | label (place : Int) (name : String)
  | unlabel (place : Int)
  /-- Take the labels off one instruction and put them on another.  If either is missing, the
  failure names the place that the labels were to leave. -/
  | moveLabels (place target : Int)
  /-- Name the label that a branch goes to. -/
  | nameTarget (place : Int) (name : String)
  | mark (place : Int) (marker : Marker)
  | unmark (place : Int)
  | declareLocal (type : TypeRef) (name : String)
  | bind (name : String) (target : NativeLabel)
  | resolve (name : String)
  /-- Note the method, the count of instructions and the print mode. -/
  | note
  | fail (message : String)
deriving Repr, Inhabited

namespace Edit

/-- Why an edit could not be done. -/
inductive Failure where
  | noInstruction (place : Nat)
  | instruction (cause : InstructionError)
  | declared (message : String)
deriving DecidableEq, Repr

def Failure.message : Failure → String
  | .noInstruction place => s!"no instruction at {place}"
  | .instruction cause => cause.message
  | .declared message => message

/-- What edits work on. -/
structure State where
  code : List Instruction
  names : Script.Scope
  context : TranspileContext

/-- A place among `length` instructions, or just behind them. -/
def position (length : Nat) (place : Int) : Nat :=
  if place < 0 then (length + place).toNat else min place.toNat length

/-- The effects of edits. -/
abbrev EditM := ExceptT Failure (StateM State)

/-- Build something with names. -/
def withNames {α : Type} (build : ExceptT InstructionError (StateM Script.Scope) α) : EditM α := do
  let (result, names) := build.run (← get).names
  modify fun s => { s with names := names }
  match result with
  | .ok a => return a
  | .error e => throw (.instruction e)

/-- The label of a name. -/
def labelOf (name : String) : EditM Label := do
  let (l, names) := Script.Scope.label name (← get).names
  modify fun s => { s with names := names }
  return l

/-- Act on the lowering pass. -/
def onLowering {α : Type} (action : StateM Lowering α) : EditM α := do
  let (a, lowering) := action.run (← get).context.lowering
  modify fun s => { s with context.lowering := lowering }
  return a

/-- The instruction at a place, with its position. -/
def instructionAt (place : Int) : EditM (Nat × Instruction) := do
  let code := (← get).code
  let p := position code.length place
  match code[p]? with
  | some i => return (p, i)
  | none => throw (.noInstruction p)

/-- Put an instruction in the place of another. -/
def replaceAt (p : Nat) (i : Instruction) : EditM Unit :=
  modify fun s => { s with code := s.code.set p i }

/-- Change the instruction at a place. -/
def changeAt (place : Int) (change : Instruction → EditM Instruction) : EditM Unit := do
  let (p, i) ← instructionAt place
  replaceAt p (← change i)

/-- A constant with a new value, if it is a 32-bit constant with the old one. -/
def replacedConstant (source target : Int32) (i : Instruction) : Instruction :=
  if i.opcode = Opcode.ldcI4 ∧ i.operand.int32? = some source then
    { i with operand := .int32 target }
  else i

/-- Do one edit. -/
def perform : Edit → EditM Unit
  | .insert place code => do
    let new ← withNames (Script.instructions code)
    modify fun s =>
      let p := position s.code.length place
      { s with code := s.code.take p ++ new ++ s.code.drop p }
  | .remove place count =>
    modify fun s =>
      let p := position s.code.length place
      { s with code := s.code.take p ++ s.code.drop (p + count) }
  | .duplicate place => do
    let (p, i) ← instructionAt place
    modify fun s => { s with code := s.code.take p ++ i :: s.code.drop p }
  | .set place value => changeAt place fun i => withNames (Script.store i value)
  | .copy place opcode => changeAt place fun i => withNames (liftExcept (i.copyWith opcode))
  | .replaceConstant source target =>
    modify fun s => { s with code := s.code.map (replacedConstant source target) }
  | .label place name => changeAt place fun i => return i.withLabel (← labelOf name)
  | .unlabel place => changeAt place fun i => return { i with labels := [] }
  | .moveLabels place target => do
    let code := (← get).code
    let p := position code.length place
    match code[p]?, code[position code.length target]? with
    | some i, some _ =>
      replaceAt p { i with labels := [] }
      changeAt target fun j => return i.labels.foldl Instruction.withLabel j
    | _, _ => throw (.noInstruction p)
  | .nameTarget place name => do
    let (_, i) ← instructionAt place
    match i.operand.label? with
    | some l => modify fun s => { s with names := s.names.nameLabel name l }
    | none => return ()
  | .mark place marker => changeAt place fun i => return i.withMarker marker
  | .unmark place => changeAt place fun i => return { i with markers := [] }
  | .declareLocal type name => do
    let slot ← onLowering (Lowering.declareLocal type)
    modify fun s => { s with names := s.names.nameLocal name slot }
  | .bind name target => do
    let l ← labelOf name
    onLowering (modify (Lowering.bind l target))
  | .resolve name => do
    let l ← labelOf name
    discard (onLowering (Lowering.resolve l))
  | .note =>
    modify fun s =>
      { s with
        context.notes := s.context.notes ++
          [s!"note {s.context.method.text} {s.code.length} {s.context.mode.bits.toNat}"] }
  | .fail message => throw (.declared message)
where
  /-- A result that needs no names. -/
  liftExcept {α : Type} (r : Except InstructionError α) :
      ExceptT InstructionError (StateM Script.Scope) α :=
    ExceptT.mk (pure r)

/-- Do edits in order on the instructions of a method. -/
def run (edits : List Edit) (code : List Instruction) :
    TranspileM TranspileError (List Instruction) := do
  let context ← get
  let all : EditM Unit := edits.forM perform
  let start : State := { code := code, names := { supply := context.supply }, context := context }
  let (result, s) := all.run start
  modify fun _ => { s.context with supply := s.names.supply }
  match result with
  | .ok () => return s.code
  | .error e => throw ⟨e.message⟩

/-- The transpiler that does the given edits. -/
def transpiler (name : String) (edits : List Edit) : Transpiler :=
  { name := name, run := run edits }

end Edit

end MethodWeave
