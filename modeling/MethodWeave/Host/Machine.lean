import MethodWeave.Host.Arithmetic
import MethodWeave.Host.Module
/-!
Executing methods on a stack machine.

`step` executes one instruction; a call inside it is answered by whatever the caller of `step` hands
in, so one frame can be looked at apart from the others.  `loop` steps through a body, within a
number of steps given as fuel, and `invoke` ties the calls together: it allows as many nested frames
as its depth says.  Exception handlers are not run; a thrown value ends the execution.

Running out of fuel is told apart from every error of the program (`Halt`).
-/

namespace MethodWeave

/-- Nested frames that are allowed. -/
def maxCallDepth : Nat := 256

/-- A call of a native method, as it is recorded. -/
structure NativeCall where
  name : String
  args : List Value

/-- The call with its arguments. -/
def NativeCall.text (c : NativeCall) : String :=
  c.name ++ "(" ++ ", ".intercalate (c.args.map Value.text) ++ ")"

/-- Why an execution ended without a result. -/
inductive Halt where
  | failed (error : ExecError)
  | outOfFuel

/-- What executions leave behind: labels handed out, log lines and calls of native methods. -/
structure Trace where
  supply : LabelSupply := {}
  log : Log := {}
  calls : List NativeCall := []
deriving Inhabited

/-- The effects of execution. -/
abbrev ExecM := ExceptT Halt (StateM Trace)

/-- How calls are answered. -/
abbrev Callee := MethodRef → List Value → ExecM (Option Value)

namespace ExecM

/-- End with an error of the program. -/
def fail {α : Type} (e : ExecError) : ExecM α := throw (.failed e)

/-- A result without effects. -/
def ofExcept {α : Type} : Except ExecError α → ExecM α
  | .ok a => return a
  | .error e => fail e

end ExecM

/-- The state of one method in execution.  The top of the stack is its first element. -/
structure Frame where
  method : MethodRef
  args : List Value
  locals : List Value
  stack : List Value := []

/-- Where to go on after an instruction. -/
inductive Flow where
  | next
  | jump (label : Label)
  | return (value? : Option Value)

namespace Frame

def push (f : Frame) (v : Value) : Frame := { f with stack := v :: f.stack }

/-- Take the topmost value. -/
def pop (f : Frame) (op : Opcode) : Except ExecError (Value × Frame) :=
  match f.stack with
  | v :: rest => .ok (v, { f with stack := rest })
  | [] => .error (.stackUnderflow f.method op)

/-- Take the topmost `n` values, the one pushed first in front. -/
def popMany (f : Frame) (op : Opcode) (n : Nat) : Except ExecError (List Value × Frame) :=
  if f.stack.length < n then .error (.stackUnderflow f.method op)
  else .ok ((f.stack.take n).reverse, { f with stack := f.stack.drop n })

def argument (f : Frame) (op : Opcode) (slot : UInt16) : Except ExecError Value :=
  match f.args[slot.toNat]? with
  | some v => .ok v
  | none => .error (.badSlot f.method op slot)

def setArgument (f : Frame) (op : Opcode) (slot : UInt16) (v : Value) : Except ExecError Frame :=
  if slot.toNat < f.args.length then .ok { f with args := f.args.set slot.toNat v }
  else .error (.badSlot f.method op slot)

def localValue (f : Frame) (op : Opcode) (slot : UInt16) : Except ExecError Value :=
  match f.locals[slot.toNat]? with
  | some v => .ok v
  | none => .error (.badSlot f.method op slot)

def setLocal (f : Frame) (op : Opcode) (slot : UInt16) (v : Value) : Except ExecError Frame :=
  if slot.toNat < f.locals.length then .ok { f with locals := f.locals.set slot.toNat v }
  else .error (.badSlot f.method op slot)

/-- An error of value arithmetic as an error of this frame. -/
def valueError (f : Frame) (op : Opcode) : ValueError → ExecError
  | .mismatch v => .typeMismatch f.method op v.typeName
  | .undefined => .undefinedResult f.method op

/-- A result of value arithmetic, with errors of this frame. -/
def arithmetic {α : Type} (f : Frame) (op : Opcode) (r : Except ValueError α) :
    Except ExecError α :=
  r.mapError (f.valueError op)

/-- Something that the instruction has to have. -/
def required {α : Type} (f : Frame) (op : Opcode) : Option α → Except ExecError α
  | some a => .ok a
  | none => .error (.unsupported f.method op)

/-- The argument slot that an opcode or its operand names. -/
def argumentSlot (f : Frame) (i : Instruction) : Option UInt16 → Except ExecError UInt16
  | some slot => .ok slot
  | none =>
    match i.operand with
    | .argument slot => .ok slot
    | _ => .error (.unsupported f.method i.opcode)

/-- The local slot that an opcode or its operand names. -/
def localSlot (f : Frame) (i : Instruction) : Option UInt16 → Except ExecError UInt16
  | some slot => .ok slot
  | none => f.required i.opcode (i.operand.local?.map (·.index))

/-- Take two values and work on them, the one pushed first being the first. -/
def onTwo {α : Type} (f : Frame) (op : Opcode) (work : Value → Value → Except ValueError α) :
    Except ExecError (α × Frame) := do
  let (b, f) ← f.pop op
  let (a, f) ← f.pop op
  return (← f.arithmetic op (work a b), f)

/-- Go to the target of a branch if `taken`. -/
def branch (f : Frame) (i : Instruction) (taken : Bool) : Except ExecError (Frame × Flow) :=
  if taken then do
    let l ← f.required i.opcode i.operand.label?
    return (f, .jump l)
  else .ok (f, .next)

/-- The number in an operand. -/
def operandNumber? : Operand → Option Value
  | .int32 v => some (.int32 v)
  | .int64 v => some (.int64 v)
  | .float32 v => some (.float (Double.ofSingle v))
  | .float64 v => some (.float (Double.ofWord v))
  | _ => none

/-- The string in an operand. -/
def operandString? : Operand → Option Value
  | .string (some s) => some (.string s)
  | _ => none

/-- Execute an operation that calls nothing. -/
def execute (f : Frame) (i : Instruction) (operation : Operation) :
    Except ExecError (Frame × Flow) := do
  let op := i.opcode
  match operation with
  | .nothing => return (f, .next)
  | .loadArgument slot? =>
    let v ← f.argument op (← f.argumentSlot i slot?)
    return (f.push v, .next)
  | .storeArgument =>
    let slot ← f.argumentSlot i none
    let (v, f) ← f.pop op
    return (← f.setArgument op slot v, .next)
  | .loadLocal slot? =>
    let v ← f.localValue op (← f.localSlot i slot?)
    return (f.push v, .next)
  | .storeLocal slot? =>
    let slot ← f.localSlot i slot?
    let (v, f) ← f.pop op
    return (← f.setLocal op slot v, .next)
  | .loadNull => return (f.push .null, .next)
  | .loadInt value => return (f.push (.int32 value), .next)
  | .loadNumber =>
    let v ← f.required op (operandNumber? i.operand)
    return (f.push v, .next)
  | .loadString =>
    let v ← f.required op (operandString? i.operand)
    return (f.push v, .next)
  | .duplicate =>
    let (v, f) ← f.pop op
    return ((f.push v).push v, .next)
  | .discard =>
    let (_, f) ← f.pop op
    return (f, .next)
  | .binary b =>
    let (v, f) ← f.onTwo op b.apply
    return (f.push v, .next)
  | .shift s =>
    let (v, f) ← f.onTwo op s.apply
    return (f.push v, .next)
  | .negate =>
    let (v, f) ← f.pop op
    return (f.push (← f.arithmetic op v.negate), .next)
  | .complement =>
    let (v, f) ← f.pop op
    return (f.push (← f.arithmetic op v.complement), .next)
  | .convert type =>
    let (v, f) ← f.pop op
    return (f.push (← f.arithmetic op (v.convert type)), .next)
  | .testEqual =>
    let (b, f) ← f.onTwo op Value.equals
    return (f.push (.ofBool b), .next)
  | .test relation isUnsigned =>
    let (b, f) ← f.onTwo op (relation.test isUnsigned)
    return (f.push (.ofBool b), .next)
  | .branch => f.branch i true
  | .branchIf truth =>
    let (v, f) ← f.pop op
    f.branch i (v.isTruthy == truth)
  | .branchEqual equal =>
    let (b, f) ← f.onTwo op Value.equals
    f.branch i (b == equal)
  | .branchTest relation isUnsigned =>
    let (b, f) ← f.onTwo op (relation.test isUnsigned)
    f.branch i b
  | .switch =>
    let (v, f) ← f.pop op
    match v, i.operand with
    | .int32 index, .switch targets =>
      match targets[index.toUInt32.toNat]? with
      | some l => return (f, .jump l)
      | none => return (f, .next)
    | .int32 _, _ => throw (.unsupported f.method op)
    | v, _ => throw (.typeMismatch f.method op v.typeName)
  | .ret =>
    if f.method.returnsValue then
      let (v, f) ← f.pop op
      return (f, .return (some v))
    else return (f, .return none)
  | .throw =>
    let (v, _) ← f.pop op
    throw (.thrown v)
  | .call => throw (.unsupported f.method op)

end Frame

namespace Machine

/-- Execute a call: the arguments are taken from the stack, and the result is pushed if the method
is to have one; a method that gives none leaves null. -/
def callStep (callee : Callee) (f : Frame) (i : Instruction) : ExecM (Frame × Flow) := do
  let m ← ExecM.ofExcept (f.required i.opcode i.operand.method?)
  let (args, f) ← ExecM.ofExcept (f.popMany i.opcode m.argSlots)
  let result ← callee m args
  return (if m.returnsValue then f.push (result.getD .null) else f, .next)

/-- Execute one instruction. -/
def step (callee : Callee) (f : Frame) (i : Instruction) : ExecM (Frame × Flow) :=
  match Operation.ofOpcode? i.opcode with
  | none => ExecM.fail (.unsupported f.method i.opcode)
  | some .call => callStep callee f i
  | some operation => ExecM.ofExcept (f.execute i operation)

/-- A body that is ready to run: its instructions, and the place of every label. -/
structure Program where
  code : Array Instruction
  targets : List (Label × Nat)

/-- The place of every label in a list of instructions that begins at `index`. -/
def labelPlaces (index : Nat) : List Instruction → List (Label × Nat)
  | [] => []
  | i :: rest => i.labels.map (fun l => (l, index)) ++ labelPlaces (index + 1) rest

def Program.ofInstructions (code : List Instruction) : Program :=
  { code := code.toArray, targets := labelPlaces 0 code }

/-- Log the instruction that is about to be executed. -/
def traceStep (method : MethodRef) (pc : Nat) (i : Instruction) (t : Trace) : Trace :=
  { t with log := t.log.write .trace fun _ => s!"{method.text} {pc}: {i.text}" }

/-- Step through a program from `pc` on. -/
def loop (callee : Callee) (p : Program) : (fuel : Nat) → (pc : Nat) → Frame → ExecM (Option Value)
  | 0, _, _ => throw .outOfFuel
  | fuel + 1, pc, f => do
    match p.code[pc]? with
    | none => ExecM.fail (.fellThrough f.method)
    | some i =>
      modify (traceStep f.method pc i)
      let (next, flow) ← step callee f i
      match flow with
      | .next => loop callee p fuel (pc + 1) next
      | .jump l =>
        match p.targets.lookup l with
        | some target => loop callee p fuel target next
        | none => ExecM.fail (.invalidTarget f.method l)
      | .return v => return v

/-- Run a body of a method. -/
def runBody (metadata : MetadataTables) (fuel : Nat) (callee : Callee) (method : MethodRef)
    (body : Body) (args : List Value) : ExecM (Option Value) := do
  let (decoded, labels) := body.decode metadata (← get).supply
  modify fun t => { t with supply := labels.supply }
  match decoded with
  | .error e => ExecM.fail (.instruction e)
  | .ok code =>
    loop callee (.ofInstructions code) fuel 0
      { method := method, args := args, locals := body.locals.map fun t => Value.zeroOf t.name }

/-- Record a native call and carry it out. -/
def runNative (native : NativeMethod) (args : List Value) : ExecM (Option Value) := do
  modify fun t => { t with calls := t.calls ++ [{ name := native.name, args := args }] }
  ExecM.ofExcept (native.run args)

/-- Call a method.  `nested?` answers the calls of a managed method; without it there is no frame
left for one. -/
def enter (m : Module) (fuel : Nat) (nested? : Option Callee) (method : MethodRef)
    (args : List Value) : ExecM (Option Value) :=
  if args.length ≠ method.argSlots then
    ExecM.fail (.argumentCount method method.argSlots args.length)
  else
    match m.implementation? method with
    | none => ExecM.fail (.noImplementation method)
    | some (.native native) => runNative native args
    | some (.managed managed) =>
      match nested? with
      | none => ExecM.fail (.callDepth maxCallDepth)
      | some callee => runBody m.metadata fuel callee method managed.active args

/-- Call a method with room for `depth` nested frames, each of at most `fuel` steps. -/
def invokeWithin (m : Module) (fuel : Nat) : (depth : Nat) → Callee
  | 0 => enter m fuel none
  | depth + 1 => enter m fuel (some (invokeWithin m fuel depth))

end Machine

/-- Call a method of a module. -/
def Module.invoke (m : Module) (fuel : Nat) (method : MethodRef) (args : List Value) :
    ExecM (Option Value) :=
  Machine.invokeWithin m fuel maxCallDepth method args

end MethodWeave
