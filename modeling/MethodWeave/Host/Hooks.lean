import MethodWeave.Host.Error
import MethodWeave.Patch.Site
/-!
Calls of hooks around a body.

Hooks that run before the body are called first, with as many of the leading arguments as they
take.  If there are hooks that run after it, every return of the body becomes a jump behind the
body, where the result is saved, the hooks are called and the result is returned; such a hook may
take the result behind all the arguments.  Regions that the body leaves open end in front of the
code behind it.
-/

namespace MethodWeave.Hooks

/-- Load the first `count` arguments. -/
def loadArguments (count : Nat) : List NativeInstruction :=
  (List.range count).map fun i =>
    { opcode := Opcode.ldarg, operand := .argument (UInt16.ofNat i) }

/-- Load a saved result. -/
def loadResult (slot : Local) : NativeInstruction :=
  { opcode := Opcode.ldloc, operand := .local slot }

/-- Call a hook with leading arguments and perhaps the result, and drop what it returns. -/
def call (hook : MethodRef) (args : Nat) (result? : Option Local) : List NativeInstruction :=
  loadArguments args
    ++ result?.toList.map loadResult
    ++ [{ opcode := Opcode.call, operand := .member (.method hook) }]
    ++ (if hook.returnsValue then [{ opcode := Opcode.pop }] else [])

/-- The calls in front of a body. -/
def before (method : MethodRef) (hooks : List MethodRef) :
    Except HostError (List NativeInstruction) := do
  let calls ← hooks.mapM fun hook =>
    if hook.argSlots ≤ method.argSlots then .ok (call hook hook.argSlots none)
    else .error (.incompatibleHook hook method)
  return calls.flatten

/-- The calls behind a body; a hook that takes one argument more than the method gets the result. -/
def after (method : MethodRef) (hooks : List MethodRef) (result? : Option Local) :
    Except HostError (List NativeInstruction) := do
  let calls ← hooks.mapM fun hook =>
    if hook.argSlots ≤ method.argSlots then .ok (call hook hook.argSlots none)
    else if hook.argSlots = method.argSlots + 1 ∧ result?.isSome then
      .ok (call hook method.argSlots result?)
    else .error (.incompatibleHook hook method)
  return calls.flatten

/-- How many regions are open behind markers, with `depth` of them open in front. -/
def depthAfter (depth : Nat) : Marker → Nat
  | .beginTry => depth + 1
  | .endTry => depth - 1
  | _ => depth

/-- How many regions are open at the end of a stream. -/
def openRegions (stream : List NativeInstruction) : Nat :=
  (stream.flatMap (·.markers)).foldl depthAfter 0

/-- A return as a jump to `epilogue`; every other instruction as it is. -/
def redirect (epilogue : NativeLabel) (i : NativeInstruction) : NativeInstruction :=
  if i.opcode = Opcode.ret then { i with opcode := Opcode.br, operand := .label epilogue } else i

/-- Put a label on the first instruction of a stream and end regions in front of it. -/
def beginWith (label : NativeLabel) (ends : Nat) : List NativeInstruction → List NativeInstruction
  | [] => []
  | i :: rest =>
    { i with
      labels := i.labels ++ [label]
      markers := i.markers ++ List.replicate ends .endTry } :: rest

/-- A local for the result of a method, if it has one. -/
def declareResult (method : MethodRef) (g : Generator) : Option Local × Generator :=
  match method.returnType with
  | some type =>
    let (slot, g) := g.declareLocal type
    (some slot, g)
  | none => (none, g)

/-- The code behind a body: save the result, call the hooks, return the result. -/
def epilogue (method : MethodRef) (hooks : List MethodRef) (result? : Option Local) :
    Except HostError (List NativeInstruction) := do
  let calls ← after method hooks result?
  let save := result?.toList.map fun slot => { opcode := Opcode.stloc, operand := .local slot }
  return save ++ calls ++ result?.toList.map loadResult ++ [{ opcode := Opcode.ret }]

/-- Put the calls of a request around a body. -/
def wrap (method : MethodRef) (body : List NativeInstruction) (request : PatchRequest)
    (g : Generator) : Except HostError (List NativeInstruction × Generator) := do
  let front ← before method request.prefixes
  if request.suffixes.isEmpty then return (front ++ body, g)
  else
    let (label, g) := g.defineLabel
    let (result?, g) := declareResult method g
    let back ← epilogue method request.suffixes result?
    return (front ++ body.map (redirect label) ++ beginWith label (openRegions body) back, g)

end MethodWeave.Hooks
