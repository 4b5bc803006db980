import MethodWeave.Host.Value
import MethodWeave.Patch.Transpiler
/-!
Errors of executing methods and of giving them bodies.
-/

namespace MethodWeave

/-- Errors of executing a method. -/
inductive ExecError where
  | instruction (cause : InstructionError)
  | noImplementation (method : MethodRef)
  | argumentCount (method : MethodRef) (expected actual : Nat)
  | stackUnderflow (method : MethodRef) (opcode : Opcode)
  | typeMismatch (method : MethodRef) (opcode : Opcode) (found : String)
  /-- Division by zero, or a quotient out of range. -/
  | undefinedResult (method : MethodRef) (opcode : Opcode)
  | badSlot (method : MethodRef) (opcode : Opcode) (slot : UInt16)
  | invalidTarget (method : MethodRef) (label : Label)
  | unsupported (method : MethodRef) (opcode : Opcode)
  | fellThrough (method : MethodRef)
  | callDepth (limit : Nat)
  /-- A value was thrown and nothing caught it. -/
  | thrown (value : Value)
  /-- What a native method has to say about its failure. -/
  | native (message : String)
deriving Inhabited

def ExecError.message : ExecError → String
  | .instruction cause => cause.message
  | .noImplementation m => m.text ++ " has no implementation"
  | .argumentCount m expected actual => s!"{m.text} takes {expected} arguments, got {actual}"
  | .stackUnderflow m op => s!"{m.text}: stack underflow at `{op.mnemonic}`"
  | .typeMismatch m op found => s!"{m.text}: `{op.mnemonic}` cannot operate on {found}"
  | .undefinedResult m op => s!"{m.text}: `{op.mnemonic}` divided by zero or overflowed"
  | .badSlot m op slot =>
    s!"{m.text}: `{op.mnemonic}` refers to slot {slot.toNat}, which does not exist"
  | .invalidTarget m label => s!"{m.text}: branch to {label.text}, which marks no instruction"
  | .unsupported m op => s!"{m.text}: `{op.mnemonic}` is not supported"
  | .fellThrough m => m.text ++ ": execution ran past the end of the body"
  | .callDepth limit => s!"call depth exceeded {limit}"
  | .thrown v => "unhandled exception: " ++ v.text
  | .native message => message

/-- The word for the kind of error; an error of another family is named behind its family. -/
def ExecError.kind : ExecError → String
  | .instruction cause => "Ir." ++ cause.kind
  | .noImplementation _ => "NoImplementation"
  | .argumentCount _ _ _ => "ArgumentCount"
  | .stackUnderflow _ _ => "StackUnderflow"
  | .typeMismatch _ _ _ => "TypeMismatch"
  | .undefinedResult _ _ => "Arithmetic"
  | .badSlot _ _ _ => "BadSlot"
  | .invalidTarget _ _ => "InvalidTarget"
  | .unsupported _ _ => "Unsupported"
  | .fellThrough _ => "FellThrough"
  | .callDepth _ => "CallDepth"
  | .thrown _ => "Thrown"
  | .native _ => "Native"

/-- Errors of giving a method a body. -/
inductive HostError where
  | instruction (cause : InstructionError)
  | encode (cause : EncodeError)
  | rewrite (cause : RewriteError)
  | notManaged (method : MethodRef)
  | incompatibleHook (hook method : MethodRef)
  | ownerMismatch (method : MethodRef) (owner installed : String)
deriving Repr

def HostError.message : HostError → String
  | .instruction cause => cause.message
  | .encode cause => cause.message
  | .rewrite cause => cause.message
  | .notManaged m => m.text ++ " has no managed body"
  | .incompatibleHook hook m =>
    hook.text ++ " cannot be called with the arguments of " ++ m.text
  | .ownerMismatch m owner installed =>
    m.text ++ " is patched by `" ++ installed ++ "`, not `" ++ owner ++ "`"

/-- The word for the kind of error; an error of another family is named behind its family. -/
def HostError.kind : HostError → String
  | .instruction cause => "Ir." ++ cause.kind
  | .encode cause => "Encode." ++ cause.kind
  | .rewrite cause => "Patch." ++ cause.kind
  | .notManaged _ => "NotManaged"
  | .incompatibleHook _ _ => "IncompatibleHook"
  | .ownerMismatch _ _ _ => "OwnerMismatch"

end MethodWeave
