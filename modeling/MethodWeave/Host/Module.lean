import MethodWeave.Host.Error
import MethodWeave.Instruction.Decode
/-!
A loaded module: its metadata, and what stands behind each of its methods.

A managed method has the body that it was defined with, the body that callers execute, and an owner
while the latter is an installed one.  The first body is never changed, so restoring the method
brings it back.
-/

namespace MethodWeave

/-- A method with a body of instructions. -/
structure ManagedMethod where
  /-- The body that the method was defined with. -/
  base : Body
  /-- The body that callers execute. -/
  active : Body
  /-- The owner of the active body, if it was installed. -/
  owner? : Option String

namespace ManagedMethod

/-- A method as it is defined. -/
def ofBody (body : Body) : ManagedMethod := { base := body, active := body, owner? := none }

def isPatched (m : ManagedMethod) : Bool := m.owner?.isSome

/-- The body that an owner has installed; it may well be equal to the first one. -/
def installed? (m : ManagedMethod) : Option Body := m.owner?.map fun _ => m.active

/-- Put a body in front of the first one. -/
def install (m : ManagedMethod) (owner : String) (body : Body) : ManagedMethod :=
  { m with active := body, owner? := some owner }

/-- Execute the first body again. -/
def restore (m : ManagedMethod) : ManagedMethod := { m with active := m.base, owner? := none }

@[simp] theorem base_install (m : ManagedMethod) (owner : String) (body : Body) :
    (m.install owner body).base = m.base := rfl

@[simp] theorem active_install (m : ManagedMethod) (owner : String) (body : Body) :
    (m.install owner body).active = body := rfl

@[simp] theorem owner?_install (m : ManagedMethod) (owner : String) (body : Body) :
    (m.install owner body).owner? = some owner := rfl

@[simp] theorem base_restore (m : ManagedMethod) : m.restore.base = m.base := rfl

@[simp] theorem active_restore (m : ManagedMethod) : m.restore.active = m.base := rfl

@[simp] theorem owner?_restore (m : ManagedMethod) : m.restore.owner? = none := rfl

@[simp] theorem installed?_install (m : ManagedMethod) (owner : String) (body : Body) :
    (m.install owner body).installed? = some body := rfl

@[simp] theorem installed?_restore (m : ManagedMethod) : m.restore.installed? = none := rfl

end ManagedMethod

/-- A method that the host itself carries out. -/
structure NativeMethod where
  /-- The name under which calls are recorded. -/
  name : String
  run : List Value → Except ExecError (Option Value)

namespace NativeMethod

/-- A method that always fails. -/
def failing (name message : String) : NativeMethod :=
  { name := name, run := fun _ => .error (.native message) }

/-- A method that gives its last argument back. -/
def echo (name : String) : NativeMethod := { name := name, run := fun args => .ok args.getLast? }

/-- A method that puts its first and its last argument together, which have to be strings. -/
def concat (name : String) : NativeMethod :=
  { name := name
    run := fun args =>
      match args.head?, args.getLast? with
      | some (.string s), some (.string t) => .ok (some (.string (s ++ t)))
      | _, _ => .error (.native "concat expects strings") }

/-- A method with always the same result, or none. -/
def constant (name : String) (result : Option Value) : NativeMethod :=
  { name := name, run := fun _ => .ok result }

end NativeMethod

/-- What stands behind a method. -/
inductive Implementation where
  | managed (m : ManagedMethod)
  | native (m : NativeMethod)

/-- A module. -/
structure Module where
  metadata : MetadataTables := {}
  methods : KeyMap Implementation := {}
deriving Inhabited

namespace Module

def implementation? (m : Module) (method : MethodRef) : Option Implementation :=
  m.methods.get? method.token.key

/-- The method's managed form, if it has a body of instructions. -/
def managed? (m : Module) (method : MethodRef) : Option ManagedMethod :=
  match m.implementation? method with
  | some (.managed mm) => some mm
  | _ => none

/-- Register a method and put an implementation behind it. -/
def implement (m : Module) (method : MethodRef) (i : Implementation) : Module :=
  { metadata := m.metadata.register (.method method)
    methods := m.methods.insert method.token.key i }

/-- Give a method a body, replacing any implementation that it had. -/
def setBody (m : Module) (method : MethodRef) (body : Body) : Module :=
  m.implement method (.managed (.ofBody body))

/-- Let the host carry a method out. -/
def setNative (m : Module) (method : MethodRef) (native : NativeMethod) : Module :=
  m.implement method (.native native)

/-- Store a new state of a managed method. -/
def setManaged (m : Module) (method : MethodRef) (mm : ManagedMethod) : Module :=
  { m with methods := m.methods.insert method.token.key (.managed mm) }

/-- Encode instructions as a body whose local slots begin with `locals`. -/
def assemble (m : Module) (locals : List TypeRef) (code : List Instruction) (journal : Journal) :
    Except HostError Body × Module × Journal :=
  let (stream, pass) :=
    (Instruction.lowerAll code).run { generator := .withLocals locals, log := journal.log }
  let journal := { journal with log := pass.log }
  match stream with
  | .error e => (.error (.instruction e), m, journal)
  | .ok stream =>
    let (body, metadata) := pass.generator.encode stream m.metadata
    (body.mapError .encode, { m with metadata := metadata }, journal)

/-- Assemble instructions and make them a method's body. -/
def define (m : Module) (method : MethodRef) (locals : List TypeRef) (code : List Instruction)
    (journal : Journal) : Except HostError Unit × Module × Journal :=
  match m.assemble locals code journal with
  | (.error e, m, journal) => (.error e, m, journal)
  | (.ok body, m, journal) => (.ok (), m.setBody method body, journal)

end Module

end MethodWeave
