import MethodWeave.Host.Guarded
import MethodWeave.Host.Machine
import MethodWeave.Patch.Change
import MethodWeave.Patch.Session
import MethodWeave.Script.Scope
/-!
A patching session that is worked on by hand, step by step.

Besides the registry there are decorated methods that stand for themselves, each under a name; they
are committed one at a time and the registry knows nothing of them.  Every step begins with a fresh
journal: its labels count from zero, and what is logged and noted belongs to the step alone.  Calls
of native methods are noted.
-/

namespace MethodWeave

/-- A session on a guarded host, and decorated methods outside its registry. -/
structure Workbench where
  session : Session GuardedHost
  /-- By name, the newest first. -/
  loose : List (String × Decorated) := []

/-- Why written instructions did not become a body. -/
inductive AuthoringError where
  | line (cause : InstructionError)
  | host (cause : HostError)
deriving Repr

/-- Which pattern a change is meant for. -/
inductive Subject where
  /-- That of a method of the registry, which is decorated at its first mention. -/
  | method (m : MethodRef)
  /-- That of a method that stands for itself. -/
  | loose (name : String)

namespace Workbench

/-- A workbench with nothing patched. -/
def start (metadata : MetadataTables) (settings : RegistrySettings) : Workbench :=
  { session :=
      { site := { host := { host := { module := { metadata := metadata } } }, journal := {} }
        registry := { settings := settings } } }

def journal (w : Workbench) : Journal := w.session.site.journal

def guarded (w : Workbench) : GuardedHost := w.session.site.host

def module (w : Workbench) : Module := w.guarded.host.module

def registry (w : Workbench) : Registry := w.session.registry

/-- Begin a step: a fresh journal that keeps lines up to a level. -/
def fresh (limit : Option Level) (w : Workbench) : Workbench :=
  { w with session.site.journal := { log := { limit := limit } } }

/-- Change the module. -/
def mapModule (change : Module → Module) (w : Workbench) : Workbench :=
  { w with session.site.host.host.module := change w.module }

/-! ### The module -/

/-- The instructions of written lines. -/
def instructions (lines : List Script.Line) :
    StateM Workbench (Except InstructionError (List Instruction)) := fun w =>
  let (code, scope) := (Script.instructions lines).run { supply := w.journal.supply }
  (code, { w with session.site.journal.supply := scope.supply })

/-- Act on the module. -/
def onModule {α : Type} (action : Module → Journal → α × Module × Journal) :
    StateM Workbench α := fun w =>
  let (a, module, journal) := action w.module w.journal
  (a, { w.mapModule (fun _ => module) with session.site.journal := journal })

/-- Make something of written lines in the module. -/
def author {α : Type} (lines : List Script.Line)
    (make : List Instruction → Module → Journal → Except HostError α × Module × Journal) :
    StateM Workbench (Except AuthoringError α) := do
  match ← instructions lines with
  | .error e => return .error (.line e)
  | .ok code => return (← onModule (make code)).mapError .host

/-- Give a method a body of written lines. -/
def define (m : MethodRef) (locals : List TypeRef) (lines : List Script.Line) :
    StateM Workbench (Except AuthoringError Unit) :=
  author lines fun code module journal => module.define m locals code journal

/-- A body of written lines, which is given to no method. -/
def assemble (locals : List TypeRef) (lines : List Script.Line) :
    StateM Workbench (Except AuthoringError Body) :=
  author lines fun code module journal => module.assemble locals code journal

/-- Call a method. -/
def invoke (fuel : Nat) (m : MethodRef) (args : List Value) :
    StateM Workbench (Except Halt (Option Value)) := fun w =>
  let j := w.journal
  let (result, trace) := (w.module.invoke fuel m args).run { supply := j.supply, log := j.log }
  (result,
    { w with
      session.site.journal :=
        { supply := trace.supply, log := trace.log
          notes := j.notes ++ trace.calls.map NativeCall.text } })

/-- A managed method, and the instructions of the body that its callers execute. -/
def inspect (m : MethodRef) :
    StateM Workbench (Option (ManagedMethod × Except InstructionError (List Instruction))) :=
  fun w =>
    match w.module.managed? m with
    | none => (none, w)
    | some managed =>
      let (code, labels) := managed.active.decode w.module.metadata w.journal.supply
      (some (managed, code), { w with session.site.journal.supply := labels.supply })

/-! ### The host -/

/-- Act on the host behind the guard. -/
def onHost {α : Type} (action : Site Host → α × Site Host) : StateM Workbench α := fun w =>
  let (a, site) := action { host := w.guarded.host, journal := w.journal }
  (a, { w with session.site := { host := { w.guarded with host := site.host }
                                 journal := site.journal } })

/-- Give the guard its orders. -/
def instruct (refusePatch refuseUnpatch : Bool) (substitute? : Option MethodRef)
    (w : Workbench) : Workbench :=
  { w with
    session.site.host :=
      { w.guarded with
        refusePatch := refusePatch
        refuseUnpatch := refuseUnpatch
        substitute? := substitute? } }

/-! ### Patterns -/

/-- Act on a decorated method that stands for itself; there is no answer if there is none of the
name. -/
def onLoose {α : Type} (name : String)
    (action : Decorated → Site GuardedHost → α × Decorated × Site GuardedHost) :
    StateM Workbench (Option α) := fun w =>
  match w.loose.lookup name with
  | none => (none, w)
  | some d =>
    let (a, d, site) := action d w.session.site
    (some a, { session := { w.session with site := site }, loose := (name, d) :: w.loose })

/-- Decorate a method outside the registry. -/
def decorateLoose (name : String) (m : MethodRef) (owner : String) (mode : PrintMode)
    (w : Workbench) : Workbench :=
  { w with loose := (name, .ofMethod m owner mode) :: w.loose }

/-- Act on the registry. -/
def onRegistry {α : Type} (action : Registry → Journal → α × Registry × Journal) :
    StateM Workbench α := fun w =>
  let (a, registry, journal) := action w.registry w.journal
  (a, { w with session.registry := registry, session.site.journal := journal })

/-- The pattern of a subject. -/
def pattern : Subject → StateM Workbench (Option Pattern)
  | .loose name => onLoose name fun d site => (d.pattern, d, site)
  | .method m =>
    onRegistry fun registry journal =>
      let (d, rest) := registry.decorate m journal
      (some d.pattern, rest)

/-- Change the pattern of a subject. -/
def change (c : PatternChange) : Subject → StateM Workbench (Option ChangeAnswer)
  | .loose name =>
    onLoose name fun d site =>
      let (answer, pattern) := c.apply d.pattern
      (answer, { d with pattern := pattern }, site)
  | .method m =>
    onRegistry fun registry journal =>
      let (answer, rest) := registry.change m c journal
      (some answer, rest)

/-- Act on the whole session. -/
def onSession {α : Type} (action : Session GuardedHost → α × Session GuardedHost) :
    StateM Workbench α := fun w =>
  let (a, session) := action w.session
  (a, { w with session := session })

/-- Register a patch module that makes the given changes when it runs; its name tells how many were
registered before it. -/
def registerShim (steps : List (MethodRef × Option PatternChange)) : StateM Workbench String :=
  onSession fun session =>
    let count := session.shims.length
    let name := s!"shim{count}"
    (name, session.registerShim name (Registry.moduleOf s!"shim {count}" steps))

end Workbench

end MethodWeave
