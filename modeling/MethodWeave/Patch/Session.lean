import MethodWeave.Patch.Registry
/-!
A patching session: a host, a registry, and the patch modules that fill the registry.

Each patch module runs once, in the first commit behind its registration, in the order of
registration and before any method is committed.
-/

namespace MethodWeave

/-- The entry point of a patch module. -/
structure Shim where
  name : String
  entry : Registry → Journal → Registry × Journal
  /-- Has the module run? -/
  applied : Bool := false

/-- Run a module, unless it has run before. -/
def Shim.apply (shim : Shim) (registry : Registry) (journal : Journal) :
    Shim × Registry × Journal :=
  if shim.applied then (shim, registry, journal)
  else
    let journal := journal.write .info fun _ => "Applying patch shim " ++ shim.name
    let (registry, journal) := shim.entry registry journal
    ({ shim with applied := true }, registry, journal)

/-- A session on a host of type `σ`. -/
structure Session (σ : Type) where
  site : Site σ
  registry : Registry := {}
  shims : List Shim := []

namespace Session

variable {σ ρ : Type}

/-- Add a patch module, to be run by the next commit. -/
def registerShim (s : Session σ) (name : String) (entry : Registry → Journal → Registry × Journal) :
    Session σ :=
  { s with
    site := s.site.write .debug fun _ => "Registered patch shim " ++ name
    shims := s.shims ++ [{ name := name, entry := entry }] }

/-- Run the modules that have not run, in order. -/
def applyShims : List Shim → Registry → Journal → List Shim × Registry × Journal
  | [], registry, journal => ([], registry, journal)
  | shim :: rest, registry, journal =>
    let (shim, registry, journal) := shim.apply registry journal
    let (rest, registry, journal) := applyShims rest registry journal
    (shim :: rest, registry, journal)

variable [PatchHost σ ρ]

/-- Run pending modules, then commit every pattern that changed. -/
def commit (s : Session σ) : Except (CommitError ρ) Nat × Session σ :=
  let (shims, registry, journal) := applyShims s.shims s.registry s.site.journal
  let (result, registry, site) := registry.commit { s.site with journal := journal }
  (result, { site := site, registry := registry, shims := shims })

/-- Remove every installation of this session. -/
def revertAll (s : Session σ) : Except (InstallError ρ) Unit × Session σ :=
  let (result, registry, site) := s.registry.revert s.site
  (result, { s with site := site, registry := registry })

end Session

end MethodWeave
