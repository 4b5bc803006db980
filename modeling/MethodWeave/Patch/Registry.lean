import MethodWeave.KeyMap
import MethodWeave.Patch.Decorated
/-!
The methods that one session decorates.

Methods are kept and committed by increasing token.  A commit of the registry commits one method
after the other and stops at the first failure; the methods behind it are left as they are.
-/

namespace MethodWeave

/-- What a session settles for the methods that it decorates. -/
structure RegistrySettings where
  /-- The key under which bodies are installed and removed. -/
  owner : String := "cilpatch"
  /-- The print mode that new patterns start with. -/
  printMode : PrintMode := {}
deriving Repr, Inhabited

/-- Decorated methods by token, with the settings for new ones. -/
structure Registry where
  settings : RegistrySettings := {}
  methods : KeyMap Decorated := {}
deriving Inhabited

namespace Registry

def decorated? (r : Registry) (m : MethodRef) : Option Decorated := r.methods.get? m.token.key

/-- The decorated form of a method, decorating it at its first mention. -/
def decorate (r : Registry) (m : MethodRef) (journal : Journal) : Decorated × Registry × Journal :=
  match r.decorated? m with
  | some d => (d, r, journal)
  | none =>
    let d := Decorated.ofMethod m r.settings.owner r.settings.printMode
    (d, { r with methods := r.methods.insert m.token.key d },
      journal.write .trace fun _ => "Decorating " ++ m.text)

/-- Store the pattern of a method that is decorated. -/
def setPattern (r : Registry) (m : MethodRef) (pattern : Pattern) : Registry :=
  match r.decorated? m with
  | some d => { r with methods := r.methods.insert m.token.key { d with pattern := pattern } }
  | none => r

/-- Is a change of any pattern still to be committed? -/
def hasChanges (r : Registry) : Bool := r.methods.values.any fun d => (d.pattern.poll false).1

variable {σ ρ : Type} [PatchHost σ ρ]

/-- Commit entries in order up to the first failure, counting installations. -/
def commitEntries : List (Nat × Decorated) → Site σ →
    Except (CommitError ρ) Nat × List (Nat × Decorated) × Site σ
  | [], site => (.ok 0, [], site)
  | (key, d) :: rest, site =>
    match d.commit site with
    | (.error e, d, site) => (.error e, (key, d) :: rest, site)
    | (.ok installed, d, site) =>
      let (result, rest, site) := commitEntries rest site
      (result.map fun n => (if installed then n + 1 else n), (key, d) :: rest, site)

/-- Commit every decorated method; the answer counts installations. -/
def commit (r : Registry) (site : Site σ) : Except (CommitError ρ) Nat × Registry × Site σ :=
  let (result, entries, site) := commitEntries r.methods.entries site
  let r := { r with methods := ⟨entries⟩ }
  match result with
  | .ok n =>
    (.ok n, r, if n = 0 then site else site.write .info fun _ => s!"Patched {n} method(s)")
  | .error e => (.error e, r, site)

/-- Revert entries in order up to the first failure. -/
def revertEntries : List (Nat × Decorated) → Site σ →
    Except (InstallError ρ) Unit × List (Nat × Decorated) × Site σ
  | [], site => (.ok (), [], site)
  | (key, d) :: rest, site =>
    match d.revert site with
    | (.error e, d, site) => (.error e, (key, d) :: rest, site)
    | (.ok (), d, site) =>
      let (result, rest, site) := revertEntries rest site
      (result, (key, d) :: rest, site)

/-- Remove every installation. -/
def revert (r : Registry) (site : Site σ) : Except (InstallError ρ) Unit × Registry × Site σ :=
  let (result, entries, site) := revertEntries r.methods.entries site
  (result, { r with methods := ⟨entries⟩ }, site)

end Registry

end MethodWeave
