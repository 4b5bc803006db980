import MethodWeave.Patch.Pattern
import MethodWeave.Patch.Site
/-!
A method with its pattern, and whether the pattern is installed.

A commit polls the pattern and lowers its flags.  If something changed it removes what was installed
and installs the pattern anew, unless the pattern is empty.  The flags stay lowered when the commit
fails.
-/

namespace MethodWeave

/-- A step of a commit that the host failed at. -/
inductive InstallError (ρ : Type) where
  | install (method : MethodRef) (cause : ρ)
  | remove (method : MethodRef) (cause : ρ)
deriving Repr

/-- A failed commit of one method. -/
structure CommitError (ρ : Type) where
  method : MethodRef
  cause : InstallError ρ
deriving Repr

def InstallError.message {ρ : Type} : InstallError ρ → String
  | .install m _ => "runtime failed to install patches on " ++ m.text
  | .remove m _ => "runtime failed to revert patches on " ++ m.text

def CommitError.message {ρ : Type} (e : CommitError ρ) : String :=
  "failed to commit patches for " ++ e.method.text

/-- One method that patches are registered against. -/
structure Decorated where
  method : MethodRef
  owner : String
  pattern : Pattern
  /-- Is the pattern installed, as far as the session knows? -/
  isPatched : Bool := false
deriving Inhabited

namespace Decorated

/-- A method with an empty pattern. -/
def ofMethod (method : MethodRef) (owner : String) (mode : PrintMode) : Decorated :=
  { method := method, owner := owner, pattern := { mode := mode } }

/-- What the pattern asks the host to install. -/
def request (d : Decorated) : PatchRequest :=
  { owner := d.owner
    prefixes := d.pattern.prefixes.items
    suffixes := d.pattern.suffixes.items
    rewrite? :=
      if d.pattern.hasRewrite then
        some { method := d.method, transpilers := d.pattern.chain, mode := d.pattern.mode }
      else none }

/-- If the request has a rewrite stage, that runs the chain of the pattern. -/
theorem transpilers_of_request {d : Decorated} {stage : RewriteStage}
    (h : d.request.rewrite? = some stage) : stage.transpilers = d.pattern.chain := by
  unfold request at h
  split at h
  · cases h
    rfl
  · cases h

variable {σ ρ : Type} [PatchHost σ ρ]

/-- Remove the installation, if there is one. -/
def revert (d : Decorated) (site : Site σ) : Except (InstallError ρ) Unit × Decorated × Site σ :=
  if !d.isPatched then (.ok (), d, site)
  else
    let site := site.write .debug fun _ => "Revert " ++ d.method.text
    match PatchHost.unpatch d.method d.owner site with
    | (.error e, site) => (.error (.remove d.method e), d, site)
    | (.ok (), site) => (.ok (), { d with isPatched := false }, site)

/-- The line that opens the log of an installation. -/
def beginText (d : Decorated) : String :=
  let p := d.pattern
  s!"Begin patching {d.method.text} ({p.prefixes.items.length} prefixes, " ++
    s!"{p.suffixes.items.length} suffixes, {p.transpilers.items.length} transpilers, " ++
    s!"{p.postTranspilers.items.length} post-transpilers)"

/-- Install the pattern. -/
def install (d : Decorated) (site : Site σ) : Except (InstallError ρ) Unit × Decorated × Site σ :=
  let level := d.pattern.mode.logLevel
  let site := site.write level fun _ => d.beginText
  match PatchHost.patch d.method d.request site with
  | (.error e, site) => (.error (.install d.method e), d, site)
  | (.ok (), site) =>
    (.ok (), { d with isPatched := true },
      site.write level fun _ => "Done patching " ++ d.method.text)

/-- Remove what is installed and install the pattern, unless it is empty; tells whether it was
installed. -/
def reinstall (d : Decorated) (site : Site σ) :
    Except (InstallError ρ) Bool × Decorated × Site σ :=
  match d.revert site with
  | (.error e, d, site) => (.error e, d, site)
  | (.ok (), d, site) =>
    if d.pattern.isEmpty then
      (.ok false, d,
        site.write .debug fun _ =>
          "Pattern for " ++ d.method.text ++ " is empty, leaving it unpatched")
    else
      match d.install site with
      | (.error e, d, site) => (.error e, d, site)
      | (.ok (), d, site) => (.ok true, d, site)

/-- Bring the host up to date with the pattern if it changed since the last commit; tells whether
anything was installed. -/
def commit (d : Decorated) (site : Site σ) : Except (CommitError ρ) Bool × Decorated × Site σ :=
  let (changed, pattern) := d.pattern.poll true
  let d := { d with pattern := pattern }
  if !changed then (.ok false, d, site)
  else
    match d.reinstall site with
    | (.ok installed, d, site) => (.ok installed, d, site)
    | (.error e, d, site) =>
      (.error ⟨d.method, e⟩, d,
        site.write .error fun _ => "Error patching " ++ d.method.text ++ ": " ++ e.message)

end Decorated

end MethodWeave
