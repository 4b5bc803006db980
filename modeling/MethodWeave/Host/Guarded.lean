import MethodWeave.Host.Installer
/-!
A host behind a guard that can be told to refuse installations or removals, or to carry an
installation out on another method than the one asked for.  It counts the removals asked for.
-/

namespace MethodWeave

/-- A host and the orders of its guard. -/
structure GuardedHost where
  host : Host := {}
  refusePatch : Bool := false
  refuseUnpatch : Bool := false
  /-- The method that installations go to instead of the one asked for. -/
  substitute? : Option MethodRef := none
  /-- Removals asked for, refused ones included. -/
  unpatchCount : Nat := 0
deriving Inhabited

/-- An error of a guarded host. -/
inductive GuardError where
  | refused
  | host (cause : HostError)
deriving Repr

def GuardError.message : GuardError → String
  | .refused => "refused"
  | .host cause => cause.message

namespace GuardedHost

/-- Act on the host behind the guard. -/
def behind {α : Type} (action : Site Host → Except HostError α × Site Host)
    (site : Site GuardedHost) : Except GuardError α × Site GuardedHost :=
  let (result, inner) := action { host := site.host.host, journal := site.journal }
  (result.mapError .host,
    { host := { site.host with host := inner.host }, journal := inner.journal })

def patch (method : MethodRef) (request : PatchRequest) (site : Site GuardedHost) :
    Except GuardError Unit × Site GuardedHost :=
  if site.host.refusePatch then (.error .refused, site)
  else behind (Host.patch (site.host.substitute?.getD method) request) site

def unpatch (method : MethodRef) (owner : String) (site : Site GuardedHost) :
    Except GuardError Unit × Site GuardedHost :=
  let site :=
    { site with host := { site.host with unpatchCount := site.host.unpatchCount + 1 } }
  if site.host.refuseUnpatch then (.error .refused, site)
  else behind (Host.unpatch method owner) site

instance : PatchHost GuardedHost GuardError where
  patch := patch
  unpatch := unpatch

end GuardedHost

end MethodWeave
