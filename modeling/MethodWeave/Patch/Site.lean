import MethodWeave.Patch.Transpiler
/-!
What a host has to offer for patching: install a body for a method, and put the first one back.
-/

namespace MethodWeave

/-- Everything to install on one method for one owner. -/
structure PatchRequest where
  owner : String
  /-- Called in order before the body, with the arguments of the method. -/
  prefixes : List MethodRef := []
  /-- Called in order after the body, with the arguments and, where asked for, the result. -/
  suffixes : List MethodRef := []
  rewrite? : Option RewriteStage := none
deriving Inhabited

/-- A host with the journal of the session that works on it. -/
structure Site (σ : Type) where
  host : σ
  journal : Journal

namespace Site

variable {σ : Type}

/-- Add a log line. -/
def write (s : Site σ) (level : Level) (line : Unit → String) : Site σ :=
  { s with journal := s.journal.write level line }

@[simp] theorem host_write (s : Site σ) (level : Level) (line : Unit → String) :
    (s.write level line).host = s.host := rfl

end Site

/-- A host of type `σ` that can be patched, with errors of type `ρ`. -/
class PatchHost (σ : Type) (ρ : outParam Type) where
  /-- Install what a request asks for on a method. -/
  patch : MethodRef → PatchRequest → Site σ → Except ρ Unit × Site σ
  /-- Remove what the owner has installed on a method. -/
  unpatch : MethodRef → (owner : String) → Site σ → Except ρ Unit × Site σ

end MethodWeave
