import MethodWeave.Host.Hooks
import MethodWeave.Host.Module
/-!
A host that builds patched bodies and installs them in a module.

A patched body is always built from the body that the method was defined with, never from one that
was installed before.  A method has at most one owner at a time; another owner can neither install
on it nor remove what is there.
-/

namespace MethodWeave

/-- A module whose methods can be patched. -/
structure Host where
  module : Module := {}
  /-- Bodies installed so far. -/
  patchCount : Nat := 0
deriving Inhabited

namespace Host

/-- The native form of a body, with the generator that goes on from it. -/
def nativeForm (metadata : MetadataTables) (body : Body) (journal : Journal) :
    Except HostError (List NativeInstruction × Generator) × Journal :=
  let (decoded, labels) := body.decode metadata journal.supply
  let journal := { journal with supply := labels.supply }
  match decoded with
  | .error e => (.error (.instruction e), journal)
  | .ok code =>
    let (stream, pass) :=
      (Instruction.lowerAll code).run
        { generator := .withLocals body.locals, log := journal.log }
    ((stream.mapError .instruction).map fun stream => (stream, pass.generator),
      { journal with log := pass.log })

/-- Run the rewrite stage of a request, if it has one. -/
def rewritten (method : MethodRef) (request : PatchRequest) (stream : List NativeInstruction)
    (g : Generator) (journal : Journal) :
    Except HostError (List NativeInstruction × Generator) × Journal :=
  match request.rewrite? with
  | none => (.ok (stream, g), journal)
  | some stage =>
    let (result, journal) := stage.run method stream g journal
    (result.mapError .rewrite, journal)

/-- Put the hooks of a request around a stream, if it has any. -/
def hooked (method : MethodRef) (request : PatchRequest) (stream : List NativeInstruction)
    (g : Generator) : Except HostError (List NativeInstruction × Generator) :=
  if request.prefixes.isEmpty && request.suffixes.isEmpty then .ok (stream, g)
  else Hooks.wrap method stream request g

/-- Build the body that a request asks for from a method's first body.  Strings that are new to the
module stay interned even if building fails after them. -/
def build (metadata : MetadataTables) (method : MethodRef) (base : Body) (request : PatchRequest)
    (journal : Journal) : Except HostError Body × MetadataTables × Journal :=
  match nativeForm metadata base journal with
  | (.error e, journal) => (.error e, metadata, journal)
  | (.ok (stream, g), journal) =>
    match rewritten method request stream g journal with
    | (.error e, journal) => (.error e, metadata, journal)
    | (.ok (stream, g), journal) =>
      match hooked method request stream g with
      | .error e => (.error e, metadata, journal)
      | .ok (stream, g) =>
        let (body, metadata) := g.encode stream metadata
        (body.mapError .encode, metadata, journal)

/-- Is the method owned by someone other than `owner`?  Then by whom? -/
def otherOwner? (m : ManagedMethod) (owner : String) : Option String :=
  m.owner?.filter (· != owner)

/-- Build and install what a request asks for on a method. -/
def patch (method : MethodRef) (request : PatchRequest) (site : Site Host) :
    Except HostError Unit × Site Host :=
  let host := site.host
  match host.module.managed? method with
  | none => (.error (.notManaged method), site)
  | some managed =>
    match otherOwner? managed request.owner with
    | some installed => (.error (.ownerMismatch method request.owner installed), site)
    | none =>
      let (body, metadata, journal) :=
        build host.module.metadata method managed.base request site.journal
      let module := { host.module with metadata := metadata }
      match body with
      | .error e => (.error e, { host := { host with module := module }, journal := journal })
      | .ok body =>
        let journal := journal.write .debug fun _ =>
          s!"Installing {body.code.length} byte body for {method.text} under `{request.owner}`"
        (.ok (),
          { host :=
              { module := module.setManaged method (managed.install request.owner body)
                patchCount := host.patchCount + 1 }
            journal := journal })

/-- Remove what an owner has installed on a method. -/
def unpatch (method : MethodRef) (owner : String) (site : Site Host) :
    Except HostError Unit × Site Host :=
  let host := site.host
  match host.module.managed? method with
  | none => (.error (.notManaged method), site)
  | some managed =>
    match managed.owner? with
    | none => (.ok (), site)
    | some installed =>
      if installed != owner then (.error (.ownerMismatch method owner installed), site)
      else
        (.ok (),
          { host := { host with module := host.module.setManaged method managed.restore }
            journal := site.journal.write .debug fun _ => "Restored original body of " ++ method.text })

instance : PatchHost Host HostError where
  patch := patch
  unpatch := unpatch

/-- Is a body installed on the method? -/
def isPatched (host : Host) (method : MethodRef) : Bool :=
  ((host.module.managed? method).map ManagedMethod.isPatched).getD false

end Host

end MethodWeave
