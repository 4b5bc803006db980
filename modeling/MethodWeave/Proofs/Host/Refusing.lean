import MethodWeave.Proofs.Host.PaddedCommit
import MethodWeave.Proofs.Host.Rebuilding
/-!
What a refused request leaves of a host.

A request to install can be refused before anything is built, and building can fail at each of its
stages.  No stage in front of the encoder has the host in its hands, and the encoder has nothing of
it but the metadata, to which it adds strings as it writes; it may do so and fail at a later
instruction.

Main result: `Host.untouched_of_error`, whatever the error, nothing that anyone could see of the
host has changed but for strings that nobody had a token of.
-/

namespace MethodWeave

namespace MetadataTables

variable {after before : MetadataTables} {more : List String}

theorem Gains.member? (h : after.Gains before more) (t : Token) :
    after.member? t = before.member? t := by
  rw [h.tables]
  rfl

theorem Gains.signature? (h : after.Gains before more) (t : Token) :
    after.signature? t = before.signature? t := by
  rw [h.tables]
  rfl

end MetadataTables

namespace Host

/-- The second host has the same as the first behind every method, and as many installations; what a
token stands for in the first it stands for in the second, whose metadata may have gained strings.
-/
structure Untouched (before after : Host) : Prop where
  implementation : ∀ method,
    after.module.implementation? method = before.module.implementation? method
  /-- The first body of a method, the installed one and its owner. -/
  managed : ∀ method, after.module.managed? method = before.module.managed? method
  patchCount : after.patchCount = before.patchCount
  member : ∀ t, after.module.metadata.member? t = before.module.metadata.member? t
  signature : ∀ t, after.module.metadata.signature? t = before.module.metadata.signature? t
  userString : ∀ t s, before.module.metadata.userString? t = some s →
    after.module.metadata.userString? t = some s
  metadata : ∃ more, after.module.metadata.Gains before.module.metadata more

theorem untouched_of_gains {before after : Host} {more : List String}
    (hmethods : after.module.methods = before.module.methods)
    (hcount : after.patchCount = before.patchCount)
    (hgains : after.module.metadata.Gains before.module.metadata more) :
    before.Untouched after where
  implementation method := by simp only [Module.implementation?, hmethods]
  managed method := by simp only [Module.managed?, Module.implementation?, hmethods]
  patchCount := hcount
  member := hgains.member?
  signature := hgains.signature?
  userString _ _ hs := hgains.extends.userString? hs
  metadata := ⟨more, hgains⟩

theorem untouched_refl (host : Host) : host.Untouched host :=
  untouched_of_gains rfl rfl (MetadataTables.gains_nil _)

/-- Building adds nothing to the metadata but strings, whether or not it succeeds. -/
theorem gains_build {metadata metadata' : MetadataTables} {method : MethodRef} {base : Body}
    {request : PatchRequest} {journal journal' : Journal} {result : Except HostError Body}
    (h : build metadata method base request journal = (result, metadata', journal')) :
    ∃ more, metadata'.Gains metadata more := by
  unfold build at h
  split at h
  · cases h
    exact ⟨[], metadata.gains_nil⟩
  · split at h
    · cases h
      exact ⟨[], metadata.gains_nil⟩
    · split at h
      · cases h
        exact ⟨[], metadata.gains_nil⟩
      · cases h
        exact gains_encode rfl

variable {method : MethodRef} {request : PatchRequest} {owner : String} {site site' : Site Host}
  {e : HostError}

theorem untouched_of_patch_error (h : patch method request site = (.error e, site')) :
    site.host.Untouched site'.host := by
  rcases patch_outcomes method request site with
    ⟨_, _, hrefused, hmethods, hcount, hmetadata⟩ | ⟨_, _, _, _, hinstalled, -⟩
  · cases h.symm.trans hrefused
    rcases hmetadata with heq | ⟨mm, -, hbuild⟩
    · -- refused before anything was built
      have hgains : site'.host.module.metadata.Gains site.host.module.metadata [] := by
        rw [heq]
        exact MetadataTables.gains_nil _
      exact untouched_of_gains hmethods hcount hgains
    · obtain ⟨more, hmore⟩ := gains_build hbuild
      exact untouched_of_gains hmethods hcount hmore
  · cases h.symm.trans hinstalled

/-- **A refused request leaves the host as it was.**  If installing or removing ends in an error of
any kind, the host is untouched: every method has the first body, the installed body and the owner
that it had, and all tokens stand for what they stood for. -/
theorem untouched_of_error
    (h : patch method request site = (.error e, site') ∨
      unpatch method owner site = (.error e, site')) : site.host.Untouched site'.host := by
  rcases h with hpatch | hunpatch
  · exact untouched_of_patch_error hpatch
  · rcases unpatch_outcomes method owner site with ⟨_, hrefused, -⟩ |
      ⟨_, _, ⟨-, hkept⟩ | ⟨-, _, hrestored, -⟩⟩
    · cases hunpatch.symm.trans hrefused
      exact untouched_refl site.host
    · cases hunpatch.symm.trans hkept
    · cases hunpatch.symm.trans hrestored

/-- Load a text at the end, and jump to where nothing is. -/
def strayJump (text : String) : Transpiler :=
  .ofFunction "stray" fun code =>
    .ok (code ++ [{ opcode := ⟨0x72⟩, operand := .string (some text) },
      { opcode := .br, operand := .branchTarget (some ⟨100, none⟩) }])

/-- The loop that counts down, installed once by its owner. -/
def installedCountdown : Site Host := (patch countdown { owner := "w" } countdownSite).2

/-- The owner asks for a stray jump. -/
def strayRequest : PatchRequest :=
  { owner := "w", rewrite? := some ⟨countdown, [strayJump "lost"], {}⟩ }

/-- The encoder has the text interned before it comes to the jump and fails.  What was installed
stays installed. -/
theorem untouched_of_error_strayJump :
    ∃ e site', patch countdown strayRequest installedCountdown = (.error e, site') ∧
      e.message = "instruction 10: label #2 is never marked" ∧
      site'.host.module.metadata.strings = ["lost"] ∧
      (installedCountdown.host.module.managed? countdown).bind ManagedMethod.owner? = some "w" ∧
      installedCountdown.host.Untouched site'.host := by
  have hmessage : (patch countdown strayRequest installedCountdown).1.mapError HostError.message =
      .error "instruction 10: label #2 is never marked" := by decide +kernel
  have hstrings : (patch countdown strayRequest installedCountdown).2.host.module.metadata.strings =
      ["lost"] := by decide +kernel
  have howner : (installedCountdown.host.module.managed? countdown).bind ManagedMethod.owner? =
      some "w" := by decide +kernel
  generalize houtcome : patch countdown strayRequest installedCountdown = outcome
    at hmessage hstrings ⊢
  obtain ⟨e | _, site'⟩ := outcome
  · have herror : patch countdown strayRequest installedCountdown = (.error e, site') ∨
        unpatch countdown "w" installedCountdown = (.error e, site') := Or.inl houtcome
    exact ⟨e, site', rfl, Except.error.inj hmessage, hstrings, howner, untouched_of_error herror⟩
  · cases hmessage

end Host

end MethodWeave
