import MethodWeave.Proofs.Host.PaddedCommit
import MethodWeave.Proofs.Host.Rebuilding
/-!
What the history of a method leaves in the body that is installed on it.

A decorated method on a host is edited, committed and reverted any number of times; commits may
install, find nothing to do, or fail.  Whatever happens, the first body stays, and the metadata only
gains strings (`HostedMethod.Since`, kept by `Since.run`).  Main result:
`installed_of_contents`, two histories that end in an installation of the same lists end with bodies
that differ in nothing but the tokens of strings.
-/

namespace MethodWeave

/-! ### Histories -/

/-- A decorated method, and the host on which it is committed. -/
structure HostedMethod where
  decorated : Decorated
  site : Site Host

/-- Something that happens to a decorated method or around it. -/
inductive HistoryStep where
  /-- The pattern is changed in whatever way. -/
  | edit (change : Pattern → Pattern)
  /-- Labels are taken, lines logged and notes made by others. -/
  | elsewhere (journal : Journal)
  | commit
  | revert

namespace HostedMethod

def module (h : HostedMethod) : Module := h.site.host.module

/-- What stands in the lists. -/
def contents (h : HostedMethod) : Pattern.Contents := h.decorated.pattern.contents

/-- The method as the module has it. -/
def managed? (h : HostedMethod) : Option ManagedMethod := h.module.managed? h.decorated.method

/-- Commit, with the answer. -/
def commit (h : HostedMethod) : Except (CommitError HostError) Bool × HostedMethod :=
  let (answer, d, site) := h.decorated.commit h.site
  (answer, ⟨d, site⟩)

/-- Remove the installation, with the answer. -/
def revert (h : HostedMethod) : Except (InstallError HostError) Unit × HostedMethod :=
  let (answer, d, site) := h.decorated.revert h.site
  (answer, ⟨d, site⟩)

def step (h : HostedMethod) : HistoryStep → HostedMethod
  | .edit change => { h with decorated.pattern := change h.decorated.pattern }
  | .elsewhere journal => { h with site.journal := journal }
  | .commit => h.commit.2
  | .revert => h.revert.2

/-- Carry steps out in order, whether or not they fail. -/
def run (h : HostedMethod) (history : List HistoryStep) : HostedMethod := history.foldl step h

end HostedMethod

/-! ### What a history keeps -/

namespace Host

/-- The method is managed with its first body.  The metadata is what it once was, or it holds more
strings and the body could be read in what it was. -/
structure Since (tables : MetadataTables) (method : MethodRef) (base : Body) (host : Host) :
    Prop where
  managed : ∃ mm, host.module.managed? method = some mm ∧ mm.base = base
  metadata : host.module.metadata = tables ∨
    host.module.metadata.Extends tables ∧ base.IsRead tables

variable {tables : MetadataTables} {method : MethodRef} {base : Body}

theorem Since.extends {host : Host} (h : host.Since tables method base) :
    host.module.metadata.Extends tables := by
  rcases h.metadata with heq | ⟨hextends, -⟩
  · rw [heq]
    exact .refl tables
  · exact hextends

/-- A body that can be read by now could be read before any string was added. -/
theorem Since.isRead {host : Host} (h : host.Since tables method base)
    (hread : base.IsRead host.module.metadata) : base.IsRead tables := by
  rcases h.metadata with heq | ⟨-, hread'⟩
  · rw [← heq]
    exact hread
  · exact hread'

/-- Building from the first body keeps what is known of the metadata. -/
theorem Since.metadata_build {host : Host} (h : host.Since tables method base)
    {request : PatchRequest} {journal journal' : Journal} {metadata' : MetadataTables}
    {result : Except HostError Body}
    (hbuild : build host.module.metadata method base request journal = (result, metadata', journal')) :
    metadata' = tables ∨ metadata'.Extends tables ∧ base.IsRead tables := by
  rcases Host.metadata_build hbuild with rfl | ⟨hextends, hread⟩
  · exact h.metadata
  · exact Or.inr ⟨hextends.trans h.extends, h.isRead hread⟩

theorem keeps_since : PatchHost.Keeps (Host.Since tables method base) method where
  patch := by
    intro request site h
    obtain ⟨mm, hmm, hbase⟩ := h.managed
    show Host.Since tables method base (patch method request site).2.host
    cases hother : otherOwner? mm request.owner with
    | some installed =>
      -- refused before anything is built
      simp only [patch, hmm, hother]
      exact h
    | none =>
      simp only [patch, hmm, hother, hbase]
      generalize hbuild : build site.host.module.metadata method base request site.journal = built
      obtain ⟨e | body, metadata, journal⟩ := built
      · exact ⟨⟨mm, hmm, hbase⟩, h.metadata_build hbuild⟩
      · exact ⟨⟨mm.install request.owner body,
          (Module.managesAnew_setManaged (m := site.host.module) metadata).managed?, hbase⟩,
          h.metadata_build hbuild⟩
  unpatch := by
    intro owner site h
    obtain ⟨mm, hmm, hbase⟩ := h.managed
    show Host.Since tables method base (unpatch method owner site).2.host
    rcases Host.unpatch_outcomes method owner site with ⟨e, hrefused, -⟩ |
      ⟨found, hfound, ⟨-, hkept⟩ | ⟨-, site', hrestored, hmetadata, hanew⟩⟩
    · rw [hrefused]
      exact h
    · rw [hkept]
      exact h
    · rw [hrestored]
      obtain rfl : found = mm := Option.some.inj (hfound.symm.trans hmm)
      refine ⟨⟨found.restore, hanew.managed?, hbase⟩, ?_⟩
      rw [hmetadata]
      exact h.metadata

end Host

namespace HostedMethod

/-- The hosted method is the method with the first body in the metadata, and nothing is known of
what has happened to it so far. -/
structure Begins (h : HostedMethod) (tables : MetadataTables) (method : MethodRef) (base : Body) :
    Prop where
  decorates : h.decorated.method = method
  metadata : h.module.metadata = tables
  managed : ∃ mm, h.managed? = some mm ∧ mm.base = base

/-- What a history keeps. -/
structure Since (tables : MetadataTables) (method : MethodRef) (base : Body) (h : HostedMethod) :
    Prop where
  decorates : h.decorated.method = method
  host : h.site.host.Since tables method base

variable {h : HostedMethod} {tables : MetadataTables} {method : MethodRef} {base : Body}

theorem Begins.since (hbegins : h.Begins tables method base) : h.Since tables method base := by
  obtain ⟨hmethod, hmetadata, hmanaged⟩ := hbegins
  refine ⟨hmethod, ?_, Or.inl hmetadata⟩
  rw [managed?, hmethod] at hmanaged
  exact hmanaged

theorem Since.step (hsince : h.Since tables method base) (s : HistoryStep) :
    (h.step s).Since tables method base := by
  obtain ⟨rfl, hhost⟩ := hsince
  cases s with
  | edit change => exact ⟨rfl, hhost⟩
  | elsewhere journal => exact ⟨rfl, hhost⟩
  | commit =>
    have hcommits := h.decorated.commits h.site
    obtain ⟨isPatched, hkept⟩ := hcommits.kept
    exact ⟨congrArg (·.method) hkept, hcommits.keeps Host.keeps_since hhost⟩
  | revert =>
    have hreverts := h.decorated.reverts h.site
    obtain ⟨isPatched, hkept⟩ := hreverts.kept
    exact ⟨congrArg (·.method) hkept, hreverts.keeps Host.keeps_since hhost⟩

/-- **A history keeps the first body**, and adds nothing to the metadata but strings. -/
theorem Since.run (hsince : h.Since tables method base) (history : List HistoryStep) :
    (h.run history).Since tables method base := by
  induction history generalizing h with
  | nil => exact hsince
  | cons s history ih => exact ih (hsince.step s)

/-! ### Installing at the end of a history -/

/-- A commit that installs something installs what is built for its lists from the first body. -/
theorem build_of_commit {h' : HostedMethod} {mm : ManagedMethod}
    (hcommit : h.commit = (.ok true, h'))
    (hmm : h.module.managed? h.decorated.method = some mm) :
    ∃ mm' journal journal', h'.module.managed? h.decorated.method = some mm' ∧
      Host.build h.module.metadata h.decorated.method mm.base h.decorated.request journal =
        (.ok mm'.active, h'.module.metadata, journal') := by
  have hcommits := h.decorated.commits h.site
  unfold commit at hcommit
  generalize h.decorated.commit h.site = outcome at hcommit hcommits
  obtain ⟨answer, d, site⟩ := outcome
  cases hcommit
  -- the answer leaves one course only
  cases hcommits with
  | done _ hreinstalls =>
    obtain ⟨mm', journal, journal', hanew, -, hbuild⟩ := managesAnew_of_reinstalls hreinstalls hmm
    exact ⟨mm', journal, journal', hanew.managed?, hbuild⟩

/-- **The body that is installed does not depend on the history.**  Let a method be decorated on two
hosts that have the same metadata and the same first body for it, whatever else they have and
whatever is installed there.  After any two histories that bring the same lists about, with
transpilers that are uniform, let a commit install them on each.  Then one and the same stream has
been encoded on both, so the installed bodies differ in nothing but the tokens of strings; and they
can be read if what the stream refers to is registered. -/
theorem installed_of_contents {h₁ h₂ h₁' h₂' : HostedMethod} (hbegins₁ : h₁.Begins tables method base)
    (hbegins₂ : h₂.Begins tables method base) (history₁ history₂ : List HistoryStep)
    (hcommit₁ : (h₁.run history₁).commit = (.ok true, h₁'))
    (hcommit₂ : (h₂.run history₂).commit = (.ok true, h₂'))
    (hcontents : (h₂.run history₂).contents = (h₁.run history₁).contents)
    (huniform : ∀ t ∈ (h₁.run history₁).decorated.pattern.chain, t.Uniform) :
    ∃ (mm₁ mm₂ : ManagedMethod) (stream : List NativeInstruction) (g : Generator),
      h₁'.module.managed? method = some mm₁ ∧ h₂'.module.managed? method = some mm₂ ∧
      g.encode stream (h₁.run history₁).module.metadata = (.ok mm₁.active, h₁'.module.metadata) ∧
      g.encode stream (h₂.run history₂).module.metadata = (.ok mm₂.active, h₂'.module.metadata) ∧
      mm₁.active.SameUpToStrings h₁'.module.metadata h₂'.module.metadata mm₂.active ∧
      ((∀ n ∈ stream, n.operand.Registered tables g.locals) →
        mm₁.active.code.length < 0x80000000 →
        h₁'.module.metadata.strings.length < Token.rowLimit →
        ∀ supply, ∃ out labels,
          mm₁.active.decode h₁'.module.metadata supply = (.ok out, labels)) := by
  obtain ⟨hdecorates₁, hsince₁⟩ := hbegins₁.since.run history₁
  obtain ⟨hdecorates₂, hsince₂⟩ := hbegins₂.since.run history₂
  generalize h₁.run history₁ = e₁ at hcommit₁ hcontents huniform hdecorates₁ hsince₁
  generalize h₂.run history₂ = e₂ at hcommit₂ hcontents hdecorates₂ hsince₂
  obtain ⟨before₁, hbefore₁, hbase₁⟩ := hsince₁.managed
  obtain ⟨before₂, hbefore₂, hbase₂⟩ := hsince₂.managed
  obtain ⟨mm₁, journal₁, journal₁', hmm₁, hbuild₁⟩ :=
    build_of_commit hcommit₁ (hdecorates₁.symm ▸ hbefore₁)
  obtain ⟨mm₂, journal₂, journal₂', hmm₂, hbuild₂⟩ :=
    build_of_commit hcommit₂ (hdecorates₂.symm ▸ hbefore₂)
  rw [hdecorates₁] at hmm₁ hbuild₁
  rw [hdecorates₂] at hmm₂ hbuild₂
  rw [hbase₁] at hbuild₁
  rw [hbase₂] at hbuild₂
  -- the first body was read at the end, so it could be read at the beginning
  have hread : base.IsRead tables := hsince₁.isRead (Host.isRead_of_build hbuild₁)
  obtain ⟨stream, g, hencode₁, hencode₂⟩ := Host.encodes_alike hread hsince₁.extends hsince₂.extends
    (Decorated.request_alike (hdecorates₂.trans hdecorates₁.symm) hcontents)
    (Decorated.uniform_request huniform) hbuild₁ hbuild₂
  have hextends₁ := (extends_encode hencode₁).trans hsince₁.extends
  have hextends₂ := (extends_encode hencode₂).trans hsince₂.extends
  refine ⟨mm₁, mm₂, stream, g, hmm₁, hmm₂, hencode₁, hencode₂,
    sameUpToStrings_of_encode hencode₁ hencode₂ (hextends₁.sameMembers hextends₂), ?_⟩
  intro hregistered hsize hrows supply
  exact exists_decode_of_encode hencode₁
    (fun n hn => (hregistered n hn).of_extends hsince₁.extends) hsize hrows supply

/-- Load a string and drop it, and jump over nothing, in front of everything else. -/
def announce (text : String) : Transpiler where
  name := "announce"
  run code := do
    let l := (← get).supply.free.1
    modify fun c => { c with supply := c.supply.free.2 }
    return [{ opcode := ⟨0x72⟩, operand := .string (some text) }, { opcode := ⟨0x26⟩, operand := .none },
      { opcode := ⟨0x2b⟩, operand := .branchTarget (some l) },
      { opcode := .nop, operand := .none, labels := [l] }] ++ code

theorem uniform_announce (text : String) : (announce text).Uniform := by
  intro k code
  refine .bind .of_get fun c c' hc => ?_
  refine .bind (.of_modify fun s s' hs => ⟨hs.method, ?_, hs.lowering⟩) fun _ _ _ => .of_pure ?_
  · show s'.supply.next + 1 = s.supply.next + 1 + k
    rw [hs.supply]
    exact Nat.add_right_comm _ _ _
  · have hlabel : c'.supply.free.1 = c.supply.free.1.shifted k := by
      simp only [LabelSupply.free, hc.supply, Label.shifted]
    rw [hlabel, List.map_append]
    rfl

/-- An instruction that does nothing, behind all others. -/
def trail : Transpiler :=
  .ofFunction "trail" fun code => .ok (code ++ [{ opcode := .nop, operand := .none }])

theorem uniform_trail : trail.Uniform := by
  refine Transpiler.uniform_ofFunction "trail" fun k code out hout => ?_
  cases hout
  rw [List.map_append]
  rfl

/-- A method that returns at once, on a host with nothing else, and labels counted from `next`. -/
def idleMethod (next : Nat) : HostedMethod where
  decorated := .ofMethod countdown "w" {}
  site :=
    { host := { module := ({} : Module).setBody countdown { code := [0x02, 0x2a] } }
      journal := { supply := ⟨next⟩ } }

/-- Ask for the announcement of a text, and for nothing else. -/
def announcing (text : String) : HistoryStep :=
  .edit fun _ =>
    { transpilers := ({} : ChangeList Transpiler).add (announce text)
      postTranspilers := ({} : ChangeList Transpiler).add trail }

theorem pattern_run_announcing (h : HostedMethod) (history : List HistoryStep) (text : String) :
    (h.run (history ++ [announcing text])).contents = ⟨[], [], [announce text], [trail]⟩ ∧
      (h.run (history ++ [announcing text])).decorated.pattern.chain = [announce text, trail] := by
  rw [run, List.foldl_append]
  exact ⟨rfl, rfl⟩

theorem begins_idleMethod (next : Nat) :
    (idleMethod next).Begins (({} : MetadataTables).register (.method countdown)) countdown
      { code := [0x02, 0x2a] } :=
  ⟨rfl, rfl, _, rfl, rfl⟩

/-- What a commit that installs something leaves behind, from what can be computed of it. -/
theorem exists_of_commit (h : HostedMethod) (method : MethodRef) (code : List UInt8)
    (hanswer : h.commit.1.toOption = some true)
    (hcode : (h.commit.2.module.managed? method).map (·.active.code) = some code) :
    ∃ h' mm, h.commit = (.ok true, h') ∧ h'.module.managed? method = some mm ∧
      mm.active.code = code := by
  generalize h.commit = outcome at hanswer hcode
  obtain ⟨answer, h'⟩ := outcome
  obtain ⟨mm, hmm, rfl⟩ := Option.map_eq_some_iff.1 hcode
  cases answer with
  | error e => cases hanswer
  | ok installed =>
    obtain rfl : installed = true := Option.some.inj hanswer
    exact ⟨h', mm, rfl, hmm, rfl⟩

/-- After one text has been installed and removed, another one has the second row of the heap and
not the first, and nothing else is different. -/
theorem installed_of_contents_announce :
    ∃ h₁ h₂ mm₁ mm₂,
      ((idleMethod 0).run [announcing "one", .commit, .revert, announcing "two"]).commit =
        (.ok true, h₁) ∧
      ((idleMethod 7).run [announcing "two"]).commit = (.ok true, h₂) ∧
      h₁.module.managed? countdown = some mm₁ ∧ h₂.module.managed? countdown = some mm₂ ∧
      mm₁.active.code = [0x72, 2, 0, 0, 0x70, 0x26, 0x2b, 0x00, 0x00, 0x02, 0x2a, 0x00] ∧
      mm₂.active.code = [0x72, 1, 0, 0, 0x70, 0x26, 0x2b, 0x00, 0x00, 0x02, 0x2a, 0x00] ∧
      mm₁.active.SameUpToStrings h₁.module.metadata h₂.module.metadata mm₂.active := by
  obtain ⟨h₁, mm₁, hcommit₁, hmm₁, hcode₁⟩ := exists_of_commit
    ((idleMethod 0).run [announcing "one", .commit, .revert, announcing "two"]) countdown
    [0x72, 2, 0, 0, 0x70, 0x26, 0x2b, 0x00, 0x00, 0x02, 0x2a, 0x00]
    (by decide +kernel) (by decide +kernel)
  obtain ⟨h₂, mm₂, hcommit₂, hmm₂, hcode₂⟩ := exists_of_commit
    ((idleMethod 7).run [announcing "two"]) countdown
    [0x72, 1, 0, 0, 0x70, 0x26, 0x2b, 0x00, 0x00, 0x02, 0x2a, 0x00]
    (by decide +kernel) (by decide +kernel)
  refine ⟨h₁, h₂, mm₁, mm₂, hcommit₁, hcommit₂, hmm₁, hmm₂, hcode₁, hcode₂, ?_⟩
  obtain ⟨hcontents₁, hchain⟩ :=
    pattern_run_announcing (idleMethod 0) [announcing "one", .commit, .revert] "two"
  obtain ⟨hcontents₂, -⟩ := pattern_run_announcing (idleMethod 7) [] "two"
  obtain ⟨mm₁', mm₂', stream, g, hmm₁', hmm₂', -, -, hsame, -⟩ :=
    installed_of_contents (begins_idleMethod 0) (begins_idleMethod 7) _ _ hcommit₁ hcommit₂
      (hcontents₂.trans hcontents₁.symm) (by
        intro t ht
        have ht : t ∈ [announce "two", trail] := hchain ▸ ht
        rcases List.mem_pair.1 ht with rfl | rfl
        · exact uniform_announce "two"
        · exact uniform_trail)
  obtain rfl : mm₁' = mm₁ := Option.some.inj (hmm₁'.symm.trans hmm₁)
  obtain rfl : mm₂' = mm₂ := Option.some.inj (hmm₂'.symm.trans hmm₂)
  exact hsame

end HostedMethod

end MethodWeave
