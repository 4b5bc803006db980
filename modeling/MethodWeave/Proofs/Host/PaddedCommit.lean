import MethodWeave.Proofs.Host.Building
import MethodWeave.Proofs.Host.Managing
import MethodWeave.Proofs.Host.Padding
import MethodWeave.Proofs.Patch.Courses
import MethodWeave.Proofs.Patch.Padding
/-!
Committing a pattern that only pads.

A commit that succeeds puts a padded body in front of a method, or none.  Every such body keeps pace
with the first one (`bodyKeepsPace_of_build`), and so any two of them with each other, however often
the method is patched anew.  Main result: `invoke_commit`, no invocation of any method of the module
can tell the difference.
-/

namespace MethodWeave

open Machine (BodyKeepsPace ImplementationKeepsPace bodyKeepsPace_refl)

/-! ### Building padded bodies -/

/-- Rewriting by transpilers that only pad pads the stream, and declares no locals. -/
theorem padded_of_rewritten {method : MethodRef} {request : PatchRequest}
    {stream padded : List NativeInstruction} {g g' : Generator} {journal journal' : Journal}
    (hpads : ∀ stage, request.rewrite? = some stage → ∀ t ∈ stage.transpilers, t.OnlyPads)
    (hliftable : ∀ n ∈ stream, Instruction.Liftable n ∧ n.labels.Pairwise (·.number < ·.number))
    (h : Host.rewritten method request stream g journal = (.ok (padded, g'), journal')) :
    Padded (· = NativeInstruction.padding) stream padded ∧ g'.locals = g.locals := by
  unfold Host.rewritten at h
  split at h
  · cases h
    exact ⟨.refl _, rfl⟩
  · next stage hstage =>
    generalize hrun : stage.run method stream g journal = outcome at h
    obtain ⟨result, journal₁⟩ := outcome
    rw [Prod.mk.injEq, mapError_eq_ok_iff] at h
    obtain ⟨rfl, -⟩ := h
    exact padded_of_run (hpads stage hstage) (fun n hn => (hliftable n hn).1)
      (fun n hn => (hliftable n hn).2) hrun

/-- A request without hooks puts nothing around the stream. -/
theorem hooked_of_unhooked {method : MethodRef} {request : PatchRequest}
    (hprefixes : request.prefixes = []) (hsuffixes : request.suffixes = [])
    (stream : List NativeInstruction) (g : Generator) :
    Host.hooked method request stream g = .ok (stream, g) := by
  simp only [Host.hooked, hprefixes, hsuffixes, List.isEmpty_nil, Bool.and_self, if_true]

/-- The request asks for no hooks, and its transpilers only pad. -/
structure PatchRequest.OnlyPads (request : PatchRequest) : Prop where
  prefixes : request.prefixes = []
  suffixes : request.suffixes = []
  transpilers : ∀ stage, request.rewrite? = some stage → ∀ t ∈ stage.transpilers, t.OnlyPads

/-- **A body built by transpilers that only pad keeps pace** with the first body, and building it
leaves the metadata alone. -/
theorem bodyKeepsPace_of_build {tables tables' : MetadataTables} {method : MethodRef}
    {base built : Body} {request : PatchRequest} {journal journal' : Journal}
    (h : Host.build tables method base request journal = (.ok built, tables', journal'))
    (htables : tables.Reachable) (hpads : request.OnlyPads) (hreach : built.WithinReach tables) :
    tables' = tables ∧ ∃ room, BodyKeepsPace tables room base built := by
  obtain ⟨code, labels, pass, stream, journal₁, padded, g, wrapped, g', hread, hsound, hlocals,
    hlower, hrewritten, hhooked, hencode⟩ := build_steps h
  rw [hooked_of_unhooked hpads.prefixes hpads.suffixes] at hhooked
  cases hhooked
  obtain ⟨hpadded, hlocals'⟩ :=
    padded_of_rewritten hpads.transpilers (liftable_of_decode hread hlower) hrewritten
  have hknown : ∀ n ∈ padded, n.operand.Known tables g.locals := by
    intro n hn
    rcases hpadded.mem hn with hn | rfl
    · rw [hlocals', hlocals]
      exact known_of_decode htables hread hlower n hn
    · exact ⟨trivial, nofun⟩
  obtain ⟨rfl, hbuilt, hreads', hnodup⟩ := readsAs_of_known hknown hencode (hreach hencode)
  refine ⟨rfl, padded.length, ?_⟩
  refine Machine.bodyKeepsPace_of_padded (readsInForms_of_decode hread hsound hlower).2 hreads' hnodup
    hpadded ?_ (fun place n hn _ => (List.getElem?_eq_some_iff.1 hn).1)
    (hbuilt.trans (hlocals'.trans hlocals))
  rintro _ rfl
  rfl

/-- Callers execute the first body of the method, or one that was built from it for a request that
only pads. -/
inductive ManagedMethod.OnlyPadded (tables : MetadataTables) (method : MethodRef)
    (mm : ManagedMethod) : Prop
  | first : mm.active = mm.base → OnlyPadded tables method mm
  | built {request : PatchRequest} {journal journal' : Journal} : request.OnlyPads →
      mm.active.WithinReach tables →
      Host.build tables method mm.base request journal = (.ok mm.active, tables, journal') →
      OnlyPadded tables method mm

theorem ManagedMethod.OnlyPadded.bodyKeepsPace {tables : MetadataTables} {method : MethodRef}
    {mm : ManagedMethod} (h : mm.OnlyPadded tables method) (htables : tables.Reachable) :
    ∃ room, BodyKeepsPace tables room mm.base mm.active := by
  cases h with
  | first hfirst => exact ⟨0, hfirst ▸ bodyKeepsPace_refl 0 mm.active⟩
  | built hpads hreach hbuild => exact (bodyKeepsPace_of_build hbuild htables hpads hreach).2

/-! ### What a commit changes -/

section

variable {site site' : Site Host} {mm : ManagedMethod} {d d' : Decorated}

/-- A removal that succeeds leaves the method as it was, or with its first body. -/
theorem managesAnew_of_reverts (h : d.Reverts site (.ok (), d', site'))
    (hmm : site.host.module.managed? d.method = some mm) :
    ∃ mm', site.host.module.ManagesAnew site'.host.module d.method mm' ∧
      site'.host.module.metadata = site.host.module.metadata ∧ (mm' = mm ∨ mm' = mm.restore) := by
  cases h with
  | idle _ => exact ⟨mm, Module.managesAnew_refl hmm, rfl, Or.inl rfl⟩
  | removed _ hunpatch =>
    rcases Host.unpatch_outcomes d.method d.owner
      (site.write .debug fun _ => "Revert " ++ d.method.text) with ⟨e, hrefused, -⟩ |
        ⟨found, hfound, ⟨-, hkept⟩ | ⟨-, site₁, hrestored, hmetadata, hanew⟩⟩
    · cases hunpatch.symm.trans hrefused
    · cases hunpatch.symm.trans hkept
      exact ⟨mm, Module.managesAnew_refl hmm, rfl, Or.inl rfl⟩
    · cases hunpatch.symm.trans hrestored
      obtain rfl : found = mm := Option.some.inj (hfound.symm.trans hmm)
      exact ⟨found.restore, hanew, hmetadata, Or.inr rfl⟩

/-- What a method is when its pattern was installed or found empty: as it was, or with its first
body, or with the body that the pattern asks for. -/
def Decorated.Leaves (d : Decorated) (m m' : Module) (mm mm' : ManagedMethod) : Prop :=
  m'.metadata = m.metadata ∧ (mm' = mm ∨ mm' = mm.restore) ∨
    mm'.base = mm.base ∧ ∃ journal journal',
      Host.build m.metadata d.method mm.base d.request journal =
        (.ok mm'.active, m'.metadata, journal')

/-- An installation that succeeds builds the body that the pattern asks for from the first one. -/
theorem managesAnew_of_installs (h : d.Installs site (.ok (), d', site'))
    (hmm : site.host.module.managed? d.method = some mm) :
    ∃ mm' journal journal', site.host.module.ManagesAnew site'.host.module d.method mm' ∧
      mm'.base = mm.base ∧ Host.build site.host.module.metadata d.method mm.base d.request journal =
        (.ok mm'.active, site'.host.module.metadata, journal') := by
  cases h with
  | installed hpatch =>
    rcases Host.patch_outcomes d.method d.request
      (site.write d.pattern.mode.logLevel fun _ => d.beginText) with ⟨e, site₁, hrefused, -⟩ |
        ⟨found, body, journal, site₁, hinstalled, hfound, -, hbuild, hanew⟩
    · cases hpatch.symm.trans hrefused
    · cases hpatch.symm.trans hinstalled
      obtain rfl : found = mm := Option.some.inj (hfound.symm.trans hmm)
      exact ⟨found.install d.request.owner body, _, journal, hanew, rfl, hbuild⟩

/-- The same, if what was installed before is removed first. -/
theorem managesAnew_of_reinstalls (h : d.Reinstalls site (.ok true, d', site'))
    (hmm : site.host.module.managed? d.method = some mm) :
    ∃ mm' journal journal', site.host.module.ManagesAnew site'.host.module d.method mm' ∧
      mm'.base = mm.base ∧ Host.build site.host.module.metadata d.method mm.base d.request journal =
        (.ok mm'.active, site'.host.module.metadata, journal') := by
  cases h with
  | installed hreverts _ hinstalls =>
    obtain ⟨mm₁, hanew, hmetadata, hstate⟩ := managesAnew_of_reverts hreverts hmm
    obtain ⟨isPatched, rfl⟩ := hreverts.kept
    obtain ⟨mm', journal, journal', hanew', hbase', hbuild⟩ :=
      managesAnew_of_installs hinstalls hanew.managed?
    have hbase : mm₁.base = mm.base := by rcases hstate with rfl | rfl <;> rfl
    rw [hmetadata, hbase] at hbuild
    exact ⟨mm', journal, journal', hanew.trans hanew', hbase'.trans hbase, hbuild⟩

/-- What a commit that succeeds makes of its method. -/
theorem managesAnew_of_commit {installed : Bool}
    (h : d.commit site = (.ok installed, d', site'))
    (hmm : site.host.module.managed? d.method = some mm) :
    ∃ mm', site.host.module.ManagesAnew site'.host.module d.method mm' ∧
      d.Leaves site.host.module site'.host.module mm mm' := by
  have hcommits := d.commits site
  rw [h] at hcommits
  cases hcommits with
  | idle _ => exact ⟨mm, Module.managesAnew_refl hmm, Or.inl ⟨rfl, Or.inl rfl⟩⟩
  | done _ hreinstalls =>
    cases installed with
    | false =>
      cases hreinstalls with
      | emptied hreverts _ =>
        obtain ⟨mm', hanew, hstate⟩ := managesAnew_of_reverts hreverts hmm
        exact ⟨mm', hanew, Or.inl hstate⟩
    | true =>
      -- lowering the flags does not change what the pattern asks for
      obtain ⟨mm', journal, journal', hanew, hbase, hbuild⟩ :=
        managesAnew_of_reinstalls hreinstalls hmm
      exact ⟨mm', hanew, Or.inr ⟨hbase, journal, journal', hbuild⟩⟩

/-- A pattern that only pads leaves the metadata alone, and a method behind that is only padded. -/
theorem Decorated.Leaves.onlyPadded {m m' : Module} {mm' : ManagedMethod}
    (h : d.Leaves m m' mm mm') (hbefore : mm.OnlyPadded m.metadata d.method)
    (hpads : d.request.OnlyPads) (htables : m.metadata.Reachable)
    (hreach : mm'.active.WithinReach m.metadata) :
    m'.metadata = m.metadata ∧ mm'.base = mm.base ∧ mm'.OnlyPadded m.metadata d.method := by
  rcases h with ⟨hmetadata, rfl | rfl⟩ | ⟨hbase, journal, journal', hbuild⟩
  · exact ⟨hmetadata, rfl, hbefore⟩
  · exact ⟨hmetadata, rfl, .first rfl⟩
  · obtain ⟨hmetadata, -⟩ := bodyKeepsPace_of_build hbuild htables hpads hreach
    rw [hmetadata, ← hbase] at hbuild
    exact ⟨hmetadata, hbase, .built hpads hreach hbuild⟩

end

/-! ### Invocations -/

/-- Modules that differ in one body, which keeps pace, differ in implementations that do. -/
theorem Module.ManagesAnew.implementations {m m' : Module} {method : MethodRef}
    {mm mm' : ManagedMethod} {room : Nat} (h : m.ManagesAnew m' method mm')
    (hmm : m.managed? method = some mm)
    (hbody : BodyKeepsPace m.metadata room mm.active mm'.active) (other : MethodRef) :
    Option.Rel (ImplementationKeepsPace m.metadata room) (m.implementation? other)
      (m'.implementation? other) := by
  rw [h other]
  split
  · next hkey =>
    have hother : m.implementation? other = some (.managed mm) := by
      rw [← Module.managed?_eq_some_iff.1 hmm]
      simp only [Module.implementation?, hkey]
    rw [hother]
    exact .some (.managed hbody)
  · cases m.implementation? other with
    | none => exact .none
    | some implementation =>
      refine .some ?_
      cases implementation with
      | native n => exact .native n
      | managed other => exact .managed (bodyKeepsPace_refl room _)

/-- **Padding changes no outcome.**  Let a pattern without hooks, all of whose transpilers only pad,
be committed for a method that is only padded already, if it is patched at all, and let the commit
succeed with a body within the reach of branches.  Then the metadata stays as it was, the method is
only padded, and however a method of the module is invoked, the same native calls are made and the
same value is returned or thrown, or the same error reached up to the form of the branch that it
names.  In terms of fuel: an invocation that ends within some number of steps for each frame, before
or after, ends alike within a fixed multiple of it, and one that goes on for ever makes its calls
one by one before and after.  If the first body was in place, the error afterwards is the same or
names the long form, and what ends afterwards ended within as many steps. -/
theorem invoke_commit {d d' : Decorated} {site site' : Site Host} {installed : Bool}
    {mm : ManagedMethod} (hcommit : d.commit site = (.ok installed, d', site'))
    (hmanaged : site.host.module.managed? d.method = some mm)
    (hbefore : mm.OnlyPadded site.host.module.metadata d.method)
    (hprefixes : d.pattern.prefixes.items = []) (hsuffixes : d.pattern.suffixes.items = [])
    (hpads : ∀ t ∈ d.pattern.chain, t.OnlyPads) (htables : site.host.module.metadata.Reachable)
    (hreach : ∀ mm', site'.host.module.managed? d.method = some mm' →
      mm'.active.WithinReach site.host.module.metadata) :
    site'.host.module.metadata = site.host.module.metadata ∧
      (∃ mm', site'.host.module.managed? d.method = some mm' ∧
        mm'.OnlyPadded site'.host.module.metadata d.method) ∧
      (mm.active = mm.base → ∃ room, ∀ (fuel fuel' : Nat) (method : MethodRef) (args : List Value),
        KeepsPace ExecError.WidensTo (fuel < fuel') (fuel' < (fuel + 1) * room) (· = ·)
          (site.host.module.invoke fuel method args)
          (site'.host.module.invoke fuel' method args)) ∧
      ∃ room, ∀ (fuel fuel' : Nat) (method : MethodRef) (args : List Value),
        KeepsPace ExecError.SameForm (fuel < (fuel' + 1) * room) (fuel' < (fuel + 1) * room) (· = ·)
          (site.host.module.invoke fuel method args)
          (site'.host.module.invoke fuel' method args) := by
  obtain ⟨mm', hanew, hleaves⟩ := managesAnew_of_commit hcommit hmanaged
  have hrequest : d.request.OnlyPads :=
    ⟨hprefixes, hsuffixes, fun stage hstage => Decorated.transpilers_of_request hstage ▸ hpads⟩
  obtain ⟨hmetadata, hbase, hafter⟩ :=
    hleaves.onlyPadded hbefore hrequest htables (hreach mm' hanew.managed?)
  obtain ⟨room, hbody⟩ := hbefore.bodyKeepsPace htables
  obtain ⟨room', hbody'⟩ := hafter.bodyKeepsPace htables
  rw [hbase] at hbody'
  refine ⟨hmetadata, ⟨mm', hanew.managed?, hmetadata ▸ hafter⟩, fun hfirst => ?_, ?_⟩
  · refine ⟨room' + 1, fun fuel fuel' method args => ?_⟩
    rw [← hfirst] at hbody'
    have hinvoke := Machine.keepsPace_invokeWithin hmetadata (hanew.implementations hmanaged hbody')
      (Nat.lt_or_ge fuel fuel') (Nat.lt_or_ge fuel' ((fuel + 1) * (room' + 1))) maxCallDepth
    exact hinvoke.answers method args
  · -- both bodies are held against the first one, in a module that has it in place
    refine ⟨max room room' + 1, fun fuel fuel' method args => ?_⟩
    have hrestored : site.host.module.ManagesAnew (site.host.module.setManaged d.method mm.restore)
        d.method mm.restore := Module.managesAnew_setManaged site.host.module.metadata
    have hback := hrestored.symm hmanaged
    have hkept : site.host.module.metadata =
        (site.host.module.setManaged d.method mm.restore).metadata := rfl
    exact Machine.keepsPace_invoke_through hkept (hmetadata.trans hkept)
      (hback.implementations hrestored.managed? (hbody.mono (Nat.le_max_left _ _)))
      ((hback.trans hanew).implementations hrestored.managed? (hbody'.mono (Nat.le_max_right _ _)))
      fuel fuel' method args

/-- A static method that takes a number and gives one. -/
def countdown : MethodRef where
  token := .ofRow Token.methodDefTable 1
  declaringType := ⟨.ofRow Token.typeDefTable 1, "Program"⟩
  name := "countdown"
  parameters := [.int32]
  returnType := some .int32
  isStatic := true

/-- A host with the method, whose body counts the argument down to zero in a loop of two short
branches. -/
def countdownSite : Site Host where
  host :=
    { module := ({} : Module).setBody countdown
        { code := [0x02, 0x2c, 0x07, 0x02, 0x17, 0x59, 0x10, 0x00, 0x2b, 0xf6, 0x02, 0x2a] } }
  journal := {}

/-- A pattern that puts more into the loop than its short branches reach over. -/
def paddedCountdown : Decorated where
  method := countdown
  owner := "w"
  pattern := { transpilers := ({} : ChangeList Transpiler).add (.padAt 2 130) }

/-- The pattern once it was installed, with so little padding that the short branches reach over
it. -/
def sparselyPadded : Decorated :=
  { paddedCountdown with
    pattern := { transpilers := ({} : ChangeList Transpiler).add (.padAt 2 3) }
    isPatched := true }

/-- A commit that answers that it has installed something has a decorated method and a host to go on
with, in which the method has a body. -/
theorem exists_of_commit {d : Decorated} {site : Site Host} {length : Nat}
    (h : (d.commit site).1.toOption = some true ∧
      ((d.commit site).2.2.host.module.managed? d.method).map (·.active.code.length) = some length) :
    ∃ d' site' mm', d.commit site = (.ok true, d', site') ∧
      site'.host.module.managed? d.method = some mm' ∧ mm'.active.code.length = length := by
  obtain ⟨hanswer, hlength⟩ := h
  generalize d.commit site = outcome at hanswer hlength
  obtain ⟨e | installed, d', site'⟩ := outcome
  · cases hanswer
  · obtain rfl : installed = true := Option.some.inj hanswer
    obtain ⟨mm', hmm', hcode⟩ := Option.map_eq_some_iff.1 hlength
    exact ⟨d', site', mm', rfl, hmm', hcode⟩

/-- The padded loop, both of whose branches are widened, runs as the first one; and the loop with
less padding, whose branches are short again, runs as that. -/
theorem invoke_commit_countdown :
    ∃ d₁ site₁ mm₁ d₂ site₂ mm₂,
      paddedCountdown.commit countdownSite = (.ok true, d₁, site₁) ∧
      site₁.host.module.managed? countdown = some mm₁ ∧
      mm₁.active.code.length = 12 + 130 + 3 + 3 ∧
      sparselyPadded.commit site₁ = (.ok true, d₂, site₂) ∧
      site₂.host.module.managed? countdown = some mm₂ ∧ mm₂.active.code.length = 12 + 3 ∧
      site₂.host.module.metadata = countdownSite.host.module.metadata ∧
      (∃ room, ∀ (fuel fuel' : Nat) (method : MethodRef) (args : List Value),
        KeepsPace ExecError.WidensTo (fuel < fuel') (fuel' < (fuel + 1) * room) (· = ·)
          (countdownSite.host.module.invoke fuel method args)
          (site₁.host.module.invoke fuel' method args)) ∧
      ∃ room, ∀ (fuel fuel' : Nat) (method : MethodRef) (args : List Value),
        KeepsPace ExecError.SameForm (fuel < (fuel' + 1) * room) (fuel' < (fuel + 1) * room) (· = ·)
          (site₁.host.module.invoke fuel method args)
          (site₂.host.module.invoke fuel' method args) := by
  have hpads (place count : Nat) : ∀ t ∈ [Transpiler.padAt place count], t.OnlyPads :=
    List.forall_mem_singleton.2 (Transpiler.onlyPads_padAt place count)
  have hreach {mm : ManagedMethod} {n : Nat} {tables : MetadataTables}
      (hlength : mm.active.code.length = n) (hn : n < 0x80000000) :
      mm.active.WithinReach tables :=
    Body.withinReach_of_length tables (hlength ▸ hn)
  have hcommit₁ : (paddedCountdown.commit countdownSite).1.toOption = some true ∧
      ((paddedCountdown.commit countdownSite).2.2.host.module.managed? countdown).map
        (·.active.code.length) = some (12 + 130 + 3 + 3) := by decide +kernel
  have hcommit₂ : (sparselyPadded.commit (paddedCountdown.commit countdownSite).2.2).1.toOption =
        some true ∧
      ((sparselyPadded.commit (paddedCountdown.commit countdownSite).2.2).2.2.host.module.managed?
        countdown).map (·.active.code.length) = some (12 + 3) := by decide +kernel
  obtain ⟨d₁, site₁, mm₁, hcommit, hmm₁, hlength₁⟩ := exists_of_commit hcommit₁
  rw [hcommit] at hcommit₂
  obtain ⟨d₂, site₂, mm₂, hcommit', hmm₂, hlength₂⟩ := exists_of_commit hcommit₂
  have htables : countdownSite.host.module.metadata.Reachable := .register _ .empty
  obtain ⟨hmetadata, ⟨mm, hmm, hpadded⟩, hfirst, -⟩ := invoke_commit hcommit rfl (.first rfl) rfl
    rfl (hpads 2 130) htables
    (fun mm hmm => by
      obtain rfl : mm₁ = mm := Option.some.inj (hmm₁.symm.trans hmm)
      exact hreach hlength₁ (by decide))
  obtain rfl : mm₁ = mm := Option.some.inj (hmm₁.symm.trans hmm)
  -- the body in front of the first one is only padded, so the theorem applies once more
  obtain ⟨hmetadata', -, -, hagain⟩ := invoke_commit hcommit' hmm₁ hpadded rfl rfl (hpads 2 3)
    (hmetadata ▸ htables)
    (fun mm hmm => by
      obtain rfl : mm₂ = mm := Option.some.inj (hmm₂.symm.trans hmm)
      exact hreach hlength₂ (by decide))
  exact ⟨d₁, site₁, mm₁, d₂, site₂, mm₂, hcommit, hmm₁, hlength₁, hcommit', hmm₂,
    hlength₂, hmetadata'.trans hmetadata, hfirst rfl, hagain⟩

end MethodWeave
