import MethodWeave.Host.Installer
import MethodWeave.Patch.Session
import MethodWeave.Proofs.Patch.Blind
import MethodWeave.Proofs.Patch.Registering
/-!
Commits of registrations that were made in different orders.

Where the transpilers are blind, what a host does depends on neither the log nor the number at which
labels begin (`Host.patch_moved`); so two commits of one registry end alike and leave the host alike
(`Registry.commit_moved`).  Registrations in different orders make one registry and differ in what
they have logged, and so do patch modules that run in different orders, if no two of them add to one
list.

Main result: `Registry.registrations_commute`.  That registrations for a new token have to agree on
the method is shown by `Registry.firstDescription_counts`.
-/

namespace MethodWeave

/-- One host, with labels that begin `k` further on; what has been logged may differ. -/
structure Site.Moved {σ : Type} (k : Nat) (s s' : Site σ) : Prop where
  host : s'.host = s.host
  supply : s'.journal.supply.next = s.journal.supply.next + k

theorem Site.Moved.write {σ : Type} {k : Nat} {s s' : Site σ} (h : s.Moved k s')
    (level level' : Level) (line line' : Unit → String) :
    (s.write level line).Moved k (s'.write level' line') :=
  ⟨h.host, h.supply⟩

/-! ### Hosts with other labels -/

/-- All transpilers that the request asks for are blind. -/
def PatchRequest.Blind (k : Nat) (r : PatchRequest) : Prop :=
  ∀ stage, r.rewrite? = some stage → ∀ t ∈ stage.transpilers, t.Blind k

namespace Host

variable {k : Nat} {request : PatchRequest} {journal journal' : Journal}

theorem nativeForm_moved (metadata : MetadataTables) (base : Body)
    (h : journal'.supply.next = journal.supply.next + k) :
    (nativeForm metadata base journal').1 = (nativeForm metadata base journal).1 ∧
      (nativeForm metadata base journal').2.supply.next =
        (nativeForm metadata base journal).2.supply.next + k := by
  obtain ⟨hread, hnext⟩ := base.decode_matches metadata h
  unfold nativeForm
  generalize base.decode metadata journal.supply = decoded,
    base.decode metadata journal'.supply = decoded' at hread hnext
  obtain ⟨result, labels⟩ := decoded
  obtain ⟨result', labels'⟩ := decoded'
  cases hread with
  | error e => exact ⟨rfl, hnext⟩
  | @ok code _ hcode =>
    subst hcode
    have hbegin : Lowering.Shifted k
        { generator := .withLocals base.locals, log := journal.log }
        { generator := .withLocals base.locals, log := journal'.log } := ⟨rfl, fun _ => rfl⟩
    obtain ⟨hlower, hpass⟩ := Instruction.runsMatch_lowerAll code _ _ hbegin
    refine ⟨?_, hnext⟩
    exact congrArg₂
      (fun result g => (Except.mapError HostError.instruction result).map fun stream => (stream, g))
      hlower.eq.symm hpass.generator

theorem rewritten_moved (method : MethodRef) (hblind : request.Blind k)
    (native : List NativeInstruction) (g : Generator)
    (h : journal'.supply.next = journal.supply.next + k) :
    (rewritten method request native g journal').1 = (rewritten method request native g journal).1 ∧
      (rewritten method request native g journal').2.supply.next =
        (rewritten method request native g journal).2.supply.next + k := by
  unfold rewritten
  split
  · exact ⟨rfl, h⟩
  · next stage hstage =>
    obtain ⟨hresult, hnext⟩ := RewriteStage.run_matches (hblind stage hstage) method native g h
    exact ⟨congrArg (Except.mapError HostError.rewrite) hresult, hnext⟩

/-- **Builds with moved labels end alike**, with the same strings. -/
theorem build_moved (metadata : MetadataTables) (method : MethodRef) (base : Body)
    (hblind : request.Blind k) (h : journal'.supply.next = journal.supply.next + k) :
    (build metadata method base request journal').1 =
        (build metadata method base request journal).1 ∧
      (build metadata method base request journal').2.1 =
        (build metadata method base request journal).2.1 ∧
      (build metadata method base request journal').2.2.supply.next =
        (build metadata method base request journal).2.2.supply.next + k := by
  obtain ⟨hnative, hnext⟩ := nativeForm_moved metadata base h
  unfold build
  generalize nativeForm metadata base journal = native,
    nativeForm metadata base journal' = native' at hnative hnext
  obtain ⟨e | ⟨stream, g⟩, journal₁⟩ := native <;> obtain ⟨result', journal₁'⟩ := native' <;>
    obtain rfl : result' = _ := hnative
  · exact ⟨rfl, rfl, hnext⟩
  · obtain ⟨hrewritten, hnext⟩ := rewritten_moved method hblind stream g hnext
    simp only
    generalize rewritten method request stream g journal₁ = out,
      rewritten method request stream g journal₁' = out' at hrewritten hnext
    obtain ⟨e | ⟨stream, g⟩, journal₂⟩ := out <;> obtain ⟨result', journal₂'⟩ := out' <;>
      obtain rfl : result' = _ := hrewritten
    · exact ⟨rfl, rfl, hnext⟩
    · simp only
      split <;> exact ⟨rfl, rfl, hnext⟩

variable {s s' : Site Host}

/-- **A host does not look at the log, nor at label numbers**, if the transpilers do not. -/
theorem patch_moved (method : MethodRef) (hblind : request.Blind k) (h : s.Moved k s') :
    (patch method request s').1 = (patch method request s).1 ∧
      (patch method request s).2.Moved k (patch method request s').2 := by
  unfold patch
  simp only [h.host]
  split
  · exact ⟨rfl, h⟩
  · next managed _ =>
    split
    · exact ⟨rfl, h⟩
    · obtain ⟨hbody, hmetadata, hnext⟩ :=
        build_moved s.host.module.metadata method managed.base hblind h.supply
      generalize build s.host.module.metadata method managed.base request s.journal = built,
        build s.host.module.metadata method managed.base request s'.journal = built'
        at hbody hmetadata hnext
      obtain ⟨body, metadata, journal⟩ := built
      obtain ⟨body', metadata', journal'⟩ := built'
      obtain rfl : body' = body := hbody
      obtain rfl : metadata' = metadata := hmetadata
      cases body' with
      | error e => exact ⟨rfl, rfl, hnext⟩
      | ok body => exact ⟨rfl, rfl, hnext⟩

theorem unpatch_moved (method : MethodRef) (owner : String) (h : s.Moved k s') :
    (unpatch method owner s').1 = (unpatch method owner s).1 ∧
      (unpatch method owner s).2.Moved k (unpatch method owner s').2 := by
  unfold unpatch
  simp only [h.host]
  split
  · exact ⟨rfl, h⟩
  · split
    · exact ⟨rfl, h⟩
    · split
      · exact ⟨rfl, h⟩
      · exact ⟨rfl, rfl, h.supply⟩

end Host

/-! ### Commits -/

/-- Two operations have given the same and left sites that differ by the shift. -/
structure EndsMoved {α β : Type} (k : Nat) (o o' : α × β × Site Host) : Prop where
  answer : o'.1 = o.1
  value : o'.2.1 = o.2.1
  site : o.2.2.Moved k o'.2.2

namespace Decorated

variable {k : Nat} {d : Decorated} {s s' : Site Host}

/-- All transpilers of the method are blind. -/
def Blind (k : Nat) (d : Decorated) : Prop := ∀ t ∈ d.pattern.chain, t.Blind k

theorem Blind.request (h : d.Blind k) : d.request.Blind k := by
  intro stage hstage
  rw [transpilers_of_request hstage]
  exact h

theorem revert_moved (d : Decorated) (h : s.Moved k s') : EndsMoved k (d.revert s) (d.revert s') := by
  unfold revert
  split
  · exact ⟨rfl, rfl, h⟩
  · obtain ⟨hanswer, hsite⟩ := Host.unpatch_moved d.method d.owner
      (h.write .debug .debug (fun _ => "Revert " ++ d.method.text) fun _ => "Revert " ++ d.method.text)
    simp only [PatchHost.unpatch]
    generalize Host.unpatch d.method d.owner (s.write _ _) = o,
      Host.unpatch d.method d.owner (s'.write _ _) = o' at hanswer hsite
    obtain ⟨e | ⟨⟩, site⟩ := o <;> obtain ⟨result', site'⟩ := o' <;>
      obtain rfl : result' = _ := hanswer <;> exact ⟨rfl, rfl, hsite⟩

theorem install_moved (hblind : d.Blind k) (h : s.Moved k s') :
    EndsMoved k (d.install s) (d.install s') := by
  have hbegin := h.write d.pattern.mode.logLevel d.pattern.mode.logLevel (fun _ => d.beginText)
    fun _ => d.beginText
  obtain ⟨hanswer, hsite⟩ := Host.patch_moved d.method hblind.request hbegin
  simp only [install, PatchHost.patch]
  generalize Host.patch d.method d.request (s.write _ _) = o,
    Host.patch d.method d.request (s'.write _ _) = o' at hanswer hsite
  obtain ⟨e | ⟨⟩, site⟩ := o <;> obtain ⟨result', site'⟩ := o' <;>
    obtain rfl : result' = _ := hanswer
  · exact ⟨rfl, rfl, hsite⟩
  · exact ⟨rfl, rfl, hsite.write _ _ _ _⟩

theorem reinstall_moved (hblind : d.Blind k) (h : s.Moved k s') :
    EndsMoved k (d.reinstall s) (d.reinstall s') := by
  obtain ⟨hanswer, hvalue, hsite⟩ := d.revert_moved h
  have hreverts := d.reverts s
  unfold reinstall
  generalize d.revert s = o, d.revert s' = o' at hanswer hvalue hsite hreverts
  obtain ⟨answer, d₁, s₁⟩ := o
  obtain ⟨answer', d₁', s₁'⟩ := o'
  obtain rfl : answer' = answer := hanswer
  obtain rfl : d₁' = d₁ := hvalue
  cases answer' with
  | error e => exact ⟨rfl, rfl, hsite⟩
  | ok =>
    have hblind₁ : d₁'.Blind k := hreverts.eq_of_ok ▸ hblind
    simp only
    split
    · exact ⟨rfl, rfl, hsite.write _ _ _ _⟩
    · obtain ⟨hanswer, hvalue, hsite⟩ := install_moved hblind₁ hsite
      generalize d₁'.install s₁ = o, d₁'.install s₁' = o' at hanswer hvalue hsite
      obtain ⟨e | ⟨⟩, d₂, s₂⟩ := o <;> obtain ⟨answer', d₂', s₂'⟩ := o' <;>
        obtain rfl : answer' = _ := hanswer <;> exact ⟨rfl, hvalue, hsite⟩

theorem commit_moved (hblind : d.Blind k) (h : s.Moved k s') :
    EndsMoved k (d.commit s) (d.commit s') := by
  unfold commit
  simp only
  split
  · exact ⟨rfl, rfl, h⟩
  · have hpolled : Blind k { d with pattern := (d.pattern.poll true).2 } := hblind
    obtain ⟨hanswer, hvalue, hsite⟩ := reinstall_moved hpolled h
    generalize reinstall _ s = o, reinstall _ s' = o' at hanswer hvalue hsite
    obtain ⟨e | ⟨⟩, d₂, s₂⟩ := o <;> obtain ⟨answer', d₂', s₂'⟩ := o' <;>
      obtain rfl : answer' = _ := hanswer <;> obtain rfl : d₂' = d₂ := hvalue
    · exact ⟨rfl, rfl, hsite.write _ _ _ _⟩
    all_goals exact ⟨rfl, rfl, hsite⟩

end Decorated

/-- If one member at most has an image, the order of members does not matter. -/
theorem flatMap_eq_of_perm {α β : Type} {f : α → List β} {as as' : List α} (h : as.Perm as')
    (hsolo : as.Pairwise fun a a' => f a = [] ∨ f a' = []) : as.flatMap f = as'.flatMap f := by
  induction h with
  | nil => rfl
  | cons a _ ih =>
    rw [List.flatMap_cons, List.flatMap_cons, ih (List.pairwise_cons.1 hsolo).2]
  | swap a b as =>
    have hor := (List.pairwise_cons.1 hsolo).1 a List.mem_cons_self
    simp only [List.flatMap_cons]
    rcases hor with hnil | hnil <;> simp [hnil]
  | trans h₁ _ ih₁ ih₂ =>
    have hsolo' := (h₁.pairwise_iff fun {a b} hor => Or.symm hor).1 hsolo
    exact (ih₁ hsolo).trans (ih₂ hsolo')

namespace Registry

variable {k : Nat} {r : Registry} {s s' : Site Host}

/-- All transpilers that are registered are blind. -/
def Blind (k : Nat) (r : Registry) : Prop := ∀ e ∈ r.methods.entries, e.2.Blind k

theorem commitEntries_moved {entries : List (Nat × Decorated)} (hblind : ∀ e ∈ entries, e.2.Blind k)
    (h : s.Moved k s') : EndsMoved k (commitEntries entries s) (commitEntries entries s') := by
  induction entries generalizing s s' with
  | nil => exact ⟨rfl, rfl, h⟩
  | cons entry rest ih =>
    obtain ⟨key, d⟩ := entry
    obtain ⟨hfirst, hrest⟩ := List.forall_mem_cons.1 hblind
    obtain ⟨hanswer, hvalue, hsite⟩ := Decorated.commit_moved hfirst h
    simp only [commitEntries]
    generalize d.commit s = o, d.commit s' = o' at hanswer hvalue hsite
    obtain ⟨answer, d₁, s₁⟩ := o
    obtain ⟨answer', d₁', s₁'⟩ := o'
    obtain rfl : answer' = answer := hanswer
    obtain rfl : d₁' = d₁ := hvalue
    cases answer' with
    | error e => exact ⟨rfl, rfl, hsite⟩
    | ok installed =>
      obtain ⟨hanswer, hvalue, hsite⟩ := ih hrest hsite
      exact ⟨congrArg (Except.map _) hanswer, congrArg ((key, d₁') :: ·) hvalue, hsite⟩

/-- **Commits with moved labels end alike.** -/
theorem commit_moved (hblind : r.Blind k) (h : s.Moved k s') :
    EndsMoved k (r.commit s) (r.commit s') := by
  obtain ⟨hanswer, hvalue, hsite⟩ := commitEntries_moved hblind h
  unfold commit
  generalize commitEntries r.methods.entries s = o, commitEntries r.methods.entries s' = o'
    at hanswer hvalue hsite
  obtain ⟨answer, entries, s₁⟩ := o
  obtain ⟨answer', entries', s₁'⟩ := o'
  obtain rfl : answer' = answer := hanswer
  obtain rfl : entries' = entries := hvalue
  cases answer' with
  | error e => exact ⟨rfl, rfl, hsite⟩
  | ok n =>
    refine ⟨rfl, rfl, ?_⟩
    simp only
    split
    · exact hsite
    · exact hsite.write _ _ _ _

/-! ### Registrations -/

/-- The transpilers of the registrations are blind. -/
def BlindAdditions (k : Nat) (regs : List Registration) : Prop :=
  ∀ x ∈ regs, ∀ t, x.addition.transpiler? = some t → t.Blind k

theorem Blind.edit (h : r.Blind k) {x : Registration}
    (hx : ∀ t, x.addition.transpiler? = some t → t.Blind k) (journal : Journal) :
    (r.edit x.method x.addition.apply journal).1.Blind k := by
  have hmentioned : (r.mentioned x.method).Blind k := by
    cases hd : r.decorated? x.method with
    | some d =>
      rw [mentioned, hd]
      exact h _ (KeyMap.mem_entries_of_get? hd)
    | none =>
      rw [mentioned, hd]
      intro t ht
      cases ht
  rw [edit_eq]
  intro e he
  rcases KeyMap.mem_insertEntry he with rfl | he
  · intro t ht
    exact (PatternAddition.mem_chain_apply ht).elim (hmentioned t) (hx t)
  · exact h e he

theorem Blind.register {regs : List Registration} (h : r.Blind k) (hregs : BlindAdditions k regs)
    (journal : Journal) : (r.register regs journal).1.Blind k := by
  induction regs generalizing r journal with
  | nil => exact h
  | cons x regs ih =>
    obtain ⟨hx, hregs⟩ := List.forall_mem_cons.1 hregs
    exact ih (h.edit hx journal) hregs _

/-- Make registrations and commit. -/
def commitAfter (r : Registry) (regs : List Registration) (site : Site Host) :
    Except (CommitError HostError) Nat × Registry × Site Host :=
  let (r, journal) := r.register regs site.journal
  r.commit { site with journal := journal }

/-- What was registered in another order is committed alike. -/
theorem Rearranged.commitAfter_moved {regs regs' : List Registration} (h : Rearranged regs regs')
    (hr : r.Reachable) (halike : r.IntroducesAlike regs regs') (hblind : r.Blind k)
    (hregs : BlindAdditions k regs) (hsite : s.Moved k s') :
    EndsMoved k (r.commitAfter regs s) (r.commitAfter regs' s') := by
  unfold commitAfter
  simp only
  rw [← h.register_eq hr halike s.journal s'.journal]
  refine commit_moved (hblind.register hregs s.journal) ⟨hsite.host, ?_⟩
  simp only [supply_register]
  exact hsite.supply

/-! ### Patch modules -/

/-- A patch module that makes registrations and nothing else; it hands out no labels. -/
structure RegisteringShim where
  shim : Shim
  registrations : List Registration
  registers : ∀ r journal, (shim.entry r journal).1 = (register r registrations journal).1
  supply : ∀ r journal, (shim.entry r journal).2.supply = journal.supply

namespace RegisteringShim

/-- The module that makes given registrations. -/
def ofRegistrations (name : String) (registrations : List Registration) : RegisteringShim where
  shim := { name := name, entry := fun r journal => r.register registrations journal }
  registrations := registrations
  registers _ _ := rfl
  supply r journal := supply_register r registrations journal

/-- What a module registers when it is applied; it is applied once. -/
def pending (m : RegisteringShim) : List Registration :=
  if m.shim.applied then [] else m.registrations

/-- The modules add to different lists. -/
def Apart (m m' : RegisteringShim) : Prop :=
  ∀ x ∈ m.pending, ∀ x' ∈ m'.pending,
    ¬(x.method.token = x'.method.token ∧ x.addition.list = x'.addition.list)

theorem Apart.symm {m m' : RegisteringShim} (h : m.Apart m') : m'.Apart m :=
  fun x hx x' hx' hsame => h x' hx' x hx ⟨hsame.1.symm, hsame.2.symm⟩

/-- Running modules registers what is pending, in order. -/
theorem applyShims_eq (modules : List RegisteringShim) (r : Registry) (journal : Journal) :
    (Session.applyShims (modules.map (·.shim)) r journal).2.1 =
        (r.register (modules.flatMap pending) journal).1 ∧
      (Session.applyShims (modules.map (·.shim)) r journal).2.2.supply = journal.supply := by
  induction modules generalizing r journal with
  | nil => exact ⟨rfl, rfl⟩
  | cons m modules ih =>
    simp only [List.map_cons, Session.applyShims, Shim.apply, List.flatMap_cons, pending]
    split
    · exact ih r journal
    · obtain ⟨hregistry, hsupply⟩ := ih (m.shim.entry r _).1 (m.shim.entry r _).2
      refine ⟨?_, ?_⟩
      · rw [hregistry, m.registers, register_append, r.register_congr m.registrations _ journal]
        exact register_congr _ _ _ _
      · rw [hsupply, m.supply]
        rfl

/-- Of two modules that add to different lists, one at most adds to a given list. -/
theorem Apart.filter_eq_nil {m m' : RegisteringShim} (h : m.Apart m') (t : Token)
    (l : PatternList) :
    m.pending.filter (fun x => x.method.token = t ∧ x.addition.list = l) = [] ∨
      m'.pending.filter (fun x => x.method.token = t ∧ x.addition.list = l) = [] := by
  refine or_iff_not_imp_left.2 fun hsome => ?_
  obtain ⟨x, hx⟩ := List.exists_mem_of_ne_nil _ hsome
  obtain ⟨hmem, hslot⟩ := List.mem_filter.1 hx
  obtain ⟨htoken, hlist⟩ := of_decide_eq_true hslot
  refine List.filter_eq_nil_iff.2 fun x' hmem' hslot' => h x hmem x' hmem' ?_
  obtain ⟨htoken', hlist'⟩ := of_decide_eq_true hslot'
  exact ⟨htoken.trans htoken'.symm, hlist.trans hlist'.symm⟩

/-- Modules that add to different lists may run in any order. -/
theorem rearranged_of_perm {modules modules' : List RegisteringShim} (h : modules.Perm modules')
    (hapart : modules.Pairwise Apart) :
    Rearranged (modules.flatMap pending) (modules'.flatMap pending) where
  perm := h.flatMap_right _
  order := by
    intro t l
    rw [List.filter_flatMap, List.filter_flatMap]
    exact flatMap_eq_of_perm h (hapart.imp fun hmm => hmm.filter_eq_nil t l)

/-- A session with modules that have been registered and may be pending. -/
def session (r : Registry) (modules : List RegisteringShim) (site : Site Host) : Session Host where
  site := site
  registry := r
  shims := modules.map (·.shim)

/-- Commit such a session. -/
def commitSession (r : Registry) (modules : List RegisteringShim) (site : Site Host) :
    Except (CommitError HostError) Nat × Registry × Site Host :=
  let (answer, s) := (session r modules site).commit
  (answer, s.registry, s.site)

theorem commitSession_moved {modules modules' : List RegisteringShim} (h : modules.Perm modules')
    (hapart : modules.Pairwise Apart) (hr : r.Reachable)
    (halike : r.IntroducesAlike (modules.flatMap pending) (modules'.flatMap pending))
    (hblind : r.Blind k)
    (hregs : BlindAdditions k (modules.flatMap pending)) (hsite : s.Moved k s') :
    EndsMoved k (commitSession r modules s) (commitSession r modules' s') := by
  obtain ⟨hregistry, hsupply⟩ := applyShims_eq modules r s.journal
  obtain ⟨hregistry', hsupply'⟩ := applyShims_eq modules' r s'.journal
  rw [← (rearranged_of_perm h hapart).register_eq hr halike s.journal s'.journal,
    ← hregistry] at hregistry'
  have hregistered : (Session.applyShims (modules.map (·.shim)) r s.journal).2.1.Blind k := by
    rw [hregistry]
    exact hblind.register hregs s.journal
  unfold commitSession session Session.commit
  simp only
  generalize Session.applyShims (modules.map (·.shim)) r s.journal = applied,
    Session.applyShims (modules'.map (·.shim)) r s'.journal = applied'
    at hsupply hregistry' hsupply' hregistered
  obtain ⟨shims, registry, journal⟩ := applied
  obtain ⟨shims', registry', journal'⟩ := applied'
  obtain rfl : registry' = registry := hregistry'
  have hmoved : Site.Moved k { s with journal := journal } { s' with journal := journal' } := by
    refine ⟨hsite.host, ?_⟩
    rw [show journal.supply = _ from hsupply, show journal'.supply = _ from hsupply']
    exact hsite.supply
  exact commit_moved hregistered hmoved

end RegisteringShim

open RegisteringShim

/-- **Independent registrations commute.**  From one registry and one host, with transpilers that do
not look at label numbers: registrations in another order, which keeps the order of additions to
each list of each method, and patch modules in another order, which add to different lists, are
committed with the same answer and leave the same registry and the same host.  Registrations for a
token that is not decorated yet have to describe one method. -/
theorem registrations_commute (hr : r.Reachable) (hblind : r.Blind k) (hsite : s.Moved k s') :
    (∀ regs regs', Rearranged regs regs' → r.IntroducesAlike regs regs' → BlindAdditions k regs →
      EndsMoved k (r.commitAfter regs s) (r.commitAfter regs' s')) ∧
    ∀ modules modules' : List RegisteringShim, modules.Perm modules' → modules.Pairwise Apart →
      r.IntroducesAlike (modules.flatMap pending) (modules'.flatMap pending) →
      BlindAdditions k (modules.flatMap pending) →
      EndsMoved k (commitSession r modules s) (commitSession r modules' s') :=
  ⟨fun _ _ h halike hregs => h.commitAfter_moved hr halike hblind hregs hsite,
    fun _ _ h hapart halike hregs => commitSession_moved h hapart hr halike hblind hregs hsite⟩

/-! ### Hooks and a pass in two orders -/

/-- A transpiler that leaves the instructions as they are. -/
def keeping : Transpiler := .ofFunction "keep" .ok

theorem blind_keeping (k : Nat) : keeping.Blind k := Transpiler.blind_ofFunction "keep" fun _ => rfl

/-- Two hooks before the first method. -/
def firstHooks : List Registration :=
  [⟨lane 1, ⟨.prefixes, lane 3⟩⟩, ⟨lane 1, ⟨.prefixes, lane 4⟩⟩]

/-- A transpiler for the second method. -/
def secondPass : List Registration := [⟨lane 2, ⟨.transpilers, keeping⟩⟩]

theorem rearranged_lanes : Rearranged (firstHooks ++ secondPass) (secondPass ++ firstHooks) where
  perm := List.perm_append_comm
  order := by
    intro t l
    cases l <;> simp [firstHooks, secondPass, List.filter_cons]

theorem blindAdditions_lanes (k : Nat) : BlindAdditions k (firstHooks ++ secondPass) := by
  intro x hx t ht
  simp only [firstHooks, secondPass, List.cons_append, List.nil_append, List.mem_cons,
    List.not_mem_nil, or_false] at hx
  rcases hx with rfl | rfl | rfl
  · cases ht
  · cases ht
  · cases ht
    exact blind_keeping k

/-- Both methods have bodies; labels begin at a given number. -/
def twoLanes (next : Nat) : Site Host :=
  let module := (({} : Module).setBody (lane 1) { code := [0x2a] }).setBody (lane 2) { code := [0x2a] }
  ⟨{ module := module }, { supply := ⟨next⟩ }⟩

theorem introducesAlike_lanes :
    IntroducesAlike {} (firstHooks ++ secondPass) (secondPass ++ firstHooks) := by
  refine rearranged_lanes.introducesAlike _ ?_
  simp [firstHooks, secondPass, lane, Token.ofRow, Token.methodDefTable, Token.rowLimit]

/-- The two methods are installed, in whichever order the registrations or the modules that make
them come. -/
theorem registrations_commute_lanes :
    Reachable {} ∧ Blind 1 {} ∧ (twoLanes 0).Moved 1 (twoLanes 1) ∧
      (commitAfter {} (firstHooks ++ secondPass) (twoLanes 0)).1.toOption = some 2 ∧
      EndsMoved 1 (commitAfter {} (firstHooks ++ secondPass) (twoLanes 0))
        (commitAfter {} (secondPass ++ firstHooks) (twoLanes 1)) ∧
      EndsMoved 1
        (commitSession {} [.ofRegistrations "a" firstHooks, .ofRegistrations "b" secondPass]
          (twoLanes 0))
        (commitSession {} [.ofRegistrations "b" secondPass, .ofRegistrations "a" firstHooks]
          (twoLanes 1)) := by
  have hreachable : Reachable {} := .start {}
  have hblind : Blind 1 {} := nofun
  have hmoved : (twoLanes 0).Moved 1 (twoLanes 1) := ⟨rfl, rfl⟩
  have hcommute := registrations_commute hreachable hblind hmoved
  refine ⟨hreachable, hblind, hmoved, by decide +kernel, ?_, ?_⟩
  · exact hcommute.1 _ _ rearranged_lanes introducesAlike_lanes (blindAdditions_lanes 1)
  · refine hcommute.2 _ _ (.swap _ _ _) (List.pairwise_pair.2 ?_) introducesAlike_lanes
      (blindAdditions_lanes 1)
    rintro x hx x' hx' ⟨-, hlist⟩
    obtain rfl : x' = ⟨lane 2, ⟨.transpilers, keeping⟩⟩ := List.mem_singleton.1 hx'
    rcases List.mem_cons.1 hx with rfl | hx
    · cases hlist
    · obtain rfl := List.mem_singleton.1 hx
      cases hlist

/-- The first method, described with a result. -/
def counting : MethodRef :=
  { lane 1 with returnType := some .int32 }

/-- A hook that takes such a result. -/
def watching : MethodRef :=
  { lane 3 with parameters := [.int32] }

/-- Two descriptions of the first method. -/
def twoDescriptions : List Registration :=
  [⟨counting, ⟨.suffixes, watching⟩⟩, ⟨lane 1, ⟨.prefixes, lane 4⟩⟩]

/-- The method has a body with a result. -/
def oneCounter : Site Host :=
  ⟨{ module := ({} : Module).setBody counting { code := [0x16, 0x2a] } }, {}⟩

/-- **The first description counts.**  Two registrations for one token go to different lists, and
there are no transpilers.  In one order the method is decorated as one with a result, and is
installed; in the other order it is decorated as one without, and the hook that takes the result is
refused. -/
theorem firstDescription_counts :
    Reachable {} ∧ Rearranged twoDescriptions twoDescriptions.reverse ∧
      BlindAdditions 0 twoDescriptions ∧
      (commitAfter {} twoDescriptions oneCounter).1.isOk = true ∧
      (commitAfter {} twoDescriptions.reverse oneCounter).1.isOk = false := by
  refine ⟨.start {}, ⟨(List.reverse_perm _).symm, fun t l => ?_⟩, fun x hx t ht => ?_,
    by decide +kernel, by decide +kernel⟩
  · cases l <;> simp [twoDescriptions, List.filter_cons]
  · rcases List.mem_cons.1 hx with rfl | hx
    · cases ht
    · obtain rfl := List.mem_singleton.1 hx
      cases ht

end Registry

end MethodWeave
