import MethodWeave.Proofs.Patch.Editing
/-!
Commits of a registry that stop at a failure.

The commit of a registry is the commits of its methods in turn (`Registry.InTurn`); if one of them
fails, the registry falls into the methods before it, which have been committed, the method itself,
and the methods behind it, which nobody has looked at (`Registry.commitEntries_eq_error`).  To see
what the host is asked for, it is wrapped into one that keeps the calls made to it (`Traced`), which
changes nothing that a commit does (`Registry.commit_bare`).

Main result: `Registry.Reachable.commit_laws`, what a commit of a registry that was built by its own
operations leaves behind, if it fails and if it succeeds.
-/

namespace MethodWeave

/-! ### Listening to a host -/

/-- A call of a host, and whether it succeeded. -/
inductive HostCall where
  | patch (method : MethodRef) (request : PatchRequest) (succeeded : Bool)
  | unpatch (method : MethodRef) (owner : String) (succeeded : Bool)

namespace HostCall

def method : HostCall → MethodRef
  | .patch method _ _ => method
  | .unpatch method _ _ => method

/-- Was anything installed? -/
def installs : HostCall → Bool
  | .patch _ _ succeeded => succeeded
  | .unpatch _ _ _ => false

end HostCall

/-- A host, and the calls made to it. -/
structure Traced (σ : Type) where
  host : σ
  calls : List HostCall := []

namespace Traced

variable {σ ρ : Type}

/-- The site with nobody listening. -/
def bare (s : Site (Traced σ)) : Site σ := ⟨s.host.host, s.journal⟩

/-- Write a call down, with its outcome. -/
def note (s : Site (Traced σ)) (call : Bool → HostCall) (outcome : Except ρ Unit × Site σ) :
    Except ρ Unit × Site (Traced σ) :=
  (outcome.1, ⟨⟨outcome.2.host, s.host.calls ++ [call outcome.1.isOk]⟩, outcome.2.journal⟩)

instance [PatchHost σ ρ] : PatchHost (Traced σ) ρ where
  patch method request s := note s (.patch method request) (PatchHost.patch method request (bare s))
  unpatch method owner s := note s (.unpatch method owner) (PatchHost.unpatch method owner (bare s))

/-- What is left of an outcome with nobody listening. -/
def strip {α β : Type} (outcome : α × β × Site (Traced σ)) : α × β × Site σ :=
  (outcome.1, outcome.2.1, bare outcome.2.2)

@[simp] theorem bare_write (s : Site (Traced σ)) (level : Level) (line : Unit → String) :
    bare (s.write level line) = (bare s).write level line := rfl

/-- Between two sites there were calls about some methods only, and a number of installations. -/
def Called (P : MethodRef → Prop) (n : Nat) (s s' : Site (Traced σ)) : Prop :=
  ∃ calls, s'.host.calls = s.host.calls ++ calls ∧ (∀ call ∈ calls, P call.method) ∧
    calls.countP HostCall.installs = n

section

variable {P Q : MethodRef → Prop} {n k : Nat} {s s₁ s' : Site (Traced σ)}

theorem Called.of_eq (h : s'.host = s.host) : Called P 0 s s' :=
  ⟨[], by rw [h, List.append_nil], nofun, rfl⟩

theorem Called.trans (h : Called P n s s₁) (h' : Called P k s₁ s') : Called P (n + k) s s' := by
  obtain ⟨calls, hcalls, habout, hcount⟩ := h
  obtain ⟨calls', hcalls', habout', hcount'⟩ := h'
  refine ⟨calls ++ calls', by rw [hcalls', hcalls, List.append_assoc], fun call hcall => ?_, ?_⟩
  · exact (List.mem_append.1 hcall).elim (habout call) (habout' call)
  · rw [List.countP_append, hcount, hcount']

theorem Called.mono (h : Called P n s s') (himp : ∀ m, P m → Q m) : Called Q n s s' := by
  obtain ⟨calls, hcalls, habout, hcount⟩ := h
  exact ⟨calls, hcalls, fun call hcall => himp _ (habout call hcall), hcount⟩

variable [PatchHost σ ρ]

theorem called_patch {method : MethodRef} {request : PatchRequest} {answer : Except ρ Unit}
    (h : PatchHost.patch method request s = (answer, s')) :
    Called (· = method) (if answer.isOk then 1 else 0) s s' := by
  obtain ⟨rfl, rfl⟩ := Prod.mk.inj h
  exact ⟨_, rfl, fun call hcall => congrArg HostCall.method (List.mem_singleton.1 hcall),
    List.countP_singleton⟩

theorem called_unpatch {method : MethodRef} {owner : String} {answer : Except ρ Unit}
    (h : PatchHost.unpatch method owner s = (answer, s')) : Called (· = method) 0 s s' := by
  obtain ⟨rfl, rfl⟩ := Prod.mk.inj h
  exact ⟨_, rfl, fun call hcall => congrArg HostCall.method (List.mem_singleton.1 hcall), rfl⟩

end

end Traced

open Traced

namespace Decorated

variable {σ ρ : Type} [PatchHost σ ρ]

/-! ### What a method asks for -/

/-- How many installations an answer reports. -/
def installations {ε : Type} : Except ε Bool → Nat
  | .ok installed => if installed then 1 else 0
  | .error _ => 0

section

variable {d d' : Decorated} {s s' : Site (Traced σ)}

theorem Reverts.called {answer : Except (InstallError ρ) Unit}
    (h : d.Reverts s (answer, d', s')) : Called (· = d.method) 0 s s' := by
  cases h with
  | idle _ => exact .of_eq rfl
  | refused _ hunpatch | removed _ hunpatch =>
    have hcalled := called_unpatch hunpatch
    exact hcalled

theorem Installs.called {answer : Except (InstallError ρ) Unit}
    (h : d.Installs s (answer, d', s')) :
    Called (· = d.method) (if answer.isOk then 1 else 0) s s' := by
  cases h with
  | refused hpatch | installed hpatch =>
    have hcalled := called_patch hpatch
    exact hcalled

theorem Reinstalls.called {answer : Except (InstallError ρ) Bool}
    (h : d.Reinstalls s (answer, d', s')) :
    Called (· = d.method) (installations answer) s s' := by
  cases h with
  | notRemoved hreverts | emptied hreverts _ => exact hreverts.called
  | notInstalled hreverts _ hinstalls | installed hreverts _ hinstalls =>
    have hremoving := hreverts.called
    obtain rfl := hreverts.eq_of_ok
    have hboth := hremoving.trans hinstalls.called
    rw [Nat.zero_add] at hboth
    exact hboth

/-- A commit makes calls about its method only, and as many installations as it answers. -/
theorem Commits.called {answer : Except (CommitError ρ) Bool} (h : d.Commits s (answer, d', s')) :
    Called (· = d.method) (installations answer) s s' := by
  cases h with
  | idle _ => exact .of_eq rfl
  | done _ hreinstalls | failed _ hreinstalls => exact hreinstalls.called

end

/-! ### Nothing changes because somebody listens -/

theorem revert_bare (d : Decorated) (s : Site (Traced σ)) :
    d.revert (bare s) = strip (d.revert s) := by
  unfold revert
  split
  · rfl
  · simp only [PatchHost.unpatch, note, bare_write]
    generalize (PatchHost.unpatch d.method d.owner _ : Except ρ Unit × Site σ) = outcome
    obtain ⟨e | ⟨⟩, site⟩ := outcome <;> rfl

theorem install_bare (d : Decorated) (s : Site (Traced σ)) :
    d.install (bare s) = strip (d.install s) := by
  simp only [install, PatchHost.patch, note, bare_write]
  generalize (PatchHost.patch d.method d.request _ : Except ρ Unit × Site σ) = outcome
  obtain ⟨e | ⟨⟩, site⟩ := outcome <;> rfl

theorem reinstall_bare (d : Decorated) (s : Site (Traced σ)) :
    d.reinstall (bare s) = strip (d.reinstall s) := by
  simp only [reinstall, revert_bare]
  generalize d.revert s = reverted
  obtain ⟨e | ⟨⟩, d₁, s₁⟩ := reverted
  · rfl
  · simp only [strip]
    split
    · rfl
    · rw [install_bare]
      generalize d₁.install s₁ = installed
      obtain ⟨e | ⟨⟩, d', s'⟩ := installed <;> rfl

theorem commit_bare (d : Decorated) (s : Site (Traced σ)) :
    d.commit (bare s) = strip (d.commit s) := by
  unfold commit
  simp only
  split
  · rfl
  · rw [reinstall_bare]
    generalize reinstall _ s = outcome
    obtain ⟨e | installed, d', s'⟩ := outcome <;> rfl

end Decorated

namespace Registry

variable {σ ρ : Type} [PatchHost σ ρ]

/-! ### Committing in turn -/

/-- Entries are committed in turn, each by its own commit; `n` of them are installed. -/
inductive InTurn :
    List (Nat × Decorated) → Site σ → (n : Nat) → List (Nat × Decorated) → Site σ → Prop
  | nil (site : Site σ) : InTurn [] site 0 [] site
  | cons {key n : Nat} {d d' : Decorated} {installed : Bool} {rest rest' : List (Nat × Decorated)}
      {site site₁ site' : Site σ} : d.commit site = (.ok installed, d', site₁) →
      InTurn rest site₁ n rest' site' →
      InTurn ((key, d) :: rest) site (if installed then n + 1 else n) ((key, d') :: rest') site'

section

variable {entries entries' : List (Nat × Decorated)} {site site' : Site σ} {n : Nat}

theorem commitEntries_eq_ok (h : commitEntries entries site = (.ok n, entries', site')) :
    InTurn entries site n entries' site' := by
  induction entries generalizing site n entries' site' with
  | nil =>
    cases h
    exact .nil site
  | cons entry rest ih =>
    obtain ⟨key, d⟩ := entry
    rw [commitEntries] at h
    split at h
    · cases h
    · next installed d' site₁ hcommit =>
      rcases hrest : commitEntries rest site₁ with ⟨result, rest', site₂⟩
      rw [hrest] at h
      cases result with
      | error e => cases h
      | ok m =>
        cases h
        exact .cons hcommit (ih hrest)

/-- **A failure.**  The entries before it have been committed in turn, those behind it are as they
were. -/
theorem commitEntries_eq_error {e : CommitError ρ}
    (h : commitEntries entries site = (.error e, entries', site')) :
    ∃ before before' key d d' after n site₁, entries = before ++ (key, d) :: after ∧
      InTurn before site n before' site₁ ∧ d.commit site₁ = (.error e, d', site') ∧
      entries' = before' ++ (key, d') :: after := by
  induction entries generalizing site entries' site' with
  | nil => cases h
  | cons entry rest ih =>
    obtain ⟨key, d⟩ := entry
    rw [commitEntries] at h
    split at h
    · next hcommit =>
      cases h
      exact ⟨[], [], key, d, _, rest, 0, site, rfl, .nil site, hcommit, rfl⟩
    · next installed d' site₁ hcommit =>
      rcases hrest : commitEntries rest site₁ with ⟨result, rest', site₂⟩
      rw [hrest] at h
      cases result with
      | ok m => cases h
      | error e' =>
        cases h
        obtain ⟨before, before', key', d₁, d', after, n, site₁, rfl, hturn, hfail, rfl⟩ := ih hrest
        exact ⟨_, _, key', d₁, d', after, _, site₁, rfl, .cons hcommit hturn, hfail, rfl⟩

/-- Every entry is committed by its own commit. -/
theorem InTurn.exists_commit (h : InTurn entries site n entries' site') {key : Nat} {d : Decorated}
    (hmem : (key, d) ∈ entries) : ∃ (site₁ : Site σ) (installed : Bool) (d' : Decorated)
      (site₂ : Site σ), d.commit site₁ = (.ok installed, d', site₂) ∧ (key, d') ∈ entries' := by
  induction h with
  | nil _ => cases hmem
  | cons hcommit _ ih =>
    rcases List.mem_cons.1 hmem with heq | hmem
    · cases heq
      exact ⟨_, _, _, _, hcommit, List.mem_cons_self⟩
    · obtain ⟨site₁, installed, d', site₂, hcommit', hmem'⟩ := ih hmem
      exact ⟨site₁, installed, d', site₂, hcommit', List.mem_cons_of_mem _ hmem'⟩

/-- No flag is raised afterwards. -/
theorem InTurn.unchanged (h : InTurn entries site n entries' site') :
    ∀ e ∈ entries', (e.2.pattern.poll false).1 = false := by
  induction h with
  | nil _ => nofun
  | @cons _ _ d d' _ _ _ site _ _ hcommit _ ih =>
    refine List.forall_mem_cons.2 ⟨?_, ih⟩
    have hcommits := d.commits site
    rw [hcommit] at hcommits
    obtain ⟨isPatched, rfl⟩ := hcommits.kept
    rfl

end

/-- What was committed in turn was asked for by the methods, and `n` of them were installed. -/
theorem InTurn.called {entries entries' : List (Nat × Decorated)} {s s' : Site (Traced σ)} {n : Nat}
    (h : InTurn entries s n entries' s') :
    Called (fun m => ∃ e ∈ entries, e.2.method = m) n s s' := by
  induction h with
  | nil s => exact .of_eq rfl
  | @cons key n d _ installed rest _ s s₁ s' hcommit _ ih =>
    have hcommits := d.commits s
    rw [hcommit] at hcommits
    have hfirst : Called (fun m => ∃ e ∈ (key, d) :: rest, e.2.method = m)
        (Decorated.installations (.ok installed : Except (CommitError ρ) Bool)) s s₁ :=
      hcommits.called.mono fun m hm => ⟨_, List.mem_cons_self, hm.symm⟩
    have hboth := hfirst.trans (ih.mono fun m ⟨e, he, hm⟩ => ⟨e, List.mem_cons_of_mem _ he, hm⟩)
    cases installed with
    | false => exact Nat.zero_add n ▸ hboth
    | true => exact Nat.add_comm 1 n ▸ hboth

theorem commitEntries_bare (entries : List (Nat × Decorated)) (s : Site (Traced σ)) :
    commitEntries entries (bare s) = strip (commitEntries entries s) := by
  induction entries generalizing s with
  | nil => rfl
  | cons entry rest ih =>
    obtain ⟨key, d⟩ := entry
    simp only [commitEntries, d.commit_bare]
    generalize d.commit s = outcome
    obtain ⟨e | installed, d', s₁⟩ := outcome
    · rfl
    · simp only [strip, ih]

/-- **Nothing changes because somebody listens.** -/
theorem commit_bare (r : Registry) (s : Site (Traced σ)) : r.commit (bare s) = strip (r.commit s) := by
  simp only [commit, commitEntries_bare]
  generalize commitEntries r.methods.entries s = outcome
  obtain ⟨e | n, entries', s'⟩ := outcome
  · rfl
  · simp only [strip]
    split <;> rfl

/-! ### What a commit leaves behind -/

/-- A commit has failed at the method that the error names. -/
structure Stopped (r : Registry) (s : Site (Traced σ)) (e : CommitError ρ) (r' : Registry)
    (s' : Site (Traced σ)) : Prop where
  /-- The methods with smaller tokens have been committed in turn, and the commit of that method has
  failed behind them. -/
  course : ∃ (before : List (Nat × Decorated)) (n : Nat) (before' : List (Nat × Decorated))
    (s₁ : Site (Traced σ)) (d d' : Decorated),
    before = r.methods.entries.filter (·.1 < e.method.token.key) ∧ InTurn before s n before' s₁ ∧
      r.decorated? e.method = some d ∧ d.commit s₁ = (.error e, d', s') ∧
      r'.methods.entries = before' ++ (e.method.token.key, d') ::
        r.methods.entries.filter (e.method.token.key < ·.1)
  /-- Each of the methods with smaller tokens is as its own commit has left it. -/
  smaller : ∀ m d, m.token.key < e.method.token.key → r.decorated? m = some d →
    ∃ (s₁ : Site (Traced σ)) (installed : Bool) (d' : Decorated) (s₂ : Site (Traced σ)),
      d.commit s₁ = (.ok installed, d', s₂) ∧ r'.decorated? m = some d'
  /-- The methods with larger tokens are as they were. -/
  larger : ∀ m, e.method.token.key < m.token.key → r'.decorated? m = r.decorated? m
  /-- The host has not been called for them. -/
  called : ∃ n, Called (fun m => m.token.key ≤ e.method.token.key) n s s'
  /-- And they are not forgotten: a later commit that succeeds, on whatever host, commits each of
  them as it was. -/
  later : ∀ m d, e.method.token.key < m.token.key → r.decorated? m = some d →
    ∀ {τ ε : Type} [PatchHost τ ε] (site : Site τ) (n : Nat) (r₁ : Registry) (site₁ : Site τ),
      r'.commit site = (.ok n, r₁, site₁) →
      ∃ (site₂ : Site τ) (installed : Bool) (d' : Decorated) (site₃ : Site τ),
        d.commit site₂ = (.ok installed, d', site₃) ∧ r₁.decorated? m = some d'

/-- A commit has succeeded. -/
structure Completed (r : Registry) (s : Site (Traced σ)) (n : Nat) (r' : Registry)
    (s' : Site (Traced σ)) : Prop where
  inTurn : ∃ s₁ : Site (Traced σ), InTurn r.methods.entries s n r'.methods.entries s₁ ∧
    s'.host = s₁.host
  settled : r'.hasChanges = false
  /-- It answers how many installations it made. -/
  called : Called (fun m => ∃ d, r.decorated? m = some d) n s s'

/-- What a commit of a registry can lead to. -/
inductive Course (r : Registry) (s : Site (Traced σ)) :
    Except (CommitError ρ) Nat × Registry × Site (Traced σ) → Prop
  | completed {n : Nat} {r' : Registry} {s' : Site (Traced σ)} :
      r.Completed s n r' s' → Course r s (.ok n, r', s')
  | stopped {e : CommitError ρ} {r' : Registry} {s' : Site (Traced σ)} :
      r.Stopped s e r' s' → Course r s (.error e, r', s')

theorem commit_eq_ok {r r' : Registry} {site site' : Site σ} {n : Nat}
    (h : r.commit site = (.ok n, r', site')) : ∃ site₁ : Site σ,
      InTurn r.methods.entries site n r'.methods.entries site₁ ∧ site'.host = site₁.host := by
  unfold commit at h
  rcases hentries : commitEntries r.methods.entries site with ⟨e | n', entries', site₁⟩
  · rw [hentries] at h
    cases h
  · rw [hentries] at h
    cases h
    refine ⟨site₁, commitEntries_eq_ok hentries, ?_⟩
    split <;> rfl

theorem Ordered.of_commit {r r' : Registry} (h : Ordered r.methods.entries) {site site' : Site σ}
    {answer : Except (CommitError ρ) Nat} (hcommit : r.commit site = (answer, r', site')) :
    Ordered r'.methods.entries := by
  have hafter := h.commit site
  rw [hcommit] at hafter
  exact hafter

/-- A commit that succeeds commits each method by its own commit. -/
theorem Ordered.exists_commit {r r' : Registry} (h : Ordered r.methods.entries)
    {site site' : Site σ} {n : Nat} (hcommit : r.commit site = (.ok n, r', site')) {m : MethodRef}
    {d : Decorated} (hd : r.decorated? m = some d) :
    ∃ (site₁ : Site σ) (installed : Bool) (d' : Decorated) (site₂ : Site σ),
      d.commit site₁ = (.ok installed, d', site₂) ∧ r'.decorated? m = some d' := by
  have h' := h.of_commit hcommit
  obtain ⟨_, hturn, -⟩ := commit_eq_ok hcommit
  obtain ⟨site₁, installed, d', site₂, hown, hmem'⟩ := hturn.exists_commit (h.decorated?_iff.1 hd)
  exact ⟨site₁, installed, d', site₂, hown, h'.decorated?_iff.2 hmem'⟩

theorem Ordered.completed {r r' : Registry} (h : Ordered r.methods.entries) {s s' : Site (Traced σ)}
    {n : Nat} (hcommit : r.commit s = (.ok n, r', s')) : r.Completed s n r' s' where
  inTurn := commit_eq_ok hcommit
  settled := by
    obtain ⟨s₁, hturn, -⟩ := commit_eq_ok hcommit
    rw [hasChanges, KeyMap.values, List.any_map, List.any_eq_false]
    exact fun e he => Bool.not_eq_true _ ▸ hturn.unchanged e he
  called := by
    obtain ⟨s₁, hturn, hhost⟩ := commit_eq_ok hcommit
    have hcalled := hturn.called.mono (Q := fun m => ∃ d, r.decorated? m = some d)
      fun m ⟨e, he, hm⟩ => ⟨e.2, h.decorated?_iff.2 (by rw [← hm, h.filed e he]; exact he)⟩
    exact hcalled.trans (Called.of_eq hhost)

/-- The error names the method. -/
theorem method_of_commit_error {d d' : Decorated} {site site' : Site σ} {e : CommitError ρ}
    (h : d.commit site = (.error e, d', site')) : e.method = d.method := by
  have hcommits := d.commits site
  rw [h] at hcommits
  cases hcommits with
  | failed _ hreinstalls =>
    obtain ⟨isPatched, rfl⟩ := hreinstalls.kept
    rfl

/-- The entries before and behind one of them are those with smaller and with larger keys. -/
theorem Ordered.split {before after : List (Nat × Decorated)} {key : Nat} {d : Decorated}
    (h : Ordered (before ++ (key, d) :: after)) :
    (∀ e ∈ before, e.1 < key) ∧ ∀ e ∈ after, key < e.1 := by
  have hkeys := h.keys
  rw [List.map_append, List.map_cons, List.pairwise_append] at hkeys
  obtain ⟨-, hafter, hbefore⟩ := hkeys
  refine ⟨fun e he => ?_, fun e he => ?_⟩
  · exact hbefore e.1 (List.mem_map_of_mem he) key List.mem_cons_self
  · exact (List.pairwise_cons.1 hafter).1 e.1 (List.mem_map_of_mem he)

theorem Ordered.mem_before_iff {before after : List (Nat × Decorated)} {key : Nat} {d : Decorated}
    (h : Ordered (before ++ (key, d) :: after)) {e : Nat × Decorated} (hlt : e.1 < key) :
    e ∈ before ++ (key, d) :: after ↔ e ∈ before := by
  refine ⟨fun hmem => ?_, List.mem_append_left _⟩
  rcases List.mem_append.1 hmem with hmem | hmem
  · exact hmem
  · rcases List.mem_cons.1 hmem with rfl | hmem
    · exact absurd hlt (Nat.lt_irrefl _)
    · exact absurd hlt (Nat.lt_asymm (h.split.2 e hmem))

theorem Ordered.mem_behind_iff {before after : List (Nat × Decorated)} {key : Nat} {d : Decorated}
    (h : Ordered (before ++ (key, d) :: after)) {e : Nat × Decorated} (hlt : key < e.1) :
    e ∈ before ++ (key, d) :: after ↔ e ∈ after := by
  refine ⟨fun hmem => ?_, fun hmem => List.mem_append_right _ (List.mem_cons_of_mem _ hmem)⟩
  rcases List.mem_append.1 hmem with hmem | hmem
  · exact absurd hlt (Nat.lt_asymm (h.split.1 e hmem))
  · rcases List.mem_cons.1 hmem with rfl | hmem
    · exact absurd hlt (Nat.lt_irrefl _)
    · exact hmem

theorem Ordered.filter_eq {before after : List (Nat × Decorated)} {key : Nat} {d : Decorated}
    (h : Ordered (before ++ (key, d) :: after)) :
    (before ++ (key, d) :: after).filter (·.1 < key) = before ∧
      (before ++ (key, d) :: after).filter (key < ·.1) = after := by
  obtain ⟨hbefore, hafter⟩ := h.split
  have hnone₁ : after.filter (·.1 < key) = [] :=
    List.filter_eq_nil_iff.2 fun e he => by simpa using Nat.le_of_lt (hafter e he)
  have hnone₂ : before.filter (key < ·.1) = [] :=
    List.filter_eq_nil_iff.2 fun e he => by simpa using Nat.le_of_lt (hbefore e he)
  have hall₁ : before.filter (·.1 < key) = before :=
    List.filter_eq_self.2 fun e he => by simpa using hbefore e he
  have hall₂ : after.filter (key < ·.1) = after :=
    List.filter_eq_self.2 fun e he => by simpa using hafter e he
  simp [List.filter_append, hnone₁, hnone₂, hall₁, hall₂]

theorem commit_eq_error {r r' : Registry} {site site' : Site σ} {e : CommitError ρ}
    (h : r.commit site = (.error e, r', site')) :
    commitEntries r.methods.entries site = (.error e, r'.methods.entries, site') := by
  unfold commit at h
  rcases hentries : commitEntries r.methods.entries site with ⟨e' | n, entries', site₁⟩
  · rw [hentries] at h
    cases h
    rfl
  · rw [hentries] at h
    cases h

theorem Ordered.stopped {r r' : Registry} (h : Ordered r.methods.entries) {s s' : Site (Traced σ)}
    {e : CommitError ρ} (hcommit : r.commit s = (.error e, r', s')) : r.Stopped s e r' s' := by
  have h' := h.of_commit hcommit
  obtain ⟨before, before', key, d, d', after, n, s₁, hentries, hturn, hfail, hentries'⟩ :=
    commitEntries_eq_error (commit_eq_error hcommit)
  have hmem : (key, d) ∈ r.methods.entries := by
    rw [hentries]
    exact List.mem_append_right _ List.mem_cons_self
  obtain rfl : e.method.token.key = key := by
    rw [method_of_commit_error hfail]
    exact h.filed _ hmem
  have hordered : Ordered (before ++ (e.method.token.key, d) :: after) := hentries ▸ h
  have hordered' : Ordered (before' ++ (e.method.token.key, d') :: after) := hentries' ▸ h'
  obtain ⟨hbefore, hafter⟩ := hordered.filter_eq
  rw [← hentries] at hbefore hafter
  -- what has a larger token stands behind the failure, in the registry before and after it
  have hbehind (m : MethodRef) (hlt : e.method.token.key < m.token.key) (x : Decorated) :
      (m.token.key, x) ∈ r'.methods.entries ↔ (m.token.key, x) ∈ r.methods.entries := by
    rw [hentries, hentries', hordered.mem_behind_iff (e := (m.token.key, x)) hlt,
      hordered'.mem_behind_iff (e := (m.token.key, x)) hlt]
  refine ⟨⟨before, n, before', s₁, d, d', hbefore.symm, hturn, h.decorated?_iff.2 hmem, hfail, ?_⟩,
    fun m d hlt hd => ?smaller, fun m hlt => ?larger, ?called, fun m d hlt hd => ?later⟩
  · rw [hafter]
    exact hentries'
  case smaller =>
    have hmem := h.decorated?_iff.1 hd
    rw [hentries, hordered.mem_before_iff (e := (m.token.key, d)) hlt] at hmem
    obtain ⟨s₂, installed, d₁, s₃, hcommit₁, hmem'⟩ := hturn.exists_commit hmem
    refine ⟨s₂, installed, d₁, s₃, hcommit₁, h'.decorated?_iff.2 ?_⟩
    rw [hentries']
    exact List.mem_append_left _ hmem'
  case larger =>
    exact Option.ext fun x => by rw [h'.decorated?_iff, h.decorated?_iff, hbehind m hlt]
  case called =>
    have hcommits := d.commits s₁
    rw [hfail] at hcommits
    have hlast := hcommits.called.mono fun m hm =>
      (show m.token.key ≤ e.method.token.key from hm ▸ Nat.le_of_eq (h.filed _ hmem))
    have hfirst := hturn.called.mono fun m ⟨x, hx, hm⟩ => by
      have hlt := hordered.split.1 x hx
      have hfiled := h.filed x (hentries ▸ List.mem_append_left _ hx)
      exact (show m.token.key ≤ e.method.token.key from
        hm ▸ hfiled ▸ Nat.le_of_lt hlt)
    exact ⟨_, hfirst.trans hlast⟩
  case later =>
    intro τ ε _ site n r₁ site₁ hlater
    have hkept := (hbehind m hlt d).2 (h.decorated?_iff.1 hd)
    exact h'.exists_commit hlater (h'.decorated?_iff.2 hkept)

/-- **A failing commit stops cleanly.**  Whatever a host does: if the commit of a registry fails,
the methods before the one that the error names have been committed in turn and those behind it are
left alone, to be committed later; if it succeeds, nothing is left to commit, and the answer counts
the installations.  That the calls of the host are kept changes nothing. -/
theorem Reachable.commit_laws {r : Registry} (h : r.Reachable) (s : Site (Traced σ)) :
    r.Course s (r.commit s) ∧ r.commit (bare s) = strip (r.commit s) := by
  refine ⟨?_, r.commit_bare s⟩
  rcases hcommit : r.commit s with ⟨e | n, r', s'⟩
  · exact .stopped (h.ordered.stopped hcommit)
  · exact .completed (h.ordered.completed hcommit)

/-- Three methods are registered. -/
def threeLanes : Registry :=
  ((((({} : Registry).edit (lane 3) SharedHost.addKeeping {}).1).edit (lane 1)
    SharedHost.addKeeping {}).1.edit (lane 2) SharedHost.addKeeping {}).1

/-- The host has a body for the first and the third one only. -/
def twoBodies : Site (Traced Host) :=
  let module := (({} : Module).setBody (lane 1) { code := [0x2a] }).setBody (lane 3) { code := [0x2a] }
  ⟨⟨{ module := module }, []⟩, {}⟩

/-- The first method is installed, the second one is refused, and nothing is asked for the third. -/
theorem commit_laws_threeLanes :
    threeLanes.Reachable ∧
      (threeLanes.commit twoBodies).2.2.host.calls.map (fun c => (c.method.token.row, c.installs)) =
        [(1, true), (2, false)] ∧
      threeLanes.Course twoBodies (threeLanes.commit twoBodies) ∧
      threeLanes.commit (bare twoBodies) = strip (threeLanes.commit twoBodies) := by
  have hreachable : threeLanes.Reachable :=
    .edit _ _ _ (.edit _ _ _ (.edit _ _ _ (.start {})))
  exact ⟨hreachable, by rfl, hreachable.commit_laws twoBodies⟩

end Registry

end MethodWeave
