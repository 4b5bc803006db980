import Mathlib.Data.List.DropRight
import Mathlib.Data.List.Induction
import MethodWeave.Patch.Session
/-!
Patch modules along the calls on a session.

A session marks the modules that it has run.  Its calls are followed as a trace of events, in which
every run of a module stands under the number that the module was registered with.  The trace leaves
nothing out: what its events do to the registry and the site, one after the other, is what the calls
do (`Session.foldl_trace`).  The marks tell the modules registered up to the last commit from those
registered behind it, whether that commit failed or not (`Session.shims_after`).

Main result: every module is run once, by the first commit behind its registration, before that
commit comes to the methods (`Session.shimLaws`).
-/

namespace MethodWeave

/-- A patch module, as it is registered. -/
structure PatchModule where
  name : String
  entry : Registry → Journal → Registry × Journal

/-- The module as a session keeps it. -/
def PatchModule.shim (applied : Bool) (m : PatchModule) : Shim := ⟨m.name, m.entry, applied⟩

namespace Shim

/-- The module, without its mark. -/
def toModule (shim : Shim) : PatchModule := ⟨shim.name, shim.entry⟩

/-- The module with its mark set. -/
def marked (shim : Shim) : Shim := shim.toModule.shim true

@[simp] theorem marked_shim (applied : Bool) (m : PatchModule) :
    (m.shim applied).marked = m.shim true := rfl

end Shim

/-- A call on a session. -/
inductive SessionCall where
  | registerShim (m : PatchModule)
  | commit
  | revertAll

namespace SessionCall

def module? : SessionCall → Option PatchModule
  | .registerShim m => some m
  | .commit | .revertAll => none

def isCommit : SessionCall → Bool
  | .commit => true
  | .registerShim _ | .revertAll => false

/-- The modules that calls register, in order. -/
def modules (calls : List SessionCall) : List PatchModule := calls.filterMap module?

/-- The calls up to the last commit. -/
def upToCommit (calls : List SessionCall) : List SessionCall :=
  calls.rdropWhile fun call => !call.isCommit

/-- The calls behind the last commit. -/
def behindCommit (calls : List SessionCall) : List SessionCall :=
  calls.rtakeWhile fun call => !call.isCommit

@[simp] theorem modules_registerShim (m : PatchModule) : modules [.registerShim m] = [m] := rfl

@[simp] theorem modules_commit : modules [.commit] = [] := rfl

@[simp] theorem modules_revertAll : modules [.revertAll] = [] := rfl

@[simp] theorem modules_append (calls calls' : List SessionCall) :
    modules (calls ++ calls') = modules calls ++ modules calls' :=
  List.filterMap_append

theorem upToCommit_concat_commit (calls : List SessionCall) :
    upToCommit (calls ++ [.commit]) = calls ++ [.commit] :=
  List.rdropWhile_concat_neg _ _ _ (by simp [isCommit])

theorem upToCommit_append {behind : List SessionCall} (hbehind : ∀ c ∈ behind, c.isCommit = false)
    (calls : List SessionCall) : upToCommit (calls ++ behind) = upToCommit calls := by
  rw [upToCommit, List.rdropWhile, List.reverse_append,
    List.dropWhile_append_of_pos (by simpa using hbehind)]
  rfl

theorem upToCommit_concat {c : SessionCall} (hc : c.isCommit = false) (calls : List SessionCall) :
    upToCommit (calls ++ [c]) = upToCommit calls :=
  upToCommit_append (by simpa using hc) calls

theorem behindCommit_concat {c : SessionCall} (hc : c.isCommit = false)
    (calls : List SessionCall) : behindCommit (calls ++ [c]) = behindCommit calls ++ [c] :=
  List.rtakeWhile_concat_pos _ _ _ (by simp [hc])

theorem modules_split (calls : List SessionCall) :
    modules (upToCommit calls) ++ modules (behindCommit calls) = modules calls := by
  rw [← modules_append, upToCommit, behindCommit, List.rdropWhile_append_rtakeWhile]

theorem modules_upToCommit_commit (calls : List SessionCall) :
    modules (upToCommit (calls ++ [.commit])) =
      modules (upToCommit calls) ++ modules (behindCommit calls) := by
  rw [upToCommit_concat_commit, modules_append, modules_commit, List.append_nil, modules_split]

theorem modules_behindCommit_commit (calls : List SessionCall) :
    modules (behindCommit (calls ++ [.commit])) = [] := by
  rw [behindCommit, List.rtakeWhile_concat_neg _ _ _ (by simp [isCommit])]
  rfl

end SessionCall

/-- What happens in a run of calls on a session. -/
inductive SessionEvent where
  | registered (m : PatchModule)
  /-- The entry of a module is called.  Modules are numbered in the order of registration. -/
  | invoked (number : Nat) (m : PatchModule)
  /-- The methods are committed, up to a failure. -/
  | committed
  | reverted

/-- The modules that are run, by their numbers. -/
def SessionEvent.invocation? : SessionEvent → Option Nat
  | .invoked number _ => some number
  | .registered _ | .committed | .reverted => none

/-- The numbers of the modules that are run in a trace, in order. -/
def invocations (trace : List SessionEvent) : List Nat :=
  trace.filterMap SessionEvent.invocation?

@[simp] theorem invocations_append (trace trace' : List SessionEvent) :
    invocations (trace ++ trace') = invocations trace ++ invocations trace' :=
  List.filterMap_append

namespace Session

open SessionCall (modules upToCommit behindCommit)

variable {σ ρ : Type} [PatchHost σ ρ]

/-- What an event does to the site and the registry of a session. -/
def performEvent (x : Site σ × Registry) : SessionEvent → Site σ × Registry
  | .registered m => (x.1.write .debug fun _ => "Registered patch shim " ++ m.name, x.2)
  | .invoked _ m =>
    let (registry, journal) :=
      m.entry x.2 (x.1.journal.write .info fun _ => "Applying patch shim " ++ m.name)
    ({ x.1 with journal := journal }, registry)
  | .committed => let (_, registry, site) := x.2.commit x.1; (site, registry)
  | .reverted => let (_, registry, site) := x.2.revert x.1; (site, registry)

/-- Modules that are run one after the other, the first of them having a given number. -/
def invokedFrom (number : Nat) (ms : List PatchModule) : List SessionEvent :=
  (ms.zipIdx number).map fun x => .invoked x.2 x.1

/-- The runs of the modules that calls register behind their last commit. -/
def pendingRuns (calls : List SessionCall) : List SessionEvent :=
  invokedFrom (modules (upToCommit calls)).length (modules (behindCommit calls))

/-- The runs of the modules without a mark, the first module having a given number. -/
def unmarkedFrom (number : Nat) (shims : List Shim) : List SessionEvent :=
  ((shims.zipIdx number).filter fun x => !x.1.applied).map fun x => .invoked x.2 x.1.toModule

def call (s : Session σ) : SessionCall → Session σ
  | .registerShim m => s.registerShim m.name m.entry
  | .commit => s.commit.2
  | .revertAll => s.revertAll.2

/-- The session after some calls. -/
def after (s : Session σ) (calls : List SessionCall) : Session σ := calls.foldl call s

/-- What happens in a call. -/
def events (s : Session σ) : SessionCall → List SessionEvent
  | .registerShim m => [.registered m]
  | .commit => unmarkedFrom 0 s.shims ++ [.committed]
  | .revertAll => [.reverted]

/-- What happens in a run of calls. -/
def trace (s : Session σ) : List SessionCall → List SessionEvent
  | [] => []
  | c :: calls => s.events c ++ (s.call c).trace calls

theorem after_concat (s : Session σ) (calls : List SessionCall) (c : SessionCall) :
    s.after (calls ++ [c]) = (s.after calls).call c := by
  simp [after]

theorem trace_append (s : Session σ) (calls calls' : List SessionCall) :
    s.trace (calls ++ calls') = s.trace calls ++ (s.after calls).trace calls' := by
  induction calls generalizing s with
  | nil => rfl
  | cons c calls ih => simp [trace, after, ih]

theorem trace_concat (s : Session σ) (calls : List SessionCall) (c : SessionCall) :
    s.trace (calls ++ [c]) = s.trace calls ++ (s.after calls).events c := by
  simp [trace_append, trace]

/-! ### The effects of a trace -/

theorem unmarkedFrom_append (number : Nat) (shims shims' : List Shim) :
    unmarkedFrom number (shims ++ shims') =
      unmarkedFrom number shims ++ unmarkedFrom (number + shims.length) shims' := by
  simp [unmarkedFrom, List.zipIdx_append]

theorem applied_of_mem_zipIdx {applied : Bool} {number : Nat} {ms : List PatchModule}
    {x : Shim × Nat} (hmem : x ∈ (ms.map (PatchModule.shim applied)).zipIdx number) :
    x.1.applied = applied := by
  rw [List.zipIdx_map] at hmem
  obtain ⟨y, -, rfl⟩ := List.mem_map.1 hmem
  rfl

theorem unmarkedFrom_marked (number : Nat) (ms : List PatchModule) :
    unmarkedFrom number (ms.map (PatchModule.shim true)) = [] := by
  rw [unmarkedFrom, List.filter_eq_nil_iff.2 fun x hmem => by simp [applied_of_mem_zipIdx hmem],
    List.map_nil]

theorem unmarkedFrom_unmarked (number : Nat) (ms : List PatchModule) :
    unmarkedFrom number (ms.map (PatchModule.shim false)) = invokedFrom number ms := by
  rw [unmarkedFrom, List.filter_eq_self.2 fun x hmem => by simp [applied_of_mem_zipIdx hmem],
    invokedFrom, List.zipIdx_map, List.map_map]
  rfl

/-- Modules run as the events that their marks leave, and all of them are marked afterwards. -/
theorem applyShims_eq (shims : List Shim) (number : Nat) (x : Site σ × Registry) :
    ∃ x' : Site σ × Registry, (unmarkedFrom number shims).foldl performEvent x = x' ∧
      applyShims shims x.2 x.1.journal = (shims.map Shim.marked, x'.2, x'.1.journal) ∧
      x'.1.host = x.1.host := by
  induction shims generalizing number x with
  | nil => exact ⟨x, rfl, rfl, rfl⟩
  | cons shim rest ih =>
    obtain ⟨name, entry, applied⟩ := shim
    -- a marked module leaves no event, and any other one leaves its own in front
    cases applied with
    | true =>
      obtain ⟨x', hfold, hrest, hhost⟩ := ih (number + 1) x
      exact ⟨x', hfold, congrArg (fun y => (_ :: y.1, y.2)) hrest, hhost⟩
    | false =>
      obtain ⟨x', hfold, hrest, hhost⟩ :=
        ih (number + 1) (performEvent x (.invoked number ⟨name, entry⟩))
      exact ⟨x', hfold, congrArg (fun y => (_ :: y.1, y.2)) hrest, hhost⟩

/-- A commit performs its events, and leaves every module marked. -/
theorem commit_eq (s : Session σ) :
    let x := (unmarkedFrom 0 s.shims).foldl performEvent (s.site, s.registry)
    s.commit = ((x.2.commit x.1).1,
      { site := (x.2.commit x.1).2.2
        registry := (x.2.commit x.1).2.1
        shims := s.shims.map Shim.marked }) := by
  obtain ⟨⟨site, registry⟩, hfold, hrest, hhost⟩ := applyShims_eq s.shims 0 (s.site, s.registry)
  -- modules write to the journal only, so the site is told by its journal
  have hsite : { s.site with journal := site.journal } = site := congrArg (Site.mk · _) hhost.symm
  simp only [hfold, commit, hrest, hsite]

/-- A call performs its events. -/
theorem foldl_events (s : Session σ) (c : SessionCall) :
    (s.events c).foldl performEvent (s.site, s.registry) =
      ((s.call c).site, (s.call c).registry) := by
  cases c with
  | registerShim m => rfl
  | commit =>
    rw [events, List.foldl_append, call, commit_eq]
    rfl
  | revertAll => rfl

/-- A run of calls performs its trace. -/
theorem foldl_trace (s : Session σ) (calls : List SessionCall) :
    (s.trace calls).foldl performEvent (s.site, s.registry) =
      ((s.after calls).site, (s.after calls).registry) := by
  induction calls generalizing s with
  | nil => rfl
  | cons c calls ih => rw [trace, List.foldl_append, foldl_events, ih]; rfl

/-! ### The marks of a session -/

/-- The modules registered up to the last commit are marked, and those behind it are not. -/
theorem shims_after {s : Session σ} (hnew : s.shims = []) (calls : List SessionCall) :
    (s.after calls).shims =
      (modules (upToCommit calls)).map (PatchModule.shim true) ++
        (modules (behindCommit calls)).map (PatchModule.shim false) := by
  induction calls using List.reverseRecOn with
  | nil => exact hnew
  | append_singleton calls c ih =>
    rw [after_concat]
    cases c with
    | registerShim m =>
      rw [SessionCall.upToCommit_concat rfl, SessionCall.behindCommit_concat rfl]
      simp [call, registerShim, ih, PatchModule.shim]
    | commit =>
      -- all are marked, and none of them is behind this commit
      rw [SessionCall.modules_upToCommit_commit, SessionCall.modules_behindCommit_commit]
      simp [call, commit_eq, ih, Function.comp_def]
    | revertAll =>
      rw [SessionCall.upToCommit_concat rfl, SessionCall.behindCommit_concat rfl]
      simp [call, revertAll, ih]

theorem unmarkedFrom_after {s : Session σ} (hnew : s.shims = []) (calls : List SessionCall) :
    unmarkedFrom 0 (s.after calls).shims = pendingRuns calls := by
  rw [shims_after hnew, unmarkedFrom_append, unmarkedFrom_marked, unmarkedFrom_unmarked,
    List.nil_append, List.length_map, Nat.zero_add, pendingRuns]

/-- A commit runs the modules registered behind the last commit, and then commits the methods. -/
theorem events_commit_after {s : Session σ} (hnew : s.shims = []) (calls : List SessionCall) :
    (s.after calls).events .commit = pendingRuns calls ++ [.committed] := by
  rw [events, unmarkedFrom_after hnew]

/-! ### Numbers -/

theorem invocations_pendingRuns (calls : List SessionCall) :
    invocations (pendingRuns calls) =
      List.range' (modules (upToCommit calls)).length (modules (behindCommit calls)).length := by
  rw [invocations, pendingRuns, invokedFrom, List.filterMap_map, ← List.zipIdx_map_snd,
    ← List.filterMap_eq_map]
  rfl

theorem getElem?_of_invoked_mem_pendingRuns {calls : List SessionCall} {n : Nat} {m : PatchModule}
    (hmem : SessionEvent.invoked n m ∈ pendingRuns calls) : (modules calls)[n]? = some m := by
  obtain ⟨hle, hget⟩ : (modules (upToCommit calls)).length ≤ n ∧ _ :=
    List.mk_mem_zipIdx_iff_le_and_getElem?_sub.1 (by simpa [pendingRuns, invokedFrom] using hmem)
  rw [← SessionCall.modules_split, List.getElem?_append_right hle, hget]

/-- The modules that have run are those registered up to the last commit, in order. -/
theorem invocations_trace {s : Session σ} (hnew : s.shims = []) (calls : List SessionCall) :
    invocations (s.trace calls) =
      List.range (modules (upToCommit calls)).length := by
  induction calls using List.reverseRecOn with
  | nil => rfl
  | append_singleton calls c ih =>
    rw [trace_concat, invocations_append, ih]
    cases c with
    | registerShim m => rw [SessionCall.upToCommit_concat rfl]; exact List.append_nil _
    | commit =>
      have hcommitted : invocations [.committed] = [] := rfl
      rw [events_commit_after hnew, invocations_append, invocations_pendingRuns, hcommitted,
        SessionCall.modules_upToCommit_commit, List.length_append, List.range_eq_range',
        List.range_eq_range', List.append_nil]
      simpa using List.range'_append_1 (s := 0) (m := (modules (upToCommit calls)).length)
    | revertAll => rw [SessionCall.upToCommit_concat rfl]; exact List.append_nil _

/-- A module runs under the number that it was registered with. -/
theorem getElem?_of_invoked_mem_trace {s : Session σ} (hnew : s.shims = [])
    {calls : List SessionCall} {n : Nat} {m : PatchModule}
    (hmem : SessionEvent.invoked n m ∈ s.trace calls) :
    (modules calls)[n]? = some m := by
  induction calls using List.reverseRecOn with
  | nil => simp [trace] at hmem
  | append_singleton calls c ih =>
    rw [trace_concat, List.mem_append] at hmem
    have hcalls : (modules calls)[n]? = some m := by
      obtain hmem | hmem := hmem
      · exact ih hmem
      · cases c with
        | registerShim _ | revertAll => simp [events] at hmem
        | commit =>
          exact getElem?_of_invoked_mem_pendingRuns (by simpa [events_commit_after hnew] using hmem)
    -- later calls only append modules
    obtain ⟨hlt, -⟩ := List.getElem?_eq_some_iff.1 hcalls
    rw [SessionCall.modules_append, List.getElem?_append_left hlt, hcalls]

/-! ### The laws -/

/-- What calls on a session owe to the patch modules. -/
structure ShimLaws (s : Session σ) (calls : List SessionCall) : Prop where
  /-- The calls do what the events of the trace do. -/
  performed : (s.trace calls).foldl performEvent (s.site, s.registry) =
    ((s.after calls).site, (s.after calls).registry)
  /-- Modules run under the numbers that they were registered with. -/
  numbered : ∀ n m, SessionEvent.invoked n m ∈ s.trace calls →
    (modules calls)[n]? = some m
  /-- No module runs twice. -/
  once : (invocations (s.trace calls)).Nodup
  /-- A module does not run before a commit comes behind its registration. -/
  waits : ∀ before m behind, calls = before ++ .registerShim m :: behind →
    (∀ c ∈ behind, c.isCommit = false) →
    (modules before).length ∉ invocations (s.trace calls)
  /-- A commit runs the modules registered behind the commit before, in order, and comes to the
  methods behind them. -/
  pending : ∀ before behind, calls = before ++ .commit :: behind →
    s.trace calls = s.trace before ++ (pendingRuns before ++ [.committed]) ++
      (s.after (before ++ [.commit])).trace behind
  /-- The answer of a commit is that on the methods, as the modules leave them. -/
  answer : ∀ before behind, calls = before ++ .commit :: behind →
    let x := (pendingRuns before).foldl performEvent
      ((s.after before).site, (s.after before).registry)
    (s.after before).commit.1 = (x.2.commit x.1).1
  /-- A commit leaves no module behind, whatever its answer. -/
  complete : ∀ before behind, calls = before ++ .commit :: behind →
    invocations (s.trace (before ++ [.commit])) = List.range (modules before).length

/-- A session runs every patch module once, in the first commit behind its registration. -/
theorem shimLaws (site : Site σ) (registry : Registry) (calls : List SessionCall) :
    ShimLaws ({ site := site, registry := registry } : Session σ) calls := by
  have hnew : ({ site := site, registry := registry } : Session σ).shims = [] := rfl
  -- of the session nothing is used but that it has no modules yet
  generalize ({ site := site, registry := registry } : Session σ) = s at hnew ⊢
  exact
    { performed := foldl_trace s calls
      numbered := fun n m hmem => getElem?_of_invoked_mem_trace hnew hmem
      once := by
        rw [invocations_trace hnew]
        exact List.nodup_range
      waits := by
        rintro before m behind rfl hbehind
        have hlength := congrArg List.length (SessionCall.modules_split before)
        rw [List.length_append] at hlength
        rw [invocations_trace hnew, SessionCall.upToCommit_append (by simpa [SessionCall.isCommit]),
          List.mem_range]
        omega
      pending := by
        rintro before behind rfl
        rw [List.append_cons, trace_append, trace_concat, events_commit_after hnew]
      answer := by
        rintro before behind -
        rw [commit_eq, unmarkedFrom_after hnew]
      complete := by
        rintro before behind -
        rw [invocations_trace hnew, SessionCall.modules_upToCommit_commit,
          SessionCall.modules_split] }

end Session

end MethodWeave
