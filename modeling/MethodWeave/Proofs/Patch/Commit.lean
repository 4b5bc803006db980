import MethodWeave.Host.Guarded
import MethodWeave.Proofs.Patch.Courses
/-!
Runs of edits and commits on one decorated method, against a host that may fail at any call.

A commit lowers the flags of the four lists before it works on the host, so a commit behind a failed
one has nothing to do and says so, whatever the failed one left behind.  What a commit can do is
said once, in `CommitOutcome`; `PatchRun.Sound` is what edits and commits keep.

Main results: the request that the host carried out last is the one for the lists that the run
remembers (`PatchRun.Sound.lastRequest`, kept by `sound_run`), and a commit that succeeds leaves the
host in accord with the pattern exactly when no failure is pending, or the pending failure is one of
removal and the lists are back to what is installed (`commit_accords_iff`).
-/

namespace MethodWeave

/-! ### Edits of the lists -/

/-- An edit of one list of a pattern. -/
inductive ListEdit (α : Type) where
  | add (item : α)
  | remove (index : Nat)
  | retain (keep : α → Bool)
  | clear

/-- Carry an edit out. -/
def ListEdit.apply {α : Type} (l : ChangeList α) : ListEdit α → ChangeList α
  | .add item => l.add item
  | .remove index => (l.remove index).2
  | .retain keep => (l.retain keep).2
  | .clear => l.clear

/-- An edit that leaves the flag down has altered nothing. -/
theorem ListEdit.unchanged_of_apply {α : Type} {l : ChangeList α} {e : ListEdit α}
    (h : (e.apply l).changed = false) : e.apply l = l := by
  cases e with
  | add item => cases h
  | remove index =>
    cases hi : l.items[index]? with
    | none => simp only [ListEdit.apply, ChangeList.remove, hi]
    | some item => simp [ListEdit.apply, ChangeList.remove, hi] at h
  | retain keep =>
    simp only [ListEdit.apply, ChangeList.retain, Bool.or_eq_false_iff, bne_eq_false_iff_eq] at h
    obtain ⟨hflag, hgone⟩ := h
    -- nothing is gone, so everything was kept
    have hkept : l.items.filter keep = l.items :=
      (List.filter_sublist).eq_of_length_le (by omega)
    simp only [ListEdit.apply, ChangeList.retain, hkept, Nat.sub_self, bne_self_eq_false,
      Bool.or_false]
  | clear =>
    cases he : l.items.isEmpty with
    | true => simp only [ListEdit.apply, ChangeList.clear, he, if_true]
    | false => simp [ListEdit.apply, ChangeList.clear, he] at h

/-- An edit of one of the four lists. -/
inductive PatternEdit where
  | prefixes (e : ListEdit MethodRef)
  | suffixes (e : ListEdit MethodRef)
  | transpilers (e : ListEdit Transpiler)
  | postTranspilers (e : ListEdit Transpiler)

/-- Carry an edit out. -/
def PatternEdit.apply (p : Pattern) : PatternEdit → Pattern
  | .prefixes e => { p with prefixes := e.apply p.prefixes }
  | .suffixes e => { p with suffixes := e.apply p.suffixes }
  | .transpilers e => { p with transpilers := e.apply p.transpilers }
  | .postTranspilers e => { p with postTranspilers := e.apply p.postTranspilers }

/-- Is a flag of a list raised? -/
def Pattern.isChanged (p : Pattern) : Bool := (p.poll false).1

theorem PatternEdit.unchanged_of_apply {p : Pattern} {e : PatternEdit}
    (h : (e.apply p).isChanged = false) : e.apply p = p := by
  cases e with
  | prefixes e | suffixes e | transpilers e | postTranspilers e =>
    simp only [PatternEdit.apply, Pattern.isChanged, Pattern.poll, Bool.or_eq_false_iff] at h
    simp only [PatternEdit.apply]
    rw [ListEdit.unchanged_of_apply (by simp only [h])]

@[simp] theorem PatternEdit.mode_apply (p : Pattern) (e : PatternEdit) :
    (e.apply p).mode = p.mode := by
  cases e <;> rfl

/-- What stands in the four lists. -/
structure Pattern.Contents where
  prefixes : List MethodRef := []
  suffixes : List MethodRef := []
  transpilers : List Transpiler := []
  postTranspilers : List Transpiler := []

/-- What stands in the lists of a pattern. -/
def Pattern.contents (p : Pattern) : Contents :=
  ⟨p.prefixes.items, p.suffixes.items, p.transpilers.items, p.postTranspilers.items⟩

/-- A pattern with its flags lowered. -/
def Pattern.lowered (p : Pattern) : Pattern := (p.poll true).2

@[simp] theorem Pattern.contents_lowered (p : Pattern) : p.lowered.contents = p.contents := rfl

@[simp] theorem Pattern.isChanged_lowered (p : Pattern) : p.lowered.isChanged = false := rfl

@[simp] theorem Pattern.isEmpty_lowered (p : Pattern) : p.lowered.isEmpty = p.isEmpty := rfl

theorem Pattern.lowered_of_unchanged {p : Pattern} (h : p.isChanged = false) : p.lowered = p := by
  obtain ⟨⟨_, a⟩, ⟨_, b⟩, ⟨_, c⟩, ⟨_, d⟩, _⟩ := p
  simp only [Pattern.isChanged, Pattern.poll, ChangeList.poll, Bool.or_eq_false_iff] at h
  obtain ⟨⟨⟨rfl, rfl⟩, rfl⟩, rfl⟩ := h
  rfl

/-- A pattern is empty exactly when nothing stands in its lists. -/
theorem Pattern.isEmpty_iff (p : Pattern) : p.isEmpty = true ↔ p.contents = {} := by
  simp [Pattern.isEmpty, Pattern.contents, and_assoc]

/-! ### A host that remembers -/

/-- A host, and the last request that it carried out. -/
structure Recorded (σ : Type) where
  host : σ
  last? : Option PatchRequest := none

namespace Recorded

variable {σ ρ : Type}

/-- The site of the host behind the record. -/
def site (s : Site (Recorded σ)) : Site σ := ⟨s.host.host, s.journal⟩

variable [PatchHost σ ρ]

def patch (method : MethodRef) (request : PatchRequest) (s : Site (Recorded σ)) :
    Except ρ Unit × Site (Recorded σ) :=
  match PatchHost.patch method request (site s) with
  | (.ok (), inner) => (.ok (), ⟨⟨inner.host, some request⟩, inner.journal⟩)
  | (.error e, inner) => (.error e, ⟨⟨inner.host, s.host.last?⟩, inner.journal⟩)

def unpatch (method : MethodRef) (owner : String) (s : Site (Recorded σ)) :
    Except ρ Unit × Site (Recorded σ) :=
  let (result, inner) := PatchHost.unpatch method owner (site s)
  (result, ⟨⟨inner.host, s.host.last?⟩, inner.journal⟩)

instance : PatchHost (Recorded σ) ρ where
  patch := patch
  unpatch := unpatch

variable {method : MethodRef} {s s' : Site (Recorded σ)}

theorem last?_of_unpatch {owner : String} {result : Except ρ Unit}
    (h : PatchHost.unpatch method owner s = (result, s')) : s'.host.last? = s.host.last? := by
  obtain rfl := congrArg (·.2) h
  rfl

theorem last?_of_patch {request : PatchRequest}
    (h : PatchHost.patch method request s = (.ok (), s')) : s'.host.last? = some request := by
  change patch method request s = _ at h
  unfold patch at h
  split at h <;> cases h
  rfl

theorem last?_of_refused {request : PatchRequest} {e : ρ}
    (h : PatchHost.patch method request s = (.error e, s')) : s'.host.last? = s.host.last? := by
  change patch method request s = _ at h
  unfold patch at h
  split at h <;> cases h
  rfl

end Recorded

/-! ### What a commit can do -/

variable {σ ρ : Type}

/-- The request for what stands in given lists. -/
def Decorated.requestFor (d : Decorated) (c : Pattern.Contents) : PatchRequest :=
  { d with
    pattern :=
      { prefixes := ⟨c.prefixes, false⟩
        suffixes := ⟨c.suffixes, false⟩
        transpilers := ⟨c.transpilers, false⟩
        postTranspilers := ⟨c.postTranspilers, false⟩
        mode := d.pattern.mode } }.request

theorem Decorated.requestFor_contents (d : Decorated) :
    d.requestFor d.pattern.contents = d.request := rfl

/-- What a commit of `d` can lead to on a host that has carried out `last?`: the answer, whether the
pattern then counts as installed, and the request that the host has carried out last. -/
inductive CommitOutcome (d : Decorated) (last? : Option PatchRequest) :
    Except (CommitError ρ) Bool → Bool → Option PatchRequest → Prop
  /-- No flag is raised. -/
  | idle : d.pattern.isChanged = false → CommitOutcome d last? (.ok false) d.isPatched last?
  /-- The lists are empty and nothing is installed any more. -/
  | emptied : d.pattern.isChanged = true → d.pattern.isEmpty = true →
      CommitOutcome d last? (.ok false) false last?
  | installed : d.pattern.isChanged = true → d.pattern.isEmpty = false →
      CommitOutcome d last? (.ok true) true (some d.request)
  /-- The host did not remove what is installed. -/
  | notRemoved (cause : ρ) : d.pattern.isChanged = true → d.isPatched = true →
      CommitOutcome d last? (.error ⟨d.method, .remove d.method cause⟩) true last?
  /-- The host did not install the lists; what was installed before is gone. -/
  | notInstalled (cause : ρ) : d.pattern.isChanged = true → d.pattern.isEmpty = false →
      CommitOutcome d last? (.error ⟨d.method, .install d.method cause⟩) false last?

variable [PatchHost σ ρ]

/-- Removing is not remembered. -/
theorem Decorated.Reverts.last?_eq {d d' : Decorated} {s s' : Site (Recorded σ)}
    {answer : Except (InstallError ρ) Unit} (h : d.Reverts s (answer, d', s')) :
    s'.host.last? = s.host.last? := by
  cases h with
  | idle _ => rfl
  | refused _ hunpatch | removed _ hunpatch =>
    rw [Recorded.last?_of_unpatch hunpatch, Site.host_write]

/-- A commit lowers the flags, leaves all else of the method as it is, and leads to one of the
outcomes. -/
theorem Decorated.commit_outcome (d : Decorated) (s : Site (Recorded σ)) :
    ∃ answer isPatched s', d.commit s =
        (answer, { d with pattern := d.pattern.lowered, isPatched := isPatched }, s') ∧
      CommitOutcome d s.host.last? answer isPatched s'.host.last? := by
  have hcommits := d.commits s
  generalize d.commit s = outcome at hcommits ⊢
  -- the courses of a commit, down to the host: what it is asked last is what is remembered
  cases hcommits with
  | idle hflag => exact ⟨_, _, _, rfl, .idle hflag⟩
  | done hflag hreinstalls =>
    cases hreinstalls with
    | emptied hreverts hempty =>
      obtain rfl := hreverts.eq_of_ok
      refine ⟨_, _, _, rfl, ?_⟩
      rw [Site.host_write, hreverts.last?_eq]
      exact .emptied hflag hempty
    | installed hreverts hempty hinstalls =>
      obtain rfl := hreverts.eq_of_ok
      cases hinstalls with
      | installed hpatch =>
        refine ⟨_, _, _, rfl, ?_⟩
        rw [Site.host_write, Recorded.last?_of_patch hpatch]
        exact .installed hflag hempty
  | failed hflag hreinstalls =>
    cases hreinstalls with
    | notRemoved hreverts =>
      have hlast := hreverts.last?_eq
      cases hreverts with
      | refused hpatched hunpatch =>
        refine ⟨_, d.isPatched, _, rfl, ?_⟩
        rw [Site.host_write, hlast, show d.isPatched = true from hpatched]
        exact .notRemoved _ hflag hpatched
    | notInstalled hreverts hempty hinstalls =>
      obtain rfl := hreverts.eq_of_ok
      cases hinstalls with
      | refused hpatch =>
        refine ⟨_, _, _, rfl, ?_⟩
        rw [Site.host_write, Recorded.last?_of_refused hpatch, Site.host_write, hreverts.last?_eq]
        exact .notInstalled _ hflag hempty

/-! ### Runs -/

/-- A method on a host, and what its commits have led to. -/
structure PatchRun (σ ρ : Type) where
  decorated : Decorated
  site : Site (Recorded σ)
  /-- What stood in the lists at the last commit that installed them. -/
  installed? : Option Pattern.Contents := none
  /-- How the last commit that found a change failed, if it failed. -/
  failure? : Option (InstallError ρ) := none

/-- A step of a run. -/
inductive PatchAction where
  | edit (e : PatternEdit)
  | commit

namespace PatchRun

/-- A fresh method on a host that has carried out nothing yet. -/
def start (method : MethodRef) (owner : String) (mode : PrintMode) (host : σ) (journal : Journal) :
    PatchRun σ ρ where
  decorated := .ofMethod method owner mode
  site := ⟨⟨host, none⟩, journal⟩

/-- What stands in the lists now. -/
def contents (r : PatchRun σ ρ) : Pattern.Contents := r.decorated.pattern.contents

def edit (r : PatchRun σ ρ) (e : PatternEdit) : PatchRun σ ρ :=
  { r with decorated := { r.decorated with pattern := e.apply r.decorated.pattern } }

/-- Commit, with the answer. -/
def commit (r : PatchRun σ ρ) : Except (CommitError ρ) Bool × PatchRun σ ρ :=
  let (answer, d, site) := r.decorated.commit r.site
  (answer,
    { decorated := d
      site := site
      installed? :=
        match answer with
        | .ok true => some r.contents
        | _ => r.installed?
      failure? :=
        match answer with
        | .ok _ => if r.decorated.pattern.isChanged then none else r.failure?
        | .error e => some e.cause })

def step (r : PatchRun σ ρ) : PatchAction → PatchRun σ ρ
  | .edit e => r.edit e
  | .commit => r.commit.2

/-- Carry out steps in order. -/
def run (r : PatchRun σ ρ) (actions : List PatchAction) : PatchRun σ ρ := actions.foldl step r

/-- Is the host in accord with the pattern?  An empty pattern is not installed; any other one is,
and the request that the host carried out last was for just what stands in the lists. -/
def Accords (r : PatchRun σ ρ) : Prop :=
  if r.decorated.pattern.isEmpty then r.decorated.isPatched = false
  else
    r.decorated.isPatched = true ∧ r.installed? = some r.contents ∧
      r.site.host.last? = some r.decorated.request

/-- What edits and commits keep. -/
structure Sound (r : PatchRun σ ρ) : Prop where
  /-- The host has carried out the request for the lists that are remembered. -/
  lastRequest : r.site.host.last? = r.installed?.map r.decorated.requestFor
  installedNonempty : r.installed? ≠ some {}
  /-- Behind lowered flags, the lists are those of the last commit that found a change. -/
  quiet : r.decorated.pattern.isChanged = false →
    match r.failure? with
    | none => r.Accords
    | some (.install _ _) => r.decorated.pattern.isEmpty = false ∧ r.decorated.isPatched = false
    | some (.remove _ _) => r.decorated.isPatched = true

omit [PatchHost σ ρ] in
theorem sound_start (method : MethodRef) (owner : String) (mode : PrintMode) (host : σ)
    (journal : Journal) : (start method owner mode host journal : PatchRun σ ρ).Sound where
  lastRequest := rfl
  installedNonempty := nofun
  quiet := fun _ => rfl

omit [PatchHost σ ρ] in
/-- An edit either alters nothing or raises a flag. -/
theorem Sound.edit {r : PatchRun σ ρ} (h : r.Sound) (e : PatternEdit) : (r.edit e).Sound where
  lastRequest := by
    have hmode := PatternEdit.mode_apply r.decorated.pattern e
    -- the request depends on the lists that are remembered and on the print mode, and an edit
    -- touches neither
    rw [show (r.edit e).site = r.site from rfl, h.lastRequest]
    congr 1
    funext c
    simp only [Decorated.requestFor, PatchRun.edit, hmode]
  installedNonempty := h.installedNonempty
  quiet := by
    intro hquiet
    have hsame : r.edit e = r := by
      unfold PatchRun.edit at hquiet ⊢
      rw [PatternEdit.unchanged_of_apply hquiet]
    rw [hsame] at hquiet ⊢
    exact h.quiet hquiet

/-- A commit keeps soundness, whatever the host does, and lowers the flags. -/
theorem Sound.commit {r : PatchRun σ ρ} (h : r.Sound) :
    r.commit.2.Sound ∧ r.commit.2.decorated.pattern.isChanged = false := by
  obtain ⟨answer, isPatched, site, hcommit, outcome⟩ := r.decorated.commit_outcome r.site
  simp only [PatchRun.commit, hcommit]
  refine ⟨?_, rfl⟩
  generalize hlast : site.host.last? = last? at outcome
  cases outcome with
  | idle hidle =>
    refine ⟨hlast.trans h.lastRequest, h.installedNonempty, fun _ => ?_⟩
    -- the state is the one before the commit, whose flags were lowered as well
    have hquiet := h.quiet hidle
    rw [Pattern.lowered_of_unchanged hidle]
    simp only [hidle, Bool.false_eq_true, if_false]
    cases hf : r.failure? with
    | none =>
      rw [hf] at hquiet
      simpa only [Accords, PatchRun.contents, hlast] using hquiet
    | some failure => cases failure <;> simpa only [hf] using hquiet
  | emptied hchanged hempty =>
    refine ⟨hlast.trans h.lastRequest, h.installedNonempty, fun _ => ?_⟩
    simp only [hchanged, if_true, Accords, Pattern.isEmpty_lowered, hempty]
  | installed hchanged hempty =>
    refine ⟨hlast, ?_, fun _ => ?_⟩
    · intro hnone
      have : r.decorated.pattern.isEmpty = true :=
        (Pattern.isEmpty_iff _).2 (Option.some.inj hnone)
      simp [hempty] at this
    · simp only [hchanged, if_true, Accords, Pattern.isEmpty_lowered, hempty, Bool.false_eq_true,
        if_false]
      exact ⟨trivial, rfl, hlast⟩
  | notRemoved cause hchanged hpatched =>
    exact ⟨hlast.trans h.lastRequest, h.installedNonempty, fun _ => rfl⟩
  | notInstalled cause hchanged hempty =>
    exact ⟨hlast.trans h.lastRequest, h.installedNonempty, fun _ => ⟨hempty, rfl⟩⟩

theorem Sound.step {r : PatchRun σ ρ} (h : r.Sound) (a : PatchAction) : (r.step a).Sound := by
  cases a with
  | edit e => exact h.edit e
  | commit => exact h.commit.1

theorem Sound.run {r : PatchRun σ ρ} (h : r.Sound) (actions : List PatchAction) :
    (r.run actions).Sound := by
  induction actions generalizing r with
  | nil => exact h
  | cons a actions ih => exact ih (h.step a)

/-- Is the host known to be in accord with the lists after the last commit that found a change?  It
is after a success; after a refused removal it is if the lists are back to what is installed. -/
def Recovered (r : PatchRun σ ρ) : Prop :=
  match r.failure? with
  | none => True
  | some (.install _ _) => False
  | some (.remove _ _) => r.installed? = some r.contents

omit [PatchHost σ ρ] in
theorem Sound.accords_iff {r : PatchRun σ ρ} (h : r.Sound)
    (hquiet : r.decorated.pattern.isChanged = false) : r.Accords ↔ r.Recovered := by
  have hleft := h.quiet hquiet
  simp only [Recovered]
  cases hf : r.failure? with
  | none =>
    rw [hf] at hleft
    exact iff_of_true hleft trivial
  | some failure =>
    cases failure with
    | install m cause =>
      -- nothing is installed, though the lists ask for something
      rw [hf] at hleft
      obtain ⟨hempty, hunpatched⟩ := hleft
      simp [Accords, hempty, hunpatched]
    | remove m cause =>
      -- what was installed last still is, so the lists have to ask for just that
      rw [hf] at hleft
      have hpatched : r.decorated.isPatched = true := hleft
      constructor
      · intro hacc
        cases hempty : r.decorated.pattern.isEmpty with
        | true => simp [Accords, hempty, hpatched] at hacc
        | false =>
          simp only [Accords, hempty, Bool.false_eq_true, if_false] at hacc
          exact hacc.2.1
      · intro hsame
        have hempty : r.decorated.pattern.isEmpty = false := by
          refine Bool.eq_false_iff.mpr fun hempty => h.installedNonempty ?_
          rw [hsame, PatchRun.contents, (Pattern.isEmpty_iff _).1 hempty]
        simp only [Accords, hempty, Bool.false_eq_true, if_false]
        refine ⟨hpatched, hsame, ?_⟩
        rw [h.lastRequest, hsame]
        exact congrArg some r.decorated.requestFor_contents

/-- **A commit that succeeds tells the truth exactly when nothing is pending.**  In a run of edits
and commits on a fresh method, after a commit that answers success the host is in accord with the
pattern exactly when the last commit that found a change did not fail, or failed to remove the
installation that the lists now ask for again. -/
theorem commit_accords_iff (method : MethodRef) (owner : String) (mode : PrintMode) (host : σ)
    (journal : Journal) (actions : List PatchAction) (installed : Bool) (r : PatchRun σ ρ)
    (h : ((start method owner mode host journal).run actions).commit = (.ok installed, r)) :
    r.Accords ↔ r.Recovered := by
  have hsound := ((sound_start (ρ := ρ) method owner mode host journal).run actions).commit
  rw [h] at hsound
  exact hsound.1.accords_iff hsound.2

/-- A static method without parameters and result. -/
def plainMethod (row : Nat) (name : String) : MethodRef where
  token := .ofRow Token.methodDefTable row
  declaringType := ⟨.ofRow Token.typeDefTable 1, "Game"⟩
  name := name
  parameters := []
  returnType := none
  isStatic := true

/-- A host that refuses installations. -/
def refusing : GuardedHost := { refusePatch := true }

/-- A hook is added and committed. -/
def hookAndCommit : List PatchAction :=
  [.edit (.prefixes (.add (plainMethod 2 "hook"))), .commit]

/-- On the refusing host the first commit fails, and the second one answers that there was nothing
to install, while the hook is registered and not installed. -/
theorem retried_commit_silent :
    let r := (start (ρ := GuardError) (plainMethod 1 "tick") "weave" {} refusing {}).run hookAndCommit
    r.failure?.isSome = true ∧ r.commit.1 = .ok false ∧ ¬ r.commit.2.Accords := by
  refine ⟨rfl, rfl, fun hacc => ?_⟩
  cases hacc.1

/-- The second commit on the refusing host, under the general statement. -/
theorem accords_after_refusal :
    let r := (start (ρ := GuardError) (plainMethod 1 "tick") "weave" {} refusing {}).run hookAndCommit
    r.commit = (.ok false, r.commit.2) ∧ (r.commit.2.Accords ↔ r.commit.2.Recovered) :=
  ⟨rfl, commit_accords_iff (plainMethod 1 "tick") "weave" {} refusing {} hookAndCommit false _ rfl⟩

end PatchRun

end MethodWeave
