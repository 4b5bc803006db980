import MethodWeave.Patch.Decorated
/-!
What the operations of a decorated method can do, on whatever host.

Removing and installing call the host, which may refuse; installing anew and committing are made of
them.  The courses that an operation can take are the constructors of a relation between the method,
the site and the outcome.  Main results: `reverts`, `installs`, `reinstalls` and `commits`, each
operation takes one of its courses.
-/

namespace MethodWeave

/-! ### The courses -/

namespace Decorated

variable {σ ρ : Type} [PatchHost σ ρ]

/-- The courses of removing what is installed. -/
inductive Reverts (d : Decorated) (site : Site σ) :
    Except (InstallError ρ) Unit × Decorated × Site σ → Prop
  /-- Nothing is installed. -/
  | idle : d.isPatched = false → Reverts d site (.ok (), d, site)
  | refused {e : ρ} {site' : Site σ} : d.isPatched = true →
      PatchHost.unpatch d.method d.owner
        (site.write .debug fun _ => "Revert " ++ d.method.text) = (.error e, site') →
      Reverts d site (.error (.remove d.method e), d, site')
  | removed {site' : Site σ} : d.isPatched = true →
      PatchHost.unpatch d.method d.owner
        (site.write .debug fun _ => "Revert " ++ d.method.text) = (.ok (), site') →
      Reverts d site (.ok (), { d with isPatched := false }, site')

theorem reverts (d : Decorated) (site : Site σ) : d.Reverts site (d.revert site) := by
  unfold revert
  cases hpatched : d.isPatched with
  | false => exact .idle hpatched
  | true =>
    simp only [Bool.not_true, Bool.false_eq_true, if_false]
    split
    · next hunpatch => exact .refused hpatched hunpatch
    · next hunpatch => exact .removed hpatched hunpatch

/-- The courses of installing the pattern. -/
inductive Installs (d : Decorated) (site : Site σ) :
    Except (InstallError ρ) Unit × Decorated × Site σ → Prop
  | refused {e : ρ} {site' : Site σ} :
      PatchHost.patch d.method d.request
        (site.write d.pattern.mode.logLevel fun _ => d.beginText) = (.error e, site') →
      Installs d site (.error (.install d.method e), d, site')
  | installed {site' : Site σ} :
      PatchHost.patch d.method d.request
        (site.write d.pattern.mode.logLevel fun _ => d.beginText) = (.ok (), site') →
      Installs d site (.ok (), { d with isPatched := true },
        site'.write d.pattern.mode.logLevel fun _ => "Done patching " ++ d.method.text)

theorem installs (d : Decorated) (site : Site σ) : d.Installs site (d.install site) := by
  unfold install
  simp only
  split
  · next hpatch => exact .refused hpatch
  · next hpatch => exact .installed hpatch

/-- The courses of removing what is installed and installing the pattern. -/
inductive Reinstalls (d : Decorated) (site : Site σ) :
    Except (InstallError ρ) Bool × Decorated × Site σ → Prop
  | notRemoved {e : InstallError ρ} {d' : Decorated} {site' : Site σ} :
      d.Reverts site (.error e, d', site') → Reinstalls d site (.error e, d', site')
  /-- There is nothing to install. -/
  | emptied {d' : Decorated} {site' : Site σ} : d.Reverts site (.ok (), d', site') →
      d'.pattern.isEmpty = true →
      Reinstalls d site (.ok false, d', site'.write .debug fun _ =>
        "Pattern for " ++ d'.method.text ++ " is empty, leaving it unpatched")
  | notInstalled {e : InstallError ρ} {d₁ d' : Decorated} {site₁ site' : Site σ} :
      d.Reverts site (.ok (), d₁, site₁) → d₁.pattern.isEmpty = false →
      d₁.Installs site₁ (.error e, d', site') → Reinstalls d site (.error e, d', site')
  | installed {d₁ d' : Decorated} {site₁ site' : Site σ} :
      d.Reverts site (.ok (), d₁, site₁) → d₁.pattern.isEmpty = false →
      d₁.Installs site₁ (.ok (), d', site') → Reinstalls d site (.ok true, d', site')

theorem reinstalls (d : Decorated) (site : Site σ) : d.Reinstalls site (d.reinstall site) := by
  have hreverts := d.reverts site
  unfold reinstall
  generalize d.revert site = reverted at hreverts
  obtain ⟨e | ⟨⟩, d₁, site₁⟩ := reverted
  · exact .notRemoved hreverts
  · cases hempty : d₁.pattern.isEmpty with
    | true =>
      simp only [hempty, if_true]
      exact .emptied hreverts hempty
    | false =>
      have hinstalls := d₁.installs site₁
      simp only [hempty, Bool.false_eq_true, if_false]
      generalize d₁.install site₁ = installed at hinstalls
      obtain ⟨e | ⟨⟩, d', site'⟩ := installed
      · exact .notInstalled hreverts hempty hinstalls
      · exact .installed hreverts hempty hinstalls

/-- The courses of a commit.  Whatever else it does, it lowers the flags first. -/
inductive Commits (d : Decorated) (site : Site σ) :
    Except (CommitError ρ) Bool × Decorated × Site σ → Prop
  /-- No flag is raised. -/
  | idle : (d.pattern.poll true).1 = false →
      Commits d site (.ok false, { d with pattern := (d.pattern.poll true).2 }, site)
  | done {installed : Bool} {d' : Decorated} {site' : Site σ} : (d.pattern.poll true).1 = true →
      Reinstalls { d with pattern := (d.pattern.poll true).2 } site (.ok installed, d', site') →
      Commits d site (.ok installed, d', site')
  | failed {e : InstallError ρ} {d' : Decorated} {site' : Site σ} :
      (d.pattern.poll true).1 = true →
      Reinstalls { d with pattern := (d.pattern.poll true).2 } site (.error e, d', site') →
      Commits d site (.error ⟨d'.method, e⟩, d', site'.write .error fun _ =>
        "Error patching " ++ d'.method.text ++ ": " ++ e.message)

theorem commits (d : Decorated) (site : Site σ) : d.Commits site (d.commit site) := by
  unfold commit
  simp only
  cases hchanged : (d.pattern.poll true).1 with
  | false => exact .idle hchanged
  | true =>
    have hreinstalls := reinstalls { d with pattern := (d.pattern.poll true).2 } site
    simp only [Bool.not_true, Bool.false_eq_true, if_false]
    generalize reinstall _ site = outcome at hreinstalls
    obtain ⟨e | installed, d', site'⟩ := outcome
    · exact .failed hchanged hreinstalls
    · exact .done hchanged hreinstalls

/-! ### What stays -/

variable {d : Decorated} {site : Site σ}

theorem Reverts.kept {outcome : Except (InstallError ρ) Unit × Decorated × Site σ}
    (h : d.Reverts site outcome) : ∃ isPatched, outcome.2.1 = { d with isPatched := isPatched } := by
  cases h with
  | idle _ | refused _ _ => exact ⟨d.isPatched, rfl⟩
  | removed _ _ => exact ⟨false, rfl⟩

/-- After a removal that succeeds, nothing is installed. -/
theorem Reverts.eq_of_ok {d' : Decorated} {site' : Site σ} (h : d.Reverts site (.ok (), d', site')) :
    d' = { d with isPatched := false } := by
  cases h with
  | idle hpatched =>
    rw [← hpatched]
  | removed _ _ => rfl

theorem Installs.kept {outcome : Except (InstallError ρ) Unit × Decorated × Site σ}
    (h : d.Installs site outcome) : ∃ isPatched, outcome.2.1 = { d with isPatched := isPatched } := by
  cases h with
  | refused _ => exact ⟨d.isPatched, rfl⟩
  | installed _ => exact ⟨true, rfl⟩

theorem Reinstalls.kept {outcome : Except (InstallError ρ) Bool × Decorated × Site σ}
    (h : d.Reinstalls site outcome) :
    ∃ isPatched, outcome.2.1 = { d with isPatched := isPatched } := by
  cases h with
  | notRemoved hreverts => exact hreverts.kept
  | emptied hreverts _ => exact hreverts.kept
  | notInstalled hreverts _ hinstalls | installed hreverts _ hinstalls =>
    obtain ⟨isPatched, rfl⟩ := hreverts.kept
    exact hinstalls.kept

/-- A commit lowers the flags and leaves all else of the method as it is, apart from whether it is
patched. -/
theorem Commits.kept {outcome : Except (CommitError ρ) Bool × Decorated × Site σ}
    (h : d.Commits site outcome) : ∃ isPatched,
      outcome.2.1 = { d with pattern := (d.pattern.poll true).2, isPatched := isPatched } := by
  cases h with
  | idle _ => exact ⟨d.isPatched, rfl⟩
  | done _ hreinstalls => exact hreinstalls.kept
  | failed _ hreinstalls => exact hreinstalls.kept

end Decorated

/-! ### What a host keeps -/

/-- Installing and removing on a method keep a property of the host, whether or not they fail. -/
structure PatchHost.Keeps {σ ρ : Type} [PatchHost σ ρ] (P : σ → Prop) (method : MethodRef) :
    Prop where
  patch : ∀ (request : PatchRequest) (site : Site σ), P site.host →
    P (PatchHost.patch method request site).2.host
  unpatch : ∀ (owner : String) (site : Site σ), P site.host →
    P (PatchHost.unpatch method owner site).2.host

namespace Decorated

variable {σ ρ : Type} [PatchHost σ ρ] {P : σ → Prop} {d : Decorated} {site : Site σ}

theorem Reverts.keeps {outcome : Except (InstallError ρ) Unit × Decorated × Site σ}
    (hreverts : d.Reverts site outcome) (hkeeps : PatchHost.Keeps P d.method) (h : P site.host) :
    P outcome.2.2.host := by
  cases hreverts with
  | idle _ => exact h
  | refused _ hunpatch | removed _ hunpatch =>
    have hhost := hkeeps.unpatch d.owner (site.write .debug fun _ => "Revert " ++ d.method.text) h
    rw [hunpatch] at hhost
    exact hhost

theorem Installs.keeps {outcome : Except (InstallError ρ) Unit × Decorated × Site σ}
    (hinstalls : d.Installs site outcome) (hkeeps : PatchHost.Keeps P d.method) (h : P site.host) :
    P outcome.2.2.host := by
  cases hinstalls with
  | refused hpatch | installed hpatch =>
    have hhost := hkeeps.patch d.request (site.write d.pattern.mode.logLevel fun _ => d.beginText) h
    rw [hpatch] at hhost
    exact hhost

theorem Reinstalls.keeps {outcome : Except (InstallError ρ) Bool × Decorated × Site σ}
    (hreinstalls : d.Reinstalls site outcome) (hkeeps : PatchHost.Keeps P d.method)
    (h : P site.host) : P outcome.2.2.host := by
  cases hreinstalls with
  | notRemoved hreverts => exact hreverts.keeps hkeeps h
  | emptied hreverts _ => exact hreverts.keeps hkeeps h
  | notInstalled hreverts _ hinstalls | installed hreverts _ hinstalls =>
    obtain ⟨isPatched, rfl⟩ := hreverts.kept
    exact hinstalls.keeps hkeeps (hreverts.keeps hkeeps h)

/-- **A commit keeps what installing and removing keep**, whether or not it fails. -/
theorem Commits.keeps {outcome : Except (CommitError ρ) Bool × Decorated × Site σ}
    (hcommits : d.Commits site outcome) (hkeeps : PatchHost.Keeps P d.method) (h : P site.host) :
    P outcome.2.2.host := by
  cases hcommits with
  | idle _ => exact h
  | done _ hreinstalls => exact hreinstalls.keeps hkeeps h
  | failed _ hreinstalls => exact hreinstalls.keeps hkeeps h

end Decorated

end MethodWeave
