import MethodWeave.Host.Installer
/-!
What installing and removing do to a module.

Both give one managed method another state, or leave every method as it is
(`Module.ManagesAnew`, `Host.patch_outcomes`, `Host.unpatch_outcomes`).
-/

namespace MethodWeave

namespace Module

/-- The second module has another state of one managed method, and the same behind every other. -/
def ManagesAnew (m m' : Module) (method : MethodRef) (mm : ManagedMethod) : Prop :=
  ∀ other, m'.implementation? other =
    if other.token.key = method.token.key then some (.managed mm) else m.implementation? other

variable {m m₁ m' : Module} {method other : MethodRef} {mm mm' : ManagedMethod}

theorem managed?_eq_some_iff :
    m.managed? method = some mm ↔ m.implementation? method = some (.managed mm) := by
  unfold managed?
  constructor
  · intro h
    split at h
    · next heq =>
      cases h
      exact heq
    · cases h
  · intro h
    rw [h]

theorem managed?_of_key_eq (h : other.token.key = method.token.key) :
    m.managed? other = m.managed? method := by
  simp only [managed?, implementation?, h]

theorem managesAnew_refl (h : m.managed? method = some mm) : m.ManagesAnew m method mm := by
  intro other
  split
  · next hkey =>
    rw [← managed?_eq_some_iff.1 h]
    simp only [implementation?, hkey]
  · rfl

theorem managesAnew_setManaged (metadata : MetadataTables) :
    m.ManagesAnew ({ m with metadata := metadata }.setManaged method mm) method mm := by
  intro other
  simp only [implementation?, setManaged, KeyMap.get?_insert]

namespace ManagesAnew

theorem trans (h : m.ManagesAnew m₁ method mm) (h' : m₁.ManagesAnew m' method mm') :
    m.ManagesAnew m' method mm' := by
  intro other
  rw [h' other, h other]
  split <;> rfl

theorem managed?_eq (h : m.ManagesAnew m' method mm) (other : MethodRef) :
    m'.managed? other =
      if other.token.key = method.token.key then some mm else m.managed? other := by
  by_cases hkey : other.token.key = method.token.key
  · rw [if_pos hkey, managed?_eq_some_iff, h other, if_pos hkey]
  · simp only [managed?, h other, if_neg hkey]

theorem managed? (h : m.ManagesAnew m' method mm) : m'.managed? method = some mm :=
  (h.managed?_eq method).trans (if_pos rfl)

/-- The state that the method had makes the first module of the second one again. -/
theorem symm (h : m.ManagesAnew m' method mm') (hmm : m.managed? method = some mm) :
    m'.ManagesAnew m method mm := by
  intro other
  rw [h other]
  split
  · next hkey => exact (managesAnew_refl hmm other).trans (if_pos hkey)
  · rfl

end ManagesAnew

end Module

namespace Host

/-- What installing can lead to: nothing changes but the metadata, and that only in building, or
what was built for a method that nobody else has a body on is installed there. -/
theorem patch_outcomes (method : MethodRef) (request : PatchRequest) (site : Site Host) :
    (∃ e site', patch method request site = (.error e, site') ∧
        site'.host.module.methods = site.host.module.methods ∧
        site'.host.patchCount = site.host.patchCount ∧
        (site'.host.module.metadata = site.host.module.metadata ∨
          ∃ mm, site.host.module.managed? method = some mm ∧
            build site.host.module.metadata method mm.base request site.journal =
              (.error e, site'.host.module.metadata, site'.journal))) ∨
      ∃ mm body journal site', patch method request site = (.ok (), site') ∧
        site.host.module.managed? method = some mm ∧ otherOwner? mm request.owner = none ∧
        build site.host.module.metadata method mm.base request site.journal =
          (.ok body, site'.host.module.metadata, journal) ∧
        site.host.module.ManagesAnew site'.host.module method (mm.install request.owner body) := by
  cases hmm : site.host.module.managed? method with
  | none =>
    refine Or.inl ⟨.notManaged method, site, ?_, rfl, rfl, Or.inl rfl⟩
    simp only [patch, hmm]
  | some mm =>
    cases hother : otherOwner? mm request.owner with
    | some installed =>
      refine Or.inl ⟨.ownerMismatch method request.owner installed, site, ?_, rfl, rfl, Or.inl rfl⟩
      simp only [patch, hmm, hother]
    | none =>
      simp only [patch, hmm, hother]
      -- from here on the outcome is that of building
      generalize hbuild : build site.host.module.metadata method mm.base request site.journal = built
      obtain ⟨e | body, metadata, journal⟩ := built
      · exact Or.inl ⟨e, _, rfl, rfl, rfl, Or.inr ⟨mm, rfl, hbuild⟩⟩
      · exact Or.inr ⟨mm, body, journal, _, rfl, rfl, hother, hbuild,
          Module.managesAnew_setManaged metadata⟩

/-- What removing can lead to: nothing changes, since the method is not managed, has nothing
installed or the body of another owner, or the first body is back. -/
theorem unpatch_outcomes (method : MethodRef) (owner : String) (site : Site Host) :
    (∃ e, unpatch method owner site = (.error e, site) ∧
        ∀ mm, site.host.module.managed? method = some mm →
          mm.owner? ≠ none ∧ mm.owner? ≠ some owner) ∨
      ∃ mm, site.host.module.managed? method = some mm ∧
        (mm.owner? = none ∧ unpatch method owner site = (.ok (), site) ∨
          mm.owner? = some owner ∧ ∃ site', unpatch method owner site = (.ok (), site') ∧
            site'.host.module.metadata = site.host.module.metadata ∧
            site.host.module.ManagesAnew site'.host.module method mm.restore) := by
  cases hmm : site.host.module.managed? method with
  | none =>
    refine Or.inl ⟨.notManaged method, ?_, nofun⟩
    simp only [unpatch, hmm]
  | some mm =>
    cases howner : mm.owner? with
    | none =>
      refine Or.inr ⟨mm, rfl, Or.inl ⟨howner, ?_⟩⟩
      simp only [unpatch, hmm, howner]
    | some installed =>
      simp only [unpatch, hmm, howner, bne_iff_ne, ne_eq]
      by_cases hsame : installed = owner
      · rw [if_neg (not_not_intro hsame)]
        exact Or.inr ⟨mm, rfl, Or.inr ⟨by rw [howner, hsame], _, rfl, rfl,
          Module.managesAnew_setManaged _⟩⟩
      · rw [if_pos hsame]
        refine Or.inl ⟨_, rfl, ?_⟩
        rintro _ ⟨⟩
        rw [howner]
        exact ⟨nofun, fun heq => hsame (Option.some.inj heq)⟩

end Host

end MethodWeave
