import MethodWeave.Patch.Registry
import MethodWeave.Proofs.Host.Managing
/-!
What one owner does to a host.

Whatever an owner asks for, a host keeps the first body of every method, and touches only methods
that nobody or the owner itself has a body installed on (`Host.Handles`).  A decorated method and
the host agree on who is installed (`Decorated.InStep`): removing never fails then, and installing
and removing keep the two in step.

Main results: `Registry.commit_handles` and `Registry.revert_handles`.
-/

namespace MethodWeave

/-! ### Methods of a host -/

/-- Callers of a method execute what is installed, or else the first body. -/
def ManagedMethod.Intact (m : ManagedMethod) : Prop := m.active = m.installed?.getD m.base

theorem ManagedMethod.Intact.active_eq_base {m : ManagedMethod} (h : m.Intact)
    (hnone : m.owner? = none) : m.active = m.base := by
  unfold Intact installed? at h
  rwa [hnone] at h

theorem ManagedMethod.intact_install (m : ManagedMethod) (owner : String) (body : Body) :
    (m.install owner body).Intact := by
  rw [Intact, installed?_install, active_install]
  rfl

theorem ManagedMethod.intact_restore (m : ManagedMethod) : m.restore.Intact := by
  rw [Intact, installed?_restore, active_restore, base_restore]
  rfl

/-- What an owner may make of a managed method. -/
inductive ManagedMethod.Handled (owner : String) : ManagedMethod → ManagedMethod → Prop
  | same (m : ManagedMethod) : Handled owner m m
  | own {before after : ManagedMethod} (base : after.base = before.base)
      (free : before.owner? = none ∨ before.owner? = some owner)
      (result : after.owner? = none ∨ after.owner? = some owner) (intact : after.Intact) :
      Handled owner before after

namespace ManagedMethod.Handled

variable {owner : String} {a b c : ManagedMethod}

theorem trans (h : Handled owner a b) (h' : Handled owner b c) : Handled owner a c := by
  cases h with
  | same => exact h'
  | own base free result intact =>
    cases h' with
    | same => exact .own base free result intact
    | own base' _ result' intact' => exact .own (base'.trans base) free result' intact'

theorem base_eq (h : Handled owner a b) : b.base = a.base := by
  cases h with
  | same => rfl
  | own base _ _ _ => exact base

/-- An owner who takes its body away puts the first one back. -/
theorem intact (h : Handled owner a b) (ha : a.Intact) : b.Intact := by
  cases h with
  | same => exact ha
  | own _ _ _ intact => exact intact

/-- A method with the body of another owner is left alone. -/
theorem eq_of_owner {other : String} (h : Handled owner a b) (hother : other ≠ owner)
    (howned : a.owner? = some other ∨ b.owner? = some other) : b = a := by
  cases h with
  | same => rfl
  | own base free result _ => rcases howned with h | h <;> simp_all

end ManagedMethod.Handled

namespace Host

/-- The method as the host manages it. -/
def managed? (host : Host) (m : MethodRef) : Option ManagedMethod := host.module.managed? m

/-- Who has a body installed on the method. -/
def ownerOf? (host : Host) (m : MethodRef) : Option String :=
  (host.managed? m).bind (·.owner?)

theorem ownerOf?_eq_some {host : Host} {m : MethodRef} {owner : String} :
    host.ownerOf? m = some owner ↔ ∃ mm, host.managed? m = some mm ∧ mm.owner? = some owner :=
  Option.bind_eq_some_iff

/-- What an owner may make of a host by acting on the methods with the given tokens. -/
structure Handles (owner : String) (keys : List Nat) (before after : Host) : Prop where
  elsewhere : ∀ m, m.token.key ∉ keys → after.managed? m = before.managed? m
  handled : ∀ m, Option.Rel (ManagedMethod.Handled owner) (before.managed? m) (after.managed? m)

namespace Handles

variable {owner : String} {keys : List Nat} {a b c : Host}

theorem of_eq (h : ∀ m, b.managed? m = a.managed? m) : Handles owner keys a b where
  elsewhere m _ := h m
  handled m := by
    rw [h]
    cases a.managed? m with
    | none => exact .none
    | some mm => exact .some (.same mm)

theorem refl (host : Host) : Handles owner keys host host := of_eq fun _ => rfl

theorem trans (h : Handles owner keys a b) (h' : Handles owner keys b c) : Handles owner keys a c where
  elsewhere m hm := (h'.elsewhere m hm).trans (h.elsewhere m hm)
  handled m := by
    have hab := h.handled m
    have hbc := h'.handled m
    revert hab hbc
    generalize a.managed? m = x
    generalize b.managed? m = y
    generalize c.managed? m = z
    rintro (hab | -) (hbc | -)
    · exact .some (hab.trans hbc)
    · exact .none

theorem mono {keys' : List Nat} (h : Handles owner keys a b) (hsub : ∀ k ∈ keys, k ∈ keys') :
    Handles owner keys' a b where
  elsewhere m hm := h.elsewhere m fun hk => hm (hsub _ hk)
  handled := h.handled

theorem map_base (h : Handles owner keys a b) (m : MethodRef) :
    (b.managed? m).map (·.base) = (a.managed? m).map (·.base) := by
  have hrel := h.handled m
  revert hrel
  generalize a.managed? m = x
  generalize b.managed? m = y
  rintro (hrel | -)
  · exact congrArg some hrel.base_eq
  · rfl

theorem intact (h : Handles owner keys a b) (ha : ∀ m mm, a.managed? m = some mm → mm.Intact)
    {m : MethodRef} {mm : ManagedMethod} (hmm : b.managed? m = some mm) : mm.Intact := by
  have hrel := h.handled m
  rw [hmm] at hrel
  generalize hbefore : a.managed? m = x at hrel
  cases hrel with
  | some hhandled => exact hhandled.intact (ha m _ hbefore)

/-- The bodies of other owners stay as they are. -/
theorem managed?_of_other {other : String} (h : Handles owner keys a b) (hother : other ≠ owner)
    {m : MethodRef} {mm : ManagedMethod} (hmm : a.managed? m = some mm)
    (howner : mm.owner? = some other) : b.managed? m = some mm := by
  have hrel := h.handled m
  rw [hmm] at hrel
  revert hrel
  generalize b.managed? m = y
  rintro (hrel | -)
  exact congrArg some (hrel.eq_of_owner hother (Or.inl howner))

theorem ownerOf?_iff {other : String} (h : Handles owner keys a b) (hother : other ≠ owner)
    (m : MethodRef) : b.ownerOf? m = some other ↔ a.ownerOf? m = some other := by
  have hrel := h.handled m
  simp only [ownerOf?]
  revert hrel
  generalize a.managed? m = x
  generalize b.managed? m = y
  rintro (hrel | -)
  · constructor <;> intro howned
    · rw [← hrel.eq_of_owner hother (Or.inr howned)]
      exact howned
    · rw [hrel.eq_of_owner hother (Or.inl howned)]
      exact howned
  · exact Iff.rfl

theorem ownerOf?_elsewhere (h : Handles owner keys a b) {m : MethodRef} (hm : m.token.key ∉ keys) :
    b.ownerOf? m = a.ownerOf? m := by
  rw [ownerOf?, h.elsewhere m hm, ownerOf?]

end Handles

theorem managed?_of_key_eq {host : Host} {m m' : MethodRef} (h : m.token.key = m'.token.key) :
    host.managed? m = host.managed? m' :=
  Module.managed?_of_key_eq h

/-- Managing a method anew as its owner may. -/
theorem handles_of_managesAnew {owner : String} {before after : Host} {method : MethodRef}
    {mm mm' : ManagedMethod} (hmm : before.managed? method = some mm)
    (h : ManagedMethod.Handled owner mm mm')
    (hanew : before.module.ManagesAnew after.module method mm') :
    Handles owner [method.token.key] before after where
  elsewhere m hm := (hanew.managed?_eq m).trans (if_neg fun heq => hm (List.mem_singleton.2 heq))
  handled m := by
    have hafter : after.managed? m = _ := hanew.managed?_eq m
    rw [hafter]
    split
    · next heq =>
      rw [managed?_of_key_eq heq, hmm]
      exact .some h
    · rw [← Host.managed?]
      cases before.managed? m with
      | none => exact .none
      | some mm => exact .some (.same mm)

/-! ### Installing and removing -/

/-- A method without another owner has none, or the one that asks. -/
theorem owner?_of_otherOwner? {mm : ManagedMethod} {owner : String}
    (h : otherOwner? mm owner = none) : mm.owner? = none ∨ mm.owner? = some owner := by
  cases howner : mm.owner? with
  | none => exact Or.inl rfl
  | some other =>
    simp only [otherOwner?, howner, Option.filter_eq_none_iff] at h
    have hsame := h other rfl
    simp only [bne_iff_ne, ne_eq, Decidable.not_not] at hsame
    exact Or.inr (congrArg some hsame)

/-- What installing can lead to: nothing is installed, or the body of the owner is. -/
theorem patch_cases (method : MethodRef) (request : PatchRequest) (site : Site Host) :
    ∃ site', Handles request.owner [method.token.key] site.host site'.host ∧
      ((∃ e, patch method request site = (.error e, site') ∧
          ∀ m, site'.host.managed? m = site.host.managed? m) ∨
        patch method request site = (.ok (), site') ∧
          site'.host.ownerOf? method = some request.owner) := by
  rcases patch_outcomes method request site with ⟨e, site', hpatch, hmethods, -⟩ |
    ⟨mm, body, -, site', hpatch, hmm, hother, -, hanew⟩
  · have hsame : ∀ m, site'.host.managed? m = site.host.managed? m := fun m => by
      simp only [managed?, Module.managed?, Module.implementation?, hmethods]
    exact ⟨site', .of_eq hsame, Or.inl ⟨e, hpatch, hsame⟩⟩
  · have hhandled : ManagedMethod.Handled request.owner mm (mm.install request.owner body) :=
      .own (ManagedMethod.base_install _ _ _) (owner?_of_otherOwner? hother) (Or.inr rfl)
        (mm.intact_install _ _)
    refine ⟨site', handles_of_managesAnew hmm hhandled hanew, Or.inr ⟨hpatch, ?_⟩⟩
    exact ownerOf?_eq_some.2 ⟨_, hanew.managed?, ManagedMethod.owner?_install _ _ _⟩

/-- Removing what the owner has installed. -/
theorem unpatch_of_owner {method : MethodRef} {owner : String} {site : Site Host}
    {mm : ManagedMethod} (hmm : site.host.managed? method = some mm)
    (howner : mm.owner? = some owner) :
    ∃ site', unpatch method owner site = (.ok (), site') ∧
      Handles owner [method.token.key] site.host site'.host ∧
      site'.host.managed? method = some mm.restore := by
  rcases unpatch_outcomes method owner site with ⟨-, -, hnot⟩ |
    ⟨found, hfound, ⟨hfree, -⟩ | ⟨-, site', hunpatch, -, hanew⟩⟩
  · exact absurd howner (hnot mm hmm).2
  · obtain rfl : mm = found := Option.some.inj (hmm.symm.trans hfound)
    rw [howner] at hfree
    cases hfree
  · obtain rfl : mm = found := Option.some.inj (hmm.symm.trans hfound)
    have hhandled : ManagedMethod.Handled owner mm mm.restore :=
      .own (ManagedMethod.base_restore mm) (Or.inr howner) (Or.inl (ManagedMethod.owner?_restore mm))
        mm.intact_restore
    exact ⟨site', hunpatch, handles_of_managesAnew hmm hhandled hanew, hanew.managed?⟩

theorem ownerOf?_of_key_eq {host : Host} {m m' : MethodRef} (h : m.token.key = m'.token.key) :
    host.ownerOf? m = host.ownerOf? m' := by
  rw [ownerOf?, ownerOf?, managed?_of_key_eq h]

end Host

/-! ### Decorated methods -/

namespace Decorated

open Host

/-- The method and the host agree on whether the pattern is installed. -/
def InStep (d : Decorated) (host : Host) : Prop :=
  d.isPatched = true ↔ host.ownerOf? d.method = some d.owner

theorem InStep.of_ownerOf? {d : Decorated} {host host' : Host} (h : d.InStep host)
    (howner : host'.ownerOf? d.method = host.ownerOf? d.method) : d.InStep host' := by
  rw [InStep, howner]
  exact h

/-- **Removing does not fail**, and leaves the method with its first body. -/
theorem InStep.revert {d : Decorated} {site : Site Host} (h : d.InStep site.host) :
    ∃ site', d.revert site = (.ok (), { d with isPatched := false }, site') ∧
      Handles d.owner [d.method.token.key] site.host site'.host ∧
      site'.host.ownerOf? d.method ≠ some d.owner ∧
      (d.isPatched = true → ∃ mm, site.host.managed? d.method = some mm ∧
        site'.host.managed? d.method = some mm.restore) := by
  obtain ⟨method, owner, pattern, isPatched⟩ := d
  cases isPatched with
  | false =>
    exact ⟨site, rfl, .refl _, fun howned => absurd (h.2 howned) Bool.false_ne_true,
      fun hpatched => absurd hpatched Bool.false_ne_true⟩
  | true =>
    obtain ⟨mm, hmm, howner⟩ := ownerOf?_eq_some.1 (h.1 rfl)
    have hmm' : (site.write .debug fun _ => "Revert " ++ method.text).host.managed? method =
        some mm := hmm
    obtain ⟨site', hunpatch, hhandles, hrestored⟩ := unpatch_of_owner hmm' howner
    refine ⟨site', ?_, hhandles, ?_, fun _ => ⟨mm, hmm, hrestored⟩⟩
    · simp only [Decorated.revert, Bool.not_true, Bool.false_eq_true, if_false, PatchHost.unpatch,
        hunpatch]
    · simp [ownerOf?, hrestored]

/-- Installing what nobody of that name has installed. -/
theorem install_inStep {d : Decorated} {site : Site Host} (hpatched : d.isPatched = false)
    (howner : site.host.ownerOf? d.method ≠ some d.owner) :
    ∃ answer d' site', d.install site = (answer, d', site') ∧ d'.method = d.method ∧
      d'.owner = d.owner ∧ Handles d.owner [d.method.token.key] site.host site'.host ∧
      d'.InStep site'.host := by
  obtain ⟨site', hhandles, ⟨e, hpatch, hsame⟩ | ⟨hpatch, howned⟩⟩ := patch_cases d.method d.request
    (site.write d.pattern.mode.logLevel fun _ => d.beginText)
  · refine ⟨.error (.install d.method e), d, site', ?_, rfl, rfl, hhandles, ?_⟩
    · simp only [Decorated.install, PatchHost.patch, hpatch]
    · have hunowned : site'.host.ownerOf? d.method ≠ some d.owner := by
        rw [ownerOf?, hsame]
        exact howner
      rw [InStep, hpatched]
      exact ⟨fun hpatched => absurd hpatched Bool.false_ne_true, fun h => absurd h hunowned⟩
  · refine ⟨.ok (), { d with isPatched := true },
      site'.write d.pattern.mode.logLevel fun _ => "Done patching " ++ d.method.text, ?_, rfl, rfl,
      hhandles, ?_⟩
    · simp only [Decorated.install, PatchHost.patch, hpatch]
    · exact ⟨fun _ => howned, fun _ => rfl⟩

/-- Removing what is installed and installing the pattern. -/
theorem InStep.reinstall {d : Decorated} {site : Site Host} (h : d.InStep site.host) :
    ∃ answer d' site', d.reinstall site = (answer, d', site') ∧ d'.method = d.method ∧
      d'.owner = d.owner ∧ Handles d.owner [d.method.token.key] site.host site'.host ∧
      d'.InStep site'.host := by
  obtain ⟨site₁, hrevert, hremoved, hunowned, -⟩ := h.revert
  cases hempty : d.pattern.isEmpty with
  | true =>
    simp only [Decorated.reinstall, hrevert, hempty, if_true]
    refine ⟨_, _, _, rfl, rfl, rfl, hremoved, ?_⟩
    exact ⟨fun hpatched => absurd hpatched Bool.false_ne_true, fun h => absurd h hunowned⟩
  | false =>
    obtain ⟨removed, hd⟩ : ∃ removed, removed = { d with isPatched := false } := ⟨_, rfl⟩
    obtain ⟨answer, d', site₂, hinstall, hmethod, howner, hinstalled, hinStep⟩ :=
      install_inStep (d := removed) (by rw [hd]) (by rw [hd]; exact hunowned)
    rw [hd] at hinstall hmethod howner hinstalled
    simp only [Decorated.reinstall, hrevert, hempty, Bool.false_eq_true, if_false, hinstall]
    cases answer with
    | ok _ => exact ⟨_, _, _, rfl, hmethod, howner, hremoved.trans hinstalled, hinStep⟩
    | error e => exact ⟨_, _, _, rfl, hmethod, howner, hremoved.trans hinstalled, hinStep⟩

/-- **A commit, successful or not, keeps method and host in step.** -/
theorem InStep.commit {d : Decorated} {site : Site Host} (h : d.InStep site.host) :
    ∃ answer d' site', d.commit site = (answer, d', site') ∧ d'.method = d.method ∧
      d'.owner = d.owner ∧ Handles d.owner [d.method.token.key] site.host site'.host ∧
      d'.InStep site'.host := by
  have hpolled : InStep { d with pattern := (d.pattern.poll true).2 } site.host := h
  cases hchanged : (d.pattern.poll true).1 with
  | false =>
    refine ⟨.ok false, { d with pattern := (d.pattern.poll true).2 }, site, ?_, rfl, rfl, .refl _,
      hpolled⟩
    simp only [Decorated.commit, hchanged, Bool.not_false, if_true]
  | true =>
    obtain ⟨answer, d', site', hreinstall, hmethod, howner, hhandles, hinStep⟩ := hpolled.reinstall
    simp only [Decorated.commit, hchanged, Bool.not_true, Bool.false_eq_true, if_false, hreinstall]
    cases answer with
    | ok _ => exact ⟨_, _, _, rfl, hmethod, howner, hhandles, hinStep⟩
    | error e => exact ⟨_, _, _, rfl, hmethod, howner, hhandles, hinStep⟩

end Decorated

/-! ### Registries -/

namespace Registry

open Host

/-- Entries of a registry, in step with the host. -/
structure EntriesInStep (owner : String) (entries : List (Nat × Decorated)) (host : Host) : Prop where
  keys : (entries.map (·.1)).Pairwise (· < ·)
  filed : ∀ e ∈ entries, e.2.method.token.key = e.1 ∧ e.2.owner = owner
  inStep : ∀ e ∈ entries, e.2.InStep host

namespace EntriesInStep

variable {owner : String} {entries : List (Nat × Decorated)} {key : Nat} {d : Decorated}
  {host host' : Host}

/-- What is done to methods that are not among the entries does not concern them. -/
theorem elsewhere {keys : List Nat} (h : EntriesInStep owner entries host)
    (hhandles : Handles owner keys host host') (hkeys : ∀ e ∈ entries, e.1 ∉ keys) :
    EntriesInStep owner entries host' where
  keys := h.keys
  filed := h.filed
  inStep := fun e he => (h.inStep e he).of_ownerOf?
    (hhandles.ownerOf?_elsewhere ((h.filed e he).1 ▸ hkeys e he))

theorem head_notMem (h : EntriesInStep owner ((key, d) :: entries) host) :
    ∀ e ∈ entries, e.1 ∉ [key] := by
  intro e he heq
  have hlt : key < e.1 := (List.pairwise_cons.1 h.keys).1 e.1 (List.mem_map_of_mem he)
  have : e.1 = key := List.mem_singleton.1 heq
  omega

theorem tail (h : EntriesInStep owner ((key, d) :: entries) host) :
    EntriesInStep owner entries host where
  keys := (List.pairwise_cons.1 h.keys).2
  filed := (List.forall_mem_cons.1 h.filed).2
  inStep := (List.forall_mem_cons.1 h.inStep).2

/-- The first entry has been worked on, and then the others. -/
theorem cons {d' : Decorated} {entries' : List (Nat × Decorated)}
    (h : EntriesInStep owner ((key, d) :: entries) host) (hinStep : d'.InStep host')
    (hmethod : d'.method = d.method) (howner : d'.owner = d.owner)
    (hkeys : entries'.map (·.1) = entries.map (·.1)) {host'' : Host}
    (hrest : EntriesInStep owner entries' host'')
    (hhandles : Handles owner (entries.map (·.1)) host' host'') :
    EntriesInStep owner ((key, d') :: entries') host'' where
  keys := by
    rw [List.map_cons, hkeys]
    exact h.keys
  filed := List.forall_mem_cons.2
    ⟨by rw [hmethod, howner]; exact (List.forall_mem_cons.1 h.filed).1, hrest.filed⟩
  inStep := by
    refine List.forall_mem_cons.2 ⟨hinStep.of_ownerOf? (hhandles.ownerOf?_elsewhere ?_), hrest.inStep⟩
    rw [hmethod, (List.forall_mem_cons.1 h.filed).1.1]
    exact fun hmem => Nat.lt_irrefl _ ((List.pairwise_cons.1 h.keys).1 _ hmem)

end EntriesInStep

/-- Committing entries, up to a failure or to the end, keeps them in step. -/
theorem commitEntries_inStep {owner : String} {entries : List (Nat × Decorated)} {site : Site Host}
    (h : EntriesInStep owner entries site.host) :
    ∃ answer entries' site', commitEntries entries site = (answer, entries', site') ∧
      entries'.map (·.1) = entries.map (·.1) ∧ EntriesInStep owner entries' site'.host ∧
      Handles owner (entries.map (·.1)) site.host site'.host := by
  induction entries generalizing site with
  | nil => exact ⟨.ok 0, [], site, rfl, rfl, h, .refl _⟩
  | cons entry rest ih =>
    obtain ⟨key, d⟩ := entry
    obtain ⟨⟨hkey, howner⟩, -⟩ := List.forall_mem_cons.1 h.filed
    obtain ⟨answer, d', site₁, hcommit, hmethod, howner', hhandles, hinStep⟩ :=
      (List.forall_mem_cons.1 h.inStep).1.commit
    simp only at hkey howner hmethod howner'
    rw [howner, hkey] at hhandles
    have hrest := h.tail.elsewhere hhandles h.head_notMem
    simp only [commitEntries, hcommit]
    cases answer with
    | error e =>
      exact ⟨_, _, site₁, rfl, rfl, h.cons hinStep hmethod howner' rfl hrest (.refl _),
        hhandles.mono (by simp)⟩
    | ok installed =>
      obtain ⟨answer, entries', site₂, hentries, hkeys, hinStep', hhandles'⟩ := ih hrest
      simp only [hentries]
      exact ⟨_, _, site₂, rfl, by rw [List.map_cons, List.map_cons, hkeys],
        h.cons hinStep hmethod howner' hkeys hinStep' hhandles',
        (hhandles.mono (by simp)).trans (hhandles'.mono fun k hk => List.mem_cons_of_mem _ hk)⟩

/-- Removing entries does not fail. -/
theorem revertEntries_inStep {owner : String} {entries : List (Nat × Decorated)} {site : Site Host}
    (h : EntriesInStep owner entries site.host) :
    ∃ entries' site', revertEntries entries site = (.ok (), entries', site') ∧
      entries'.map (·.1) = entries.map (·.1) ∧ EntriesInStep owner entries' site'.host ∧
      Handles owner (entries.map (·.1)) site.host site'.host ∧
      ∀ e ∈ entries, site'.host.ownerOf? e.2.method ≠ some owner ∧
        (e.2.isPatched = true → ∃ mm, site.host.managed? e.2.method = some mm ∧
          site'.host.managed? e.2.method = some mm.restore) := by
  -- entry by entry: what is removed for one leaves the methods of the others as they are
  induction entries generalizing site with
  | nil => exact ⟨[], site, rfl, rfl, h, .refl _, nofun⟩
  | cons entry rest ih =>
    obtain ⟨key, d⟩ := entry
    obtain ⟨⟨hkey, howner⟩, -⟩ := List.forall_mem_cons.1 h.filed
    obtain ⟨site₁, hrevert, hhandles, hunowned, hrestored⟩ := (List.forall_mem_cons.1 h.inStep).1.revert
    simp only at hkey howner hrevert hhandles hunowned hrestored
    rw [howner] at hunowned
    rw [howner, hkey] at hhandles
    obtain ⟨entries', site₂, hentries, hkeys, hinStep, hhandles', hreverted⟩ :=
      ih (h.tail.elsewhere hhandles h.head_notMem)
    have hkey' : d.method.token.key ∉ rest.map (·.1) := by
      rw [hkey]
      exact fun hmem => Nat.lt_irrefl _ ((List.pairwise_cons.1 h.keys).1 _ hmem)
    simp only [revertEntries, hrevert, hentries]
    refine ⟨_, site₂, rfl, by rw [List.map_cons, List.map_cons, hkeys], ?_, ?_, ?_⟩
    · have hremoved : Decorated.InStep { d with isPatched := false } site₁.host := by
        rw [Decorated.InStep, howner]
        exact ⟨fun hpatched => absurd hpatched Bool.false_ne_true, fun h => absurd h hunowned⟩
      exact h.cons hremoved rfl rfl hkeys hinStep hhandles'
    · exact (hhandles.mono (by simp)).trans (hhandles'.mono fun k hk => List.mem_cons_of_mem _ hk)
    · refine List.forall_mem_cons.2 ⟨⟨?_, fun hpatched => ?_⟩, fun e he => ⟨(hreverted e he).1,
        fun hpatched => ?_⟩⟩
      · rw [hhandles'.ownerOf?_elsewhere hkey']
        exact hunowned
      · obtain ⟨mm, hmm, hrestore⟩ := hrestored hpatched
        exact ⟨mm, hmm, (hhandles'.elsewhere _ hkey').trans hrestore⟩
      · obtain ⟨mm, hmm, hrestore⟩ := (hreverted e he).2 hpatched
        refine ⟨mm, ?_, hrestore⟩
        rw [← hhandles.elsewhere _ ((h.tail.filed e he).1 ▸ h.head_notMem e he)]
        exact hmm

/-- The registry and the host agree on what is installed under its name. -/
structure InStep (r : Registry) (host : Host) : Prop where
  entries : EntriesInStep r.settings.owner r.methods.entries host
  owned : ∀ m, host.ownerOf? m = some r.settings.owner →
    m.token.key ∈ r.methods.entries.map (·.1)

variable {r : Registry} {site : Site Host}

/-- A method is installed under the name of the registry exactly if the registry has it so. -/
theorem InStep.ownerOf?_iff {host : Host} (h : r.InStep host) (m : MethodRef) :
    host.ownerOf? m = some r.settings.owner ↔
      ∃ d, r.decorated? m = some d ∧ d.isPatched = true := by
  have hentry : ∀ d, r.decorated? m = some d →
      (d.isPatched = true ↔ host.ownerOf? m = some r.settings.owner) := fun d hd => by
    have hmem := KeyMap.mem_entries_of_get? hd
    obtain ⟨hkey, howner⟩ := h.entries.filed _ hmem
    have hinStep := h.entries.inStep _ hmem
    simp only at hkey howner
    rw [Decorated.InStep, howner, ownerOf?_of_key_eq hkey] at hinStep
    exact hinStep
  constructor
  · intro howned
    obtain ⟨e, he, hkey⟩ := List.mem_map.1 (h.owned m howned)
    obtain ⟨d, hd⟩ := KeyMap.exists_get?_of_mem (m := r.methods) (k := m.token.key) (a := e.2)
      (by rw [← hkey]; exact he)
    exact ⟨d, hd, (hentry d hd).2 howned⟩
  · rintro ⟨d, hd, hpatched⟩
    exact (hentry d hd).1 hpatched

/-- Under the name of another registry nothing changes for this one. -/
theorem InStep.of_handles {host host' : Host} (h : r.InStep host) {owner : String} {keys : List Nat}
    (hhandles : Handles owner keys host host') (hother : r.settings.owner ≠ owner) :
    r.InStep host' where
  entries := by
    refine ⟨h.entries.keys, h.entries.filed, fun e he => ?_⟩
    have hiff := hhandles.ownerOf?_iff hother e.2.method
    have hinStep := h.entries.inStep e he
    rw [Decorated.InStep, (h.entries.filed e he).2] at hinStep ⊢
    exact hinStep.trans hiff.symm
  owned := fun m hm => h.owned m ((hhandles.ownerOf?_iff hother m).1 hm)

/-- Nothing is installed under the name of the registry but on its own methods. -/
theorem InStep.of_entries {host host' : Host} (h : r.InStep host)
    {entries : List (Nat × Decorated)}
    (hkeys : entries.map (·.1) = r.methods.entries.map (·.1))
    (hentries : EntriesInStep r.settings.owner entries host')
    (hhandles : Handles r.settings.owner (r.methods.entries.map (·.1)) host host') :
    InStep { r with methods := ⟨entries⟩ } host' where
  entries := hentries
  owned := fun m hm => by
    show m.token.key ∈ entries.map (·.1)
    rw [hkeys]
    refine Decidable.byContradiction fun hnot => ?_
    exact hnot (h.owned m ((hhandles.ownerOf?_elsewhere hnot) ▸ hm))

/-- **A commit keeps registry and host in step**, and leaves the methods of other owners alone. -/
theorem InStep.commit (h : r.InStep site.host) :
    ∃ answer r' site', r.commit site = (answer, r', site') ∧ r'.settings = r.settings ∧
      r'.InStep site'.host ∧
      Handles r.settings.owner (r.methods.entries.map (·.1)) site.host site'.host := by
  obtain ⟨answer, entries, site₁, hentries, hkeys, hinStep, hhandles⟩ :=
    commitEntries_inStep h.entries
  simp only [Registry.commit, hentries]
  cases answer with
  | error e => exact ⟨_, _, _, rfl, rfl, h.of_entries hkeys hinStep hhandles, hhandles⟩
  | ok count =>
    refine ⟨_, _, _, rfl, rfl, ?_, ?_⟩
    · split <;> exact h.of_entries hkeys hinStep hhandles
    · split <;> exact hhandles

/-- **A removal does not fail**, and leaves nothing of the registry behind. -/
theorem InStep.revert (h : r.InStep site.host) :
    ∃ r' site', r.revert site = (.ok (), r', site') ∧ r'.settings = r.settings ∧
      r'.InStep site'.host ∧
      Handles r.settings.owner (r.methods.entries.map (·.1)) site.host site'.host ∧
      (∀ m, site'.host.ownerOf? m ≠ some r.settings.owner) ∧
      ∀ m d, r.decorated? m = some d → d.isPatched = true →
        ∃ mm, site'.host.managed? m = some mm ∧ mm.active = mm.base := by
  obtain ⟨entries, site', hentries, hkeys, hinStep, hhandles, hreverted⟩ :=
    revertEntries_inStep h.entries
  have hinStep' := h.of_entries hkeys hinStep hhandles
  refine ⟨{ r with methods := ⟨entries⟩ }, site', by simp only [Registry.revert, hentries], rfl,
    hinStep', hhandles, ?_, ?_⟩
  · intro m howned
    have hmem := hinStep'.owned m howned
    simp only [hkeys] at hmem
    obtain ⟨e, he, hkey⟩ := List.mem_map.1 hmem
    refine (hreverted e he).1 ?_
    rw [ownerOf?_of_key_eq ((h.entries.filed e he).1.trans hkey)]
    exact howned
  · intro m d hd hpatched
    have hmem := KeyMap.mem_entries_of_get? hd
    obtain ⟨mm, -, hrestored⟩ := (hreverted _ hmem).2 hpatched
    rw [managed?_of_key_eq (h.entries.filed _ hmem).1] at hrestored
    exact ⟨_, hrestored, rfl⟩

end Registry

end MethodWeave
