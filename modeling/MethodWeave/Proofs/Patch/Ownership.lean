import MethodWeave.Proofs.Patch.Handling
/-!
Several registries that patch one host.

Each registry has a name of its own under which it installs.  Whatever the registries do in whatever
order, and whether it succeeds or not, a registry and the host agree on what is installed under the
name of the registry, and a method that nobody owns has its first body (`SharedHost.Sound`, kept by
`Sound.step` and `Sound.run`).

Main result: `SharedHost.ownership_run`, what this means for the bodies that callers execute.
-/

namespace MethodWeave

/-! ### Editing a registry -/

namespace KeyMap

variable {α : Type} {key : Nat} {value : α} {entries : List (Nat × α)}

theorem mem_insertEntry {e : Nat × α} (h : e ∈ insertEntry key value entries) :
    e = (key, value) ∨ e ∈ entries := by
  induction entries with
  | nil => exact Or.inl (List.mem_singleton.1 h)
  | cons first rest ih =>
    rw [insertEntry] at h
    split at h
    · exact List.mem_cons.1 h
    · split at h
      · exact (List.mem_cons.1 h).imp_right (List.mem_cons_of_mem _)
      · rcases List.mem_cons.1 h with rfl | h
        · exact Or.inr List.mem_cons_self
        · exact (ih h).imp_right (List.mem_cons_of_mem _)

theorem key_mem_insertEntry {k : Nat} (h : k = key ∨ k ∈ entries.map (·.1)) :
    k ∈ (insertEntry key value entries).map (·.1) := by
  induction entries with
  | nil => simpa [insertEntry] using h
  | cons first rest ih =>
    rw [insertEntry]
    split
    · simpa using h
    · split
      · next heq => simpa [heq] using h
      · rw [List.map_cons, List.mem_cons] at h ⊢
        rcases h with h | h | h
        · exact Or.inr (ih (Or.inl h))
        · exact Or.inl h
        · exact Or.inr (ih (Or.inr h))

/-- Entries stay in the order of their keys. -/
theorem pairwise_insertEntry (h : (entries.map (·.1)).Pairwise (· < ·)) :
    ((insertEntry key value entries).map (·.1)).Pairwise (· < ·) := by
  induction entries with
  | nil => exact List.pairwise_singleton _ _
  | cons first rest ih =>
    obtain ⟨hfirst, hrest⟩ := List.pairwise_cons.1 h
    rw [insertEntry]
    split
    · next hlt =>
      refine List.Pairwise.cons (List.forall_mem_cons.2 ⟨hlt, fun k hk => ?_⟩) h
      exact Nat.lt_trans hlt (hfirst k hk)
    · split
      · next heq => exact List.Pairwise.cons (heq ▸ hfirst) hrest
      · next hlt hne =>
        refine List.Pairwise.cons (fun k hk => ?_) (ih hrest)
        obtain ⟨e, he, rfl⟩ := List.mem_map.1 hk
        rcases mem_insertEntry he with rfl | he
        · show first.1 < key
          omega
        · exact hfirst _ (List.mem_map_of_mem he)

end KeyMap

namespace Registry

open Host

/-- Change the pattern of a method, decorating it at its first mention. -/
def edit (r : Registry) (m : MethodRef) (change : Pattern → Pattern) (journal : Journal) :
    Registry × Journal :=
  let (d, r, journal) := r.decorate m journal
  (r.setPattern m (change d.pattern), journal)

variable {r : Registry} {host : Host}

theorem InStep.insert (h : r.InStep host) {key : Nat} {d : Decorated}
    (hkey : d.method.token.key = key) (howner : d.owner = r.settings.owner)
    (hinStep : d.InStep host) : InStep { r with methods := r.methods.insert key d } host where
  entries := by
    refine ⟨KeyMap.pairwise_insertEntry h.entries.keys, fun e he => ?_, fun e he => ?_⟩
    · rcases KeyMap.mem_insertEntry he with rfl | he
      · exact ⟨hkey, howner⟩
      · exact h.entries.filed e he
    · rcases KeyMap.mem_insertEntry he with rfl | he
      · exact hinStep
      · exact h.entries.inStep e he
  owned := fun m hm => KeyMap.key_mem_insertEntry (Or.inr (h.owned m hm))

/-- An edit does not change what is installed. -/
theorem InStep.edit (h : r.InStep host) (m : MethodRef) (change : Pattern → Pattern)
    (journal : Journal) :
    (r.edit m change journal).1.settings = r.settings ∧
      (r.edit m change journal).1.InStep host := by
  cases hd : r.decorated? m with
  | some d =>
    have hmem := KeyMap.mem_entries_of_get? hd
    obtain ⟨hkey, howner⟩ := h.entries.filed _ hmem
    have hinStep : Decorated.InStep { d with pattern := change d.pattern } host :=
      h.entries.inStep _ hmem
    simp only [Registry.edit, decorate, setPattern, hd]
    exact ⟨trivial, h.insert hkey howner hinStep⟩
  | none =>
    -- a method that is decorated for the first time is not installed under this name
    obtain ⟨fresh, hfresh⟩ :
        ∃ fresh, fresh = Decorated.ofMethod m r.settings.owner r.settings.printMode := ⟨_, rfl⟩
    have hunowned : host.ownerOf? m ≠ some r.settings.owner := fun howned => by
      obtain ⟨d, hd', -⟩ := (h.ownerOf?_iff m).1 howned
      rw [hd] at hd'
      cases hd'
    have hinStep (pattern : Pattern) : Decorated.InStep { fresh with pattern := pattern } host := by
      rw [hfresh]
      exact ⟨fun hpatched => absurd hpatched Bool.false_ne_true, fun howned => absurd howned hunowned⟩
    have hkey : fresh.method.token.key = m.token.key := by rw [hfresh]; rfl
    have howner : fresh.owner = r.settings.owner := by rw [hfresh]; rfl
    have hdecorate : r.decorate m journal =
        (fresh, { r with methods := r.methods.insert m.token.key fresh },
          journal.write .trace fun _ => "Decorating " ++ m.text) := by
      simp only [decorate, hd, hfresh]
    simp only [Registry.edit, hdecorate, setPattern, decorated?, KeyMap.get?_insert_self]
    exact ⟨trivial, (h.insert hkey howner (hinStep fresh.pattern)).insert hkey howner (hinStep _)⟩

end Registry

/-! ### Actions of several registries -/

/-- What a registry does on a host. -/
inductive RegistryAction where
  | edit (m : MethodRef) (change : Pattern → Pattern)
  | commit
  | revert

/-- Carry an action out, whatever its answer. -/
def Registry.act (r : Registry) (site : Site Host) : RegistryAction → Registry × Site Host
  | .edit m change =>
    let (r, journal) := r.edit m change site.journal
    (r, { site with journal := journal })
  | .commit => (r.commit site).2
  | .revert => (r.revert site).2

theorem Registry.InStep.act {r : Registry} {site : Site Host} (h : r.InStep site.host)
    (action : RegistryAction) :
    (r.act site action).1.settings = r.settings ∧
      (r.act site action).1.InStep (r.act site action).2.host ∧
      ∃ keys, Host.Handles r.settings.owner keys site.host (r.act site action).2.host := by
  cases action with
  | edit m change =>
    obtain ⟨hsettings, hinStep⟩ := h.edit m change site.journal
    exact ⟨hsettings, hinStep, [], .refl _⟩
  | commit =>
    obtain ⟨answer, r', site', hcommit, hsettings, hinStep, hhandles⟩ := h.commit
    simp only [Registry.act, hcommit]
    exact ⟨hsettings, hinStep, _, hhandles⟩
  | revert =>
    obtain ⟨r', site', hrevert, hsettings, hinStep, hhandles, -⟩ := h.revert
    simp only [Registry.act, hrevert]
    exact ⟨hsettings, hinStep, _, hhandles⟩

/-- A host, and the registries that patch it. -/
structure SharedHost where
  registries : List Registry
  site : Site Host

namespace SharedHost

/-- Let the registry at an index act. -/
def step (s : SharedHost) (turn : Nat × RegistryAction) : SharedHost :=
  match s.registries[turn.1]? with
  | none => s
  | some r =>
    { registries := s.registries.set turn.1 (r.act s.site turn.2).1
      site := (r.act s.site turn.2).2 }

/-- Let registries act in turn. -/
def run (s : SharedHost) (turns : List (Nat × RegistryAction)) : SharedHost := turns.foldl step s

/-- Registries with names of their own that have decorated nothing, and a host all of whose methods
are as they were defined. -/
structure Fresh (s : SharedHost) : Prop where
  owners : (s.registries.map (·.settings.owner)).Nodup
  undecorated : ∀ r ∈ s.registries, r.methods.entries = []
  unpatched : ∀ m mm, s.site.host.managed? m = some mm → mm = .ofBody mm.base

/-- Nobody owns a method of a fresh host. -/
theorem Fresh.ownerOf?_eq_none {s : SharedHost} (h : s.Fresh) (m : MethodRef) :
    s.site.host.ownerOf? m = none := by
  rw [Host.ownerOf?]
  cases hmm : s.site.host.managed? m with
  | none => rfl
  | some mm =>
    rw [h.unpatched m mm hmm]
    rfl

/-- What actions keep, for a host that began as `first`. -/
structure Sound (first : Host) (s : SharedHost) : Prop where
  owners : (s.registries.map (·.settings.owner)).Nodup
  inStep : ∀ r ∈ s.registries, r.InStep s.site.host
  base : ∀ m, (s.site.host.managed? m).map (·.base) = (first.managed? m).map (·.base)
  intact : ∀ m mm, s.site.host.managed? m = some mm → mm.Intact

theorem Fresh.sound {s : SharedHost} (h : s.Fresh) : s.Sound s.site.host where
  owners := h.owners
  inStep := by
    intro r hr
    refine ⟨?_, fun m hm => by rw [h.ownerOf?_eq_none] at hm; cases hm⟩
    rw [h.undecorated r hr]
    exact ⟨.nil, nofun, nofun⟩
  base := fun _ => rfl
  intact := by
    intro m mm hmm
    rw [h.unpatched m mm hmm]
    rfl

/-- Different registries install under different names. -/
theorem owner_ne {s : SharedHost} (howners : (s.registries.map (·.settings.owner)).Nodup)
    {i j : Nat} {r r' : Registry} (hi : s.registries[i]? = some r) (hj : s.registries[j]? = some r')
    (hne : i ≠ j) : r.settings.owner ≠ r'.settings.owner := by
  intro heq
  obtain ⟨hlt, hr⟩ := List.getElem?_eq_some_iff.1 hi
  have hget : (s.registries.map (·.settings.owner))[i]? =
      (s.registries.map (·.settings.owner))[j]? := by
    rw [List.getElem?_map, List.getElem?_map, hi, hj, Option.map_some, Option.map_some, heq]
  exact hne ((List.getElem?_inj (by rw [List.length_map]; exact hlt) howners).1 hget)

/-- **One turn.** -/
theorem Sound.step {first : Host} {s : SharedHost} (h : s.Sound first)
    (turn : Nat × RegistryAction) : (s.step turn).Sound first := by
  obtain ⟨index, action⟩ := turn
  cases hr : s.registries[index]? with
  | none =>
    simp only [SharedHost.step, hr]
    exact h
  | some r =>
    obtain ⟨hsettings, hinStep, keys, hhandles⟩ :=
      (h.inStep r (List.mem_of_getElem? hr)).act action
    simp only [SharedHost.step, hr]
    refine ⟨?_, fun r' hr' => ?_, fun m => (hhandles.map_base m).trans (h.base m),
      fun m mm hmm => hhandles.intact h.intact hmm⟩
    · have hlt := (List.getElem?_eq_some_iff.1 hr).1
      have hsame : (s.registries.map (·.settings.owner)).set index r.settings.owner =
          s.registries.map (·.settings.owner) := by
        refine List.ext_getElem? fun j => ?_
        rw [List.getElem?_set]
        split
        · next heq =>
          subst heq
          rw [if_pos (by rw [List.length_map]; exact hlt), List.getElem?_map, hr]
          rfl
        · rfl
      rw [List.map_set, hsettings, hsame]
      exact h.owners
    · obtain ⟨j, hj⟩ := List.mem_iff_getElem?.1 hr'
      rw [List.getElem?_set] at hj
      split at hj
      · split at hj
        · cases hj
          exact hinStep
        · cases hj
      · next hne =>
        -- the other registries see nothing of what was done under this name
        exact (h.inStep r' (List.mem_of_getElem? hj)).of_handles hhandles
          (owner_ne h.owners hj hr (Ne.symm hne))

theorem Sound.run {first : Host} {s : SharedHost} (h : s.Sound first)
    (turns : List (Nat × RegistryAction)) : (s.run turns).Sound first := by
  induction turns generalizing s with
  | nil => exact h
  | cons turn turns ih => exact ih (h.step turn)

/-! ### What every reachable state has -/

/-- Who owns what on a host that began as `first`. -/
structure Ownership (first : Host) (s : SharedHost) : Prop where
  /-- The body that a method was defined with stays. -/
  base : ∀ m, (s.site.host.managed? m).map (·.base) = (first.managed? m).map (·.base)
  /-- Callers of a method without owner execute that body. -/
  unowned : ∀ m mm, s.site.host.managed? m = some mm → mm.owner? = none → mm.active = mm.base
  /-- A decorated method counts as patched exactly if the host has its body under the name of the
  registry. -/
  patched_iff : ∀ r ∈ s.registries, ∀ m d, r.decorated? m = some d →
    (d.isPatched = true ↔ s.site.host.ownerOf? m = some r.settings.owner)
  /-- At most one registry has a method patched. -/
  exclusive : ∀ (i j : Nat) (r r' : Registry) m d d', s.registries[i]? = some r →
    s.registries[j]? = some r' → r.decorated? m = some d → r'.decorated? m = some d' →
      d.isPatched = true → d'.isPatched = true → i = j
  /-- Nothing that a registry does touches a method with another owner. -/
  undisturbed : ∀ (i : Nat) (r : Registry) action, s.registries[i]? = some r → ∀ m mm owner,
    s.site.host.managed? m = some mm → mm.owner? = some owner → owner ≠ r.settings.owner →
      (s.step (i, action)).site.host.managed? m = some mm
  /-- A removal succeeds.  Nothing is owned by the registry then, and callers of what it had patched
  execute the first bodies. -/
  reverted : ∀ r ∈ s.registries, ∃ r' site', r.revert s.site = (.ok (), r', site') ∧
    (∀ m, site'.host.ownerOf? m ≠ some r.settings.owner) ∧
    ∀ m d, r.decorated? m = some d → d.isPatched = true →
      ∃ mm mm₀, site'.host.managed? m = some mm ∧ first.managed? m = some mm₀ ∧
        mm.active = mm₀.base

theorem Sound.ownership {first : Host} {s : SharedHost} (h : s.Sound first) :
    s.Ownership first where
  base := h.base
  unowned := fun m mm hmm => (h.intact m mm hmm).active_eq_base
  patched_iff := by
    intro r hr m d hd
    rw [(h.inStep r hr).ownerOf?_iff]
    constructor
    · exact fun hpatched => ⟨d, hd, hpatched⟩
    · rintro ⟨d', hd', hpatched⟩
      cases hd.symm.trans hd'
      exact hpatched
  exclusive := by
    intro i j r r' m d d' hi hj hd hd' hpatched hpatched'
    refine Decidable.byContradiction fun hne => ?_
    -- the method would have two owners on the host
    have howned := ((h.inStep r (List.mem_of_getElem? hi)).ownerOf?_iff m).2 ⟨d, hd, hpatched⟩
    have howned' := ((h.inStep r' (List.mem_of_getElem? hj)).ownerOf?_iff m).2 ⟨d', hd', hpatched'⟩
    exact owner_ne h.owners hi hj hne (Option.some.inj (howned.symm.trans howned'))
  undisturbed := by
    intro i r action hr m mm owner hmm howner hne
    obtain ⟨-, -, keys, hhandles⟩ := (h.inStep r (List.mem_of_getElem? hr)).act action
    simp only [SharedHost.step, hr]
    exact hhandles.managed?_of_other hne hmm howner
  reverted := by
    intro r hr
    obtain ⟨r', site', hrevert, -, -, hhandles, hunowned, hactive⟩ := (h.inStep r hr).revert
    refine ⟨r', site', hrevert, hunowned, fun m d hd hpatched => ?_⟩
    obtain ⟨mm, hmm, hbody⟩ := hactive m d hd hpatched
    have hbase := (hhandles.map_base m).trans (h.base m)
    rw [hmm, Option.map_some, eq_comm, Option.map_eq_some_iff] at hbase
    obtain ⟨mm₀, hmm₀, hsame⟩ := hbase
    exact ⟨mm, mm₀, hmm, hmm₀, hbody.trans hsame.symm⟩

/-- **Owners do not get in each other's way.**  Registries with names of their own act on one host,
in any order, with success or without; the host keeps the first bodies, agrees with each registry on
what it has patched, and lets none of them disturb another or fail to remove what it has
installed. -/
theorem ownership_run {s : SharedHost} (h : s.Fresh) (turns : List (Nat × RegistryAction)) :
    (s.run turns).Ownership s.site.host :=
  (h.sound.run turns).ownership

/-! ### Two registries that take turns -/

/-- A static method without parameters and result. -/
def tick : MethodRef where
  token := .ofRow Token.methodDefTable 1
  declaringType := ⟨.ofRow Token.typeDefTable 1, "Game"⟩
  name := "tick"
  parameters := []
  returnType := none
  isStatic := true

/-- Two registries that have done nothing yet, and a host with one method. -/
def eastAndWest : SharedHost where
  registries := [{ settings := { owner := "east" } }, { settings := { owner := "west" } }]
  site := ⟨{ module := ({} : Module).setBody tick { code := [0x2a] } }, {}⟩

theorem fresh_eastAndWest : eastAndWest.Fresh where
  owners := by decide
  undecorated := by simp [eastAndWest]
  unpatched := by
    intro m mm hmm
    simp only [eastAndWest, Host.managed?, Module.setBody, Module.implement, Module.managed?,
      Module.implementation?, KeyMap.get?_insert] at hmm
    by_cases h : m.token.key = tick.token.key
    · simp only [if_pos h] at hmm
      rw [← Option.some.inj hmm]
      rfl
    · simp only [if_neg h] at hmm
      cases hmm

/-- Add a transpiler that leaves the instructions as they are. -/
def addKeeping (p : Pattern) : Pattern :=
  { p with transpilers := p.transpilers.add { name := "keep", run := fun code => pure code } }

/-- Both registries register the method and commit; the second one cannot install it. -/
def contest : List (Nat × RegistryAction) :=
  [(0, .edit tick addKeeping), (1, .edit tick addKeeping), (0, .commit), (1, .commit)]

/-- The first registry keeps the method. -/
theorem ownership_contest : (eastAndWest.run contest).Ownership eastAndWest.site.host ∧
    (eastAndWest.run contest).site.host.ownerOf? tick = some "east" :=
  ⟨ownership_run fresh_eastAndWest contest, by rfl⟩

end SharedHost

end MethodWeave
