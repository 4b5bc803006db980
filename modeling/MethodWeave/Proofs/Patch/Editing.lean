import MethodWeave.Proofs.Patch.Courses
import MethodWeave.Proofs.Patch.Ownership
/-!
Registries that their own operations build.

An edit files the method under its token, with the pattern that it had, or an empty one at its first
mention, and the change made to it (`Registry.edit_eq`).  Commits and removals keep what is filed.
So every registry that can be reached has its methods by increasing token, each under its own.

Main results: `Registry.Reachable.ordered`, and `Registry.Ordered.decorated?_iff`, what stands under
a token is the entry with that key.
-/

namespace MethodWeave

namespace KeyMap

variable {α : Type}

theorem insertEntry_insertEntry (key : Nat) (a b : α) (entries : List (Nat × α)) :
    insertEntry key b (insertEntry key a entries) = insertEntry key b entries := by
  induction entries with
  | nil => simp [insertEntry]
  | cons first rest ih =>
    rcases Nat.lt_trichotomy key first.1 with hlt | heq | hgt
    · simp [insertEntry, hlt]
    · simp [insertEntry, heq]
    · have hnlt : ¬key < first.1 := Nat.lt_asymm hgt
      have hne : key ≠ first.1 := Nat.ne_of_gt hgt
      simp [insertEntry, hnlt, hne, ih]

/-- Of two writes under one key, the second one counts. -/
theorem insert_insert (m : KeyMap α) (key : Nat) (a b : α) :
    (m.insert key a).insert key b = m.insert key b :=
  congrArg KeyMap.mk (insertEntry_insertEntry key a b m.entries)

/-- In the order of keys, what is stored under a key is the entry with it. -/
theorem get?_eq_some_iff {m : KeyMap α} (h : (m.entries.map (·.1)).Pairwise (· < ·)) {k : Nat}
    {a : α} : m.get? k = some a ↔ (k, a) ∈ m.entries := by
  obtain ⟨entries⟩ := m
  refine ⟨mem_entries_of_get?, fun hmem => ?_⟩
  rw [get?]
  induction entries with
  | nil => cases hmem
  | cons first rest ih =>
    obtain ⟨hfirst, hrest⟩ := List.pairwise_cons.1 h
    rw [List.lookup_cons]
    rcases List.mem_cons.1 hmem with rfl | hmem
    · simp
    · have hlt : first.1 < k := hfirst k (List.mem_map_of_mem hmem)
      have hne : (k == first.1) = false := by simpa using Nat.ne_of_gt hlt
      rw [hne]
      exact ih hrest hmem

end KeyMap

namespace Registry

/-- What the registry has for a method, or will have at its first mention. -/
def mentioned (r : Registry) (m : MethodRef) : Decorated :=
  (r.decorated? m).getD (.ofMethod m r.settings.owner r.settings.printMode)

/-- **What an edit does.** -/
theorem edit_eq (r : Registry) (m : MethodRef) (change : Pattern → Pattern) (journal : Journal) :
    (r.edit m change journal).1 =
      { r with
        methods := r.methods.insert m.token.key
          { r.mentioned m with pattern := change (r.mentioned m).pattern } } := by
  cases hd : r.decorated? m with
  | some d => simp only [edit, decorate, setPattern, mentioned, hd, Option.getD_some]
  | none =>
    have hinsert := KeyMap.insert_insert r.methods m.token.key
    simp only [edit, decorate, setPattern, mentioned, hd, Option.getD_none]
    simp only [decorated?, KeyMap.get?_insert_self, hinsert]

variable {σ ρ : Type} [PatchHost σ ρ]

/-- The registries that edits of patterns, commits and removals lead to, on whatever hosts. -/
inductive Reachable : Registry → Prop
  | start (settings : RegistrySettings) : Reachable { settings := settings }
  | edit {r : Registry} (m : MethodRef) (change : Pattern → Pattern) (journal : Journal) :
      Reachable r → Reachable (r.edit m change journal).1
  | commit {r : Registry} {σ ρ : Type} [PatchHost σ ρ] (site : Site σ) :
      Reachable r → Reachable (r.commit site).2.1
  | revert {r : Registry} {σ ρ : Type} [PatchHost σ ρ] (site : Site σ) :
      Reachable r → Reachable (r.revert site).2.1

/-- Methods are kept by increasing token, each under its own. -/
structure Ordered (entries : List (Nat × Decorated)) : Prop where
  keys : (entries.map (·.1)).Pairwise (· < ·)
  filed : ∀ e ∈ entries, e.2.method.token.key = e.1

/-- Which method is kept under which key. -/
def filing (entries : List (Nat × Decorated)) : List (Nat × MethodRef) :=
  entries.map fun e => (e.1, e.2.method)

theorem Ordered.of_filing {entries entries' : List (Nat × Decorated)} (h : Ordered entries)
    (hsame : filing entries' = filing entries) : Ordered entries' where
  keys := by
    have hkeys := congrArg (List.map (·.1)) hsame
    simp only [filing, List.map_map] at hkeys
    exact (show entries'.map (·.1) = entries.map (·.1) from hkeys) ▸ h.keys
  filed := by
    intro e he
    have hmem : (e.1, e.2.method) ∈ filing entries := by
      rw [← hsame]
      exact List.mem_map_of_mem he
    obtain ⟨e₀, he₀, heq⟩ := List.mem_map.1 hmem
    obtain ⟨hkey, hmethod⟩ := Prod.mk.inj heq
    rw [← hkey, ← hmethod]
    exact h.filed e₀ he₀

theorem Ordered.insertEntry {entries : List (Nat × Decorated)} (h : Ordered entries) {key : Nat}
    {d : Decorated} (hkey : d.method.token.key = key) :
    Ordered (KeyMap.insertEntry key d entries) where
  keys := KeyMap.pairwise_insertEntry h.keys
  filed := fun e he => (KeyMap.mem_insertEntry he).elim (fun heq => heq ▸ hkey) (h.filed e)

theorem filing_commitEntries (entries : List (Nat × Decorated)) (site : Site σ) :
    filing (commitEntries entries site).2.1 = filing entries := by
  induction entries generalizing site with
  | nil => rfl
  | cons entry rest ih =>
    obtain ⟨key, d⟩ := entry
    have hcommits := d.commits site
    rw [commitEntries]
    generalize d.commit site = outcome at hcommits
    obtain ⟨e | installed, d', site₁⟩ := outcome
    · obtain ⟨isPatched, rfl⟩ := hcommits.kept
      rfl
    · obtain ⟨isPatched, rfl⟩ := hcommits.kept
      exact congrArg ((key, d.method) :: ·) (ih site₁)

theorem filing_revertEntries (entries : List (Nat × Decorated)) (site : Site σ) :
    filing (revertEntries entries site).2.1 = filing entries := by
  induction entries generalizing site with
  | nil => rfl
  | cons entry rest ih =>
    obtain ⟨key, d⟩ := entry
    have hreverts := d.reverts site
    rw [revertEntries]
    generalize d.revert site = outcome at hreverts
    obtain ⟨e | ⟨⟩, d', site₁⟩ := outcome
    · obtain ⟨isPatched, rfl⟩ := hreverts.kept
      rfl
    · obtain ⟨isPatched, rfl⟩ := hreverts.kept
      exact congrArg ((key, d.method) :: ·) (ih site₁)

theorem entries_commit (r : Registry) (site : Site σ) :
    (r.commit site).2.1.methods.entries = (commitEntries r.methods.entries site).2.1 := by
  unfold commit
  generalize commitEntries r.methods.entries site = outcome
  obtain ⟨e | n, entries', site'⟩ := outcome <;> rfl

theorem Ordered.edit {r : Registry} (h : Ordered r.methods.entries) (m : MethodRef)
    (change : Pattern → Pattern) (journal : Journal) :
    Ordered (r.edit m change journal).1.methods.entries := by
  rw [edit_eq]
  refine h.insertEntry ?_
  show (r.mentioned m).method.token.key = m.token.key
  cases hd : r.decorated? m with
  | some d =>
    rw [mentioned, hd]
    exact h.filed _ (KeyMap.mem_entries_of_get? hd)
  | none =>
    rw [mentioned, hd]
    rfl

theorem Ordered.commit {r : Registry} (h : Ordered r.methods.entries) (site : Site σ) :
    Ordered (r.commit site).2.1.methods.entries := by
  rw [entries_commit]
  exact h.of_filing (filing_commitEntries _ site)

theorem Reachable.ordered {r : Registry} (h : r.Reachable) : Ordered r.methods.entries := by
  induction h with
  | start _ => exact ⟨.nil, nofun⟩
  | edit m change journal _ ih => exact ih.edit m change journal
  | commit site _ ih => exact ih.commit site
  | revert site _ ih => exact ih.of_filing (filing_revertEntries _ site)

/-- A decorated method is the entry with its token. -/
theorem Ordered.decorated?_iff {r : Registry} (h : Ordered r.methods.entries) {m : MethodRef}
    {d : Decorated} : r.decorated? m = some d ↔ (m.token.key, d) ∈ r.methods.entries :=
  KeyMap.get?_eq_some_iff h.keys

/-- Methods that differ in their tokens. -/
def lane (row : Nat) : MethodRef :=
  { SharedHost.tick with token := .ofRow Token.methodDefTable row }

end Registry

end MethodWeave
