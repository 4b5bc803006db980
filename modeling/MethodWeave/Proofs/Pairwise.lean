import Mathlib.Data.List.Forall2
import Mathlib.Data.List.Nodup
/-!
Lists related entry by entry, beyond what the library has: composition, and entries that are known
to stand in their lists.
-/

namespace MethodWeave

variable {α β γ : Type} {R : α → β → Prop} {S : β → γ → Prop}
variable {as : List α} {bs : List β} {cs : List γ}

theorem forall₂_comp (h : List.Forall₂ R as bs) (h' : List.Forall₂ S bs cs) :
    List.Forall₂ (fun a c => ∃ b, R a b ∧ S b c) as cs := by
  induction h generalizing cs with
  | nil => cases h'; exact .nil
  | cons h _ ih => cases h' with
    | cons h' hrest => exact .cons ⟨_, h, h'⟩ (ih hrest)

theorem forall₂_and {R' : α → β → Prop} (h : List.Forall₂ R as bs) (h' : List.Forall₂ R' as bs) :
    List.Forall₂ (fun a b => R a b ∧ R' a b) as bs := by
  induction h with
  | nil => exact .nil
  | cons h _ ih => cases h' with
    | cons h' hrest => exact .cons ⟨h, h'⟩ (ih hrest)

theorem forall₂_and_mem (h : List.Forall₂ R as bs) :
    List.Forall₂ (fun a b => a ∈ as ∧ b ∈ bs ∧ R a b) as bs := by
  induction h with
  | nil => exact .nil
  | cons h _ ih =>
    refine .cons ⟨List.mem_cons_self, List.mem_cons_self, h⟩ (ih.imp fun a b hab => ?_)
    exact ⟨List.mem_cons_of_mem _ hab.1, List.mem_cons_of_mem _ hab.2.1, hab.2.2⟩

theorem forall₂_eq_map_iff {f : α → β} :
    List.Forall₂ (fun a b => b = f a) as bs ↔ bs = as.map f := by
  rw [← List.forall₂_eq_eq_eq, List.forall₂_map_right_iff]
  exact ⟨fun h => h.flip, fun h => h.flip⟩

theorem any_eq_of_forall₂ {f : α → Bool} {g : β → Bool}
    (h : List.Forall₂ (fun a b => g b = f a) as bs) : bs.any g = as.any f := by
  induction h with
  | nil => rfl
  | cons h _ ih => rw [List.any_cons, List.any_cons, h, ih]

theorem findIdx?_eq_of_forall₂ {f : α → Bool} {g : β → Bool}
    (h : List.Forall₂ (fun a b => g b = f a) as bs) : bs.findIdx? g = as.findIdx? f := by
  induction h with
  | nil => rfl
  | cons h _ ih => rw [List.findIdx?_cons, List.findIdx?_cons, h, ih]

/-- Lists of entries that list the same, up to order. -/
theorem perm_flatMap_of_forall₂ {f : α → List γ} {g : β → List γ}
    (h : List.Forall₂ (fun a b => (g b).Perm (f a)) as bs) : (bs.flatMap g).Perm (as.flatMap f) := by
  induction h with
  | nil => exact .refl _
  | cons h _ ih =>
    rw [List.flatMap_cons, List.flatMap_cons]
    exact h.append ih

theorem exists_of_mem_left (h : List.Forall₂ R as bs) {a : α} (ha : a ∈ as) :
    ∃ b ∈ bs, R a b := by
  induction h with
  | nil => cases ha
  | cons h _ ih =>
    rcases List.mem_cons.1 ha with rfl | ha
    · exact ⟨_, List.mem_cons_self, h⟩
    · obtain ⟨b, hb, hab⟩ := ih ha
      exact ⟨b, List.mem_cons_of_mem _ hb, hab⟩

theorem exists_of_mem_right (h : List.Forall₂ R as bs) {b : β} (hb : b ∈ bs) :
    ∃ a ∈ as, R a b :=
  exists_of_mem_left (R := fun b a => R a b) h.flip hb

theorem exists_getElem?_left (h : List.Forall₂ R as bs) {j : Nat} {a : α} (ha : as[j]? = some a) :
    ∃ b, bs[j]? = some b ∧ R a b := by
  induction h generalizing j with
  | nil => cases ha
  | cons h _ ih =>
    cases j with
    | zero => cases ha; exact ⟨_, rfl, h⟩
    | succ j => exact ih ha

theorem exists_getElem?_right (h : List.Forall₂ R as bs) {j : Nat} {b : β}
    (hb : bs[j]? = some b) : ∃ a, as[j]? = some a ∧ R a b :=
  exists_getElem?_left (R := fun b a => R a b) h.flip hb

/-- Lists of one length are related if they are so at each place. -/
theorem forall₂_of_getElem? (hlength : as.length = bs.length)
    (h : ∀ (i : Nat) (a : α) (b : β), as[i]? = some a → bs[i]? = some b → R a b) :
    List.Forall₂ R as bs := by
  rw [List.forall₂_iff_get]
  refine ⟨hlength, fun i hi hi' => h i _ _ ?_ ?_⟩
  · exact List.getElem?_eq_getElem hi
  · exact List.getElem?_eq_getElem hi'

/-- In a list that increases strictly by some measure, an entry's measure tells its place. -/
theorem index_eq_of_pairwise_lt {f : α → Nat} (h : as.Pairwise fun a b => f a < f b) {i j : Nat}
    {a b : α} (ha : as[i]? = some a) (hb : as[j]? = some b) (heq : f a = f b) : i = j := by
  obtain ⟨hi, rfl⟩ := List.getElem?_eq_some_iff.1 ha
  obtain ⟨hj, rfl⟩ := List.getElem?_eq_some_iff.1 hb
  rw [List.pairwise_iff_getElem] at h
  rcases Nat.lt_trichotomy i j with hlt | heq' | hlt
  · have := h i j hi hj hlt
    omega
  · exact heq'
  · have := h j i hj hi hlt
    omega

/-- What is listed by one entry only, and once, tells the place of that entry. -/
theorem index_eq_of_nodup_flatMap {f : α → List β} (h : (as.flatMap f).Nodup) {i j : Nat} {a b : α}
    (ha : as[i]? = some a) (hb : as[j]? = some b) {x : β} (hxa : x ∈ f a) (hxb : x ∈ f b) :
    i = j := by
  obtain ⟨hi, rfl⟩ := List.getElem?_eq_some_iff.1 ha
  obtain ⟨hj, rfl⟩ := List.getElem?_eq_some_iff.1 hb
  have hapart := List.pairwise_iff_getElem.1 (List.nodup_flatMap.1 h).2
  rcases Nat.lt_trichotomy i j with hlt | heq | hlt
  · exact absurd hxb (hapart i j hi hj hlt hxa)
  · exact heq
  · exact absurd hxa (hapart j i hj hi hlt hxb)

end MethodWeave
