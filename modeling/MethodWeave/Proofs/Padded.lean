import MethodWeave.Proofs.Pairwise
/-!
Lists with entries put in.

Everything in the first list stands in the second one, in the same order, and what stands there
besides satisfies a predicate.  Main results: from a place of the first list one comes to a place of
the second one behind which the lists still correspond (`Padded.exists_drop`), and the
correspondence can be followed entry by entry (`Padded.cases_at`).
-/

namespace MethodWeave

variable {α β γ : Type} {P : α → Prop} {as bs cs : List α}

/-- The second list is the first one with entries put in that satisfy `P`. -/
inductive Padded (P : α → Prop) : List α → List α → Prop
  | nil : Padded P [] []
  | keep (a : α) {as bs : List α} : Padded P as bs → Padded P (a :: as) (a :: bs)
  | pad {b : α} {as bs : List α} : P b → Padded P as bs → Padded P as (b :: bs)

namespace Padded

theorem refl (as : List α) : Padded P as as := by
  induction as with
  | nil => exact .nil
  | cons a as ih => exact .keep a ih

theorem trans (h : Padded P as bs) (h' : Padded P bs cs) : Padded P as cs := by
  induction h' generalizing as with
  | nil => exact h
  | keep b _ ih =>
    cases h with
    | keep _ h => exact .keep b (ih h)
    | pad hb h => exact .pad hb (ih h)
  | pad hc _ ih => exact .pad hc (ih h)

theorem append (h : Padded P as bs) {as' bs' : List α} (h' : Padded P as' bs') :
    Padded P (as ++ as') (bs ++ bs') := by
  induction h with
  | nil => exact h'
  | keep a _ ih => exact .keep a ih
  | pad hb _ ih => exact .pad hb ih

theorem replicate {b : α} (hb : P b) (count : Nat) : Padded P [] (List.replicate count b) := by
  induction count with
  | zero => exact .nil
  | succ count ih => exact .pad hb ih

/-- What stands in the second list stands in the first one or was put in. -/
theorem mem (h : Padded P as bs) {b : α} (hb : b ∈ bs) : b ∈ as ∨ P b := by
  induction h with
  | nil => exact Or.inl hb
  | keep a _ ih =>
    rcases List.mem_cons.1 hb with rfl | hb
    · exact Or.inl List.mem_cons_self
    · exact (ih hb).imp_left (List.mem_cons_of_mem a)
  | pad hp _ ih =>
    rcases List.mem_cons.1 hb with rfl | hb
    · exact Or.inr hp
    · exact ih hb

/-- An entry of the first list stands in the second one, and the lists correspond from there on. -/
theorem exists_drop (h : Padded P as bs) {k : Nat} {a : α} (ha : as[k]? = some a) :
    ∃ k', bs[k']? = some a ∧ Padded P (as.drop k) (bs.drop k') := by
  induction h generalizing k with
  | nil => cases ha
  | keep b hrest ih =>
    cases k with
    | zero =>
      cases ha
      exact ⟨0, rfl, .keep _ hrest⟩
    | succ k =>
      obtain ⟨k', hk', hdrop⟩ := ih ha
      exact ⟨k' + 1, hk', hdrop⟩
  | pad _ _ ih =>
    obtain ⟨k', hk', hdrop⟩ := ih ha
    exact ⟨k' + 1, hk', hdrop⟩

/-- What the lists are that correspond from two places on: both end, or both go on with one entry,
or the second goes on with an entry put in. -/
theorem cases_at {k k' : Nat} (h : Padded P (as.drop k) (bs.drop k')) :
    (as[k]? = none ∧ bs[k']? = none) ∨
      (∃ a, as[k]? = some a ∧ bs[k']? = some a ∧
        Padded P (as.drop (k + 1)) (bs.drop (k' + 1))) ∨
      ∃ b, bs[k']? = some b ∧ P b ∧ Padded P (as.drop k) (bs.drop (k' + 1)) := by
  rw [← List.head?_drop, ← List.head?_drop, ← List.tail_drop, ← List.tail_drop]
  generalize as.drop k = front, bs.drop k' = padded at h
  cases h with
  | nil => exact Or.inl ⟨rfl, rfl⟩
  | keep a h => exact Or.inr (Or.inl ⟨a, rfl, rfl, h⟩)
  | pad hb h => exact Or.inr (Or.inr ⟨_, rfl, hb, h⟩)

/-- Lists that correspond to padded ones entry by entry are padded, if entries of the first list get
back to where they came from. -/
theorem between {Q : β → Prop} {R : β → α → Prop} {S : α → β → Prop} {xs ys : List β}
    (h : Padded P as bs) (hxs : List.Forall₂ R xs as) (hys : List.Forall₂ S bs ys)
    (hkeep : ∀ x ∈ xs, ∀ a y, R x a → S a y → y = x) (hpad : ∀ b y, P b → S b y → Q y) :
    Padded Q xs ys := by
  induction h generalizing xs ys with
  | nil =>
    cases hxs
    cases hys
    exact .nil
  | keep a _ ih =>
    obtain ⟨x, xs, hx, hrest, rfl⟩ := List.forall₂_cons_right_iff.1 hxs
    obtain ⟨y, ys, hy, hrest', rfl⟩ := List.forall₂_cons_left_iff.1 hys
    obtain ⟨hkeepx, hkeeps⟩ := List.forall_mem_cons.1 hkeep
    rw [hkeepx a y hx hy]
    exact .keep x (ih hrest hrest' hkeeps)
  | pad hb _ ih =>
    obtain ⟨y, ys, hy, hrest', rfl⟩ := List.forall₂_cons_left_iff.1 hys
    exact .pad (hpad _ y hb hy) (ih hxs hrest' hkeep)

end Padded

end MethodWeave
