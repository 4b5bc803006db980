import Mathlib.Data.List.Perm.Basic
import MethodWeave.Patch.Change
import MethodWeave.Proofs.Metadata
import MethodWeave.Proofs.Patch.Editing
/-!
The order in which patches are registered.

A registration adds an item to one of the four lists of a method.  What is registered against a
method depends on the registrations for its token only (`Registry.decorated?_register`), and what
stands in a list on the additions to that list only (`Pattern.get_added_filter`).  Which description
of a method is kept is decided by the first registration for its token.

Main result: `Registry.Rearranged.register_eq`, registrations that are put in another order, without
changing the order in any list, make the same registry.
-/

namespace MethodWeave

/-! ### Additions to a pattern -/

/-- What stands in a list of a pattern. -/
def PatternList.Item : PatternList → Type
  | .prefixes | .suffixes => MethodRef
  | .transpilers | .postTranspilers => Transpiler

namespace Pattern

/-- A list of the pattern. -/
def get (p : Pattern) : (l : PatternList) → ChangeList l.Item
  | .prefixes => p.prefixes
  | .suffixes => p.suffixes
  | .transpilers => p.transpilers
  | .postTranspilers => p.postTranspilers

theorem eq_of_get {p q : Pattern} (hmode : p.mode = q.mode) (hget : ∀ l, p.get l = q.get l) :
    p = q := by
  obtain ⟨_, _, _, _, _⟩ := p
  obtain ⟨_, _, _, _, _⟩ := q
  have hprefixes := hget .prefixes
  have hsuffixes := hget .suffixes
  have htranspilers := hget .transpilers
  have hpost := hget .postTranspilers
  simp only [get] at hprefixes hsuffixes htranspilers hpost
  simp only at hmode
  rw [hprefixes, hsuffixes, htranspilers, hpost, hmode]

end Pattern

/-- An item for a list. -/
structure PatternAddition where
  list : PatternList
  item : list.Item

namespace PatternAddition

/-- The addition as a change. -/
def change : PatternAddition → PatternChange
  | ⟨.prefixes, hook⟩ => .addPrefix hook
  | ⟨.suffixes, hook⟩ => .addSuffix hook
  | ⟨.transpilers, t⟩ => .addTranspiler t
  | ⟨.postTranspilers, t⟩ => .addPostTranspiler t

def apply (p : Pattern) (a : PatternAddition) : Pattern := (a.change.apply p).2

/-- The transpiler, if it is one that is added. -/
def transpiler? : PatternAddition → Option Transpiler
  | ⟨.transpilers, t⟩ | ⟨.postTranspilers, t⟩ => some t
  | _ => none

variable {a : PatternAddition} {p q : Pattern} {l : PatternList}

@[simp] theorem mode_apply (p : Pattern) (a : PatternAddition) : (a.apply p).mode = p.mode := by
  obtain ⟨list, item⟩ := a
  cases list <;> rfl

/-- An addition leaves the other lists alone. -/
theorem get_apply_of_ne (p : Pattern) (h : a.list ≠ l) : (a.apply p).get l = p.get l := by
  obtain ⟨list, item⟩ := a
  cases list <;> cases l <;> first | rfl | exact absurd rfl h

/-- What it makes of a list depends on that list only. -/
theorem get_apply_congr (a : PatternAddition) (h : p.get l = q.get l) :
    (a.apply p).get l = (a.apply q).get l := by
  obtain ⟨list, item⟩ := a
  cases list <;> cases l <;> first | exact h | exact congrArg (ChangeList.add · item) h

/-- An addition brings in no transpiler but its own. -/
theorem mem_chain_apply {t : Transpiler} (h : t ∈ (a.apply p).chain) :
    t ∈ p.chain ∨ a.transpiler? = some t := by
  obtain ⟨list, item⟩ := a
  cases list with
  | prefixes | suffixes => exact Or.inl h
  | transpilers =>
    rcases List.mem_append.1 h with h | h
    · rcases List.mem_append.1 h with h | h
      · exact Or.inl (List.mem_append_left _ h)
      · exact Or.inr (congrArg some (List.mem_singleton.1 h).symm)
    · exact Or.inl (List.mem_append_right _ h)
  | postTranspilers =>
    rcases List.mem_append.1 h with h | h
    · exact Or.inl (List.mem_append_left _ h)
    · rcases List.mem_append.1 h with h | h
      · exact Or.inl (List.mem_append_right _ h)
      · exact Or.inr (congrArg some (List.mem_singleton.1 h).symm)

end PatternAddition

namespace Pattern

/-- The pattern with additions made in order. -/
def added (p : Pattern) (as : List PatternAddition) : Pattern := as.foldl PatternAddition.apply p

theorem mode_added (p : Pattern) (as : List PatternAddition) : (p.added as).mode = p.mode := by
  induction as generalizing p with
  | nil => rfl
  | cons a as ih => exact (ih (a.apply p)).trans (PatternAddition.mode_apply p a)

/-- What stands in a list depends on the additions to it. -/
theorem get_added_filter {p q : Pattern} {l : PatternList} (h : p.get l = q.get l)
    (as : List PatternAddition) :
    (p.added as).get l = (q.added (as.filter fun a => a.list = l)).get l := by
  induction as generalizing p q with
  | nil => exact h
  | cons a as ih =>
    by_cases hl : a.list = l
    · rw [List.filter_cons_of_pos (by simpa using hl)]
      exact ih (a.get_apply_congr h)
    · rw [List.filter_cons_of_neg (by simpa using hl)]
      exact ih ((PatternAddition.get_apply_of_ne p hl).trans h)

theorem added_eq {as as' : List PatternAddition}
    (h : ∀ l, as.filter (fun a => a.list = l) = as'.filter fun a => a.list = l) (p : Pattern) :
    p.added as = p.added as' := by
  refine eq_of_get ((p.mode_added as).trans (p.mode_added as').symm) fun l => ?_
  rw [get_added_filter rfl as, get_added_filter rfl as', h l]

end Pattern

/-! ### Registrations -/

/-- An addition to a pattern of a method. -/
structure Registration where
  method : MethodRef
  addition : PatternAddition

namespace Registry

/-- Make registrations in order. -/
def register (r : Registry) (regs : List Registration) (journal : Journal) : Registry × Journal :=
  regs.foldl (fun (r, journal) x => (r.change x.method x.addition.change journal).2) (r, journal)

variable {r : Registry} {regs regs' : List Registration}

theorem register_cons (r : Registry) (x : Registration) (regs : List Registration)
    (journal : Journal) :
    r.register (x :: regs) journal =
      (r.edit x.method x.addition.apply journal).1.register regs
        (r.edit x.method x.addition.apply journal).2 := rfl

theorem settings_edit (r : Registry) (m : MethodRef) (change : Pattern → Pattern)
    (journal : Journal) : (r.edit m change journal).1.settings = r.settings := by
  rw [edit_eq]

theorem settings_register (r : Registry) (regs : List Registration) (journal : Journal) :
    (r.register regs journal).1.settings = r.settings := by
  induction regs generalizing r journal with
  | nil => rfl
  | cons x regs ih =>
    rw [register_cons, ih, settings_edit]

theorem supply_edit (r : Registry) (m : MethodRef) (change : Pattern → Pattern)
    (journal : Journal) : (r.edit m change journal).2.supply = journal.supply := by
  simp only [edit, decorate]
  split <;> rfl

/-- Registering hands out no labels. -/
theorem supply_register (r : Registry) (regs : List Registration) (journal : Journal) :
    (r.register regs journal).2.supply = journal.supply := by
  induction regs generalizing r journal with
  | nil => rfl
  | cons x regs ih => rw [register_cons, ih, supply_edit]

/-- What is registered does not depend on the journal. -/
theorem register_congr (r : Registry) (regs : List Registration) (journal journal' : Journal) :
    (r.register regs journal).1 = (r.register regs journal').1 := by
  induction regs generalizing r journal journal' with
  | nil => rfl
  | cons x regs ih =>
    have hfirst : (r.edit x.method x.addition.apply journal).1 =
        (r.edit x.method x.addition.apply journal').1 := by rw [edit_eq, edit_eq]
    rw [register_cons, register_cons, hfirst]
    exact ih _ _ _

theorem register_append (r : Registry) (regs regs' : List Registration) (journal : Journal) :
    r.register (regs ++ regs') journal =
      (r.register regs journal).1.register regs' (r.register regs journal).2 :=
  List.foldl_append

theorem Reachable.register (h : r.Reachable) (regs : List Registration) (journal : Journal) :
    (r.register regs journal).1.Reachable := by
  induction regs generalizing r journal with
  | nil => exact h
  | cons x regs ih => exact ih (h.edit x.method x.addition.apply journal) _

theorem decorated?_edit (r : Registry) (m : MethodRef) (change : Pattern → Pattern)
    (journal : Journal) (m' : MethodRef) :
    (r.edit m change journal).1.decorated? m' =
      if m'.token = m.token then
        some { r.mentioned m with pattern := change (r.mentioned m).pattern }
      else r.decorated? m' := by
  rw [edit_eq, decorated?, KeyMap.get?_insert]
  by_cases h : m'.token = m.token
  · rw [if_pos h, if_pos (congrArg Token.key h)]
  · rw [if_neg h, if_neg fun hkey => h (Token.key_inj hkey)]
    rfl

theorem mentioned_of_decorated? {m m' : MethodRef} {d : Decorated} (h : r.decorated? m' = some d)
    (htoken : m.token = m'.token) : r.mentioned m = d := by
  rw [mentioned, decorated?, htoken, ← decorated?, h]
  rfl

theorem mentioned_edit_of_ne (r : Registry) {m m' : MethodRef} (h : m'.token ≠ m.token)
    (change : Pattern → Pattern) (journal : Journal) :
    (r.edit m change journal).1.mentioned m' = r.mentioned m' := by
  rw [mentioned, decorated?_edit, if_neg h, settings_edit, mentioned]

/-- The registrations for a token. -/
def about (t : Token) (regs : List Registration) : List Registration :=
  regs.filter fun x => x.method.token = t

/-- **What is registered against a method** depends on the registrations for its token: the first of
them decorates the method, if it was not decorated, and all of them add to its pattern. -/
theorem decorated?_register (r : Registry) (regs : List Registration) (journal : Journal)
    (m : MethodRef) :
    (r.register regs journal).1.decorated? m =
      match about m.token regs with
      | [] => r.decorated? m
      | x :: xs =>
        some { r.mentioned x.method with
          pattern := (r.mentioned x.method).pattern.added ((x :: xs).map (·.addition)) } := by
  -- one registration after the other, on the registry that the first one leaves
  induction regs generalizing r journal with
  | nil => rfl
  | cons x regs ih =>
    rw [register_cons, ih]
    have hfirst := r.decorated?_edit x.method x.addition.apply journal m
    by_cases htoken : x.method.token = m.token
    · rw [if_pos htoken.symm] at hfirst
      have habout : about m.token (x :: regs) = x :: about m.token regs :=
        List.filter_cons_of_pos (by simpa using htoken)
      rw [habout]
      cases hrest : about m.token regs with
      | nil => exact hfirst
      | cons y ys =>
        have hy : y ∈ about m.token regs := hrest ▸ List.mem_cons_self
        have htoken' : y.method.token = m.token := by simpa using (List.mem_filter.1 hy).2
        -- the others find the method decorated and add to its pattern
        simp only [mentioned_of_decorated? hfirst htoken']
        rfl
    · rw [if_neg (Ne.symm htoken)] at hfirst
      have habout : about m.token (x :: regs) = about m.token regs :=
        List.filter_cons_of_neg (by simpa using htoken)
      rw [habout]
      cases hrest : about m.token regs with
      | nil => exact hfirst
      | cons y ys =>
        have hy : y ∈ about m.token regs := hrest ▸ List.mem_cons_self
        have htoken' : y.method.token = m.token := by simpa using (List.mem_filter.1 hy).2
        have hne : y.method.token ≠ x.method.token := htoken' ▸ Ne.symm htoken
        -- a registration for another token changes no method of this one
        simp only [r.mentioned_edit_of_ne hne]

/-! ### Registrations in another order -/

/-- The registrations are the same in another order, and for every list of every method in the same
order. -/
structure Rearranged (regs regs' : List Registration) : Prop where
  perm : regs.Perm regs'
  order : ∀ (t : Token) (l : PatternList),
    regs.filter (fun x => x.method.token = t ∧ x.addition.list = l) =
      regs'.filter fun x => x.method.token = t ∧ x.addition.list = l

/-- A method that is not decorated yet is described alike by the first registrations for its token.
-/
def IntroducesAlike (r : Registry) (regs regs' : List Registration) : Prop :=
  ∀ (t : Token) (x x' : Registration), (about t regs).head? = some x →
    (about t regs').head? = some x' → r.decorated? x.method = none → x.method = x'.method

theorem mem_of_head?_about {t : Token} {x : Registration} (h : (about t regs).head? = some x) :
    x ∈ regs ∧ x.method.token = t := by
  obtain ⟨hmem, htoken⟩ := List.mem_filter.1 (List.mem_of_head? h)
  exact ⟨hmem, of_decide_eq_true htoken⟩

/-- It is enough that all registrations for a token describe one method. -/
theorem Rearranged.introducesAlike (h : Rearranged regs regs') (r : Registry)
    (hsame : ∀ x ∈ regs, ∀ y ∈ regs, x.method.token = y.method.token → x.method = y.method) :
    r.IntroducesAlike regs regs' := by
  intro t x x' hx hx' _
  obtain ⟨hmem, htoken⟩ := mem_of_head?_about hx
  obtain ⟨hmem', htoken'⟩ := mem_of_head?_about hx'
  exact hsame x hmem x' (h.perm.mem_iff.2 hmem') (htoken.trans htoken'.symm)

theorem IntroducesAlike.mentioned_eq (h : r.IntroducesAlike regs regs') {t : Token}
    {x x' : Registration} (hx : (about t regs).head? = some x)
    (hx' : (about t regs').head? = some x') : r.mentioned x.method = r.mentioned x'.method := by
  cases hd : r.decorated? x.method with
  | some d =>
    have htoken := (mem_of_head?_about hx').2.trans (mem_of_head?_about hx).2.symm
    rw [mentioned_of_decorated? hd rfl, mentioned_of_decorated? hd htoken]
  | none => rw [h t x x' hx hx' hd]

theorem Rearranged.additions_eq (h : Rearranged regs regs') (t : Token) (l : PatternList) :
    ((about t regs).map (·.addition)).filter (fun a => a.list = l) =
      ((about t regs').map (·.addition)).filter fun a => a.list = l := by
  have horder := congrArg (List.map Registration.addition) (h.order t l)
  simpa only [about, List.filter_map, List.filter_filter, Function.comp_def, Bool.decide_and,
    Bool.and_comm] using horder

/-- Whichever of the sequences is registered, a method has the same pattern. -/
theorem Rearranged.decorated?_eq (h : Rearranged regs regs') (halike : r.IntroducesAlike regs regs')
    (journal journal' : Journal) (m : MethodRef) :
    (r.register regs journal).1.decorated? m = (r.register regs' journal').1.decorated? m := by
  have habout : (about m.token regs).Perm (about m.token regs') := h.perm.filter _
  have hadditions := h.additions_eq m.token
  have hfirst {x x' : Registration} (hx : (about m.token regs).head? = some x)
      (hx' : (about m.token regs').head? = some x') : r.mentioned x.method = r.mentioned x'.method :=
    halike.mentioned_eq hx hx'
  rw [decorated?_register, decorated?_register]
  generalize about m.token regs = mine, about m.token regs' = mine' at habout hadditions hfirst
  cases mine with
  | nil =>
    rw [List.nil_perm.1 habout]
  | cons x xs =>
    cases mine' with
    | nil => cases List.perm_nil.1 habout
    | cons y ys => simp only [hfirst rfl rfl, Pattern.added_eq hadditions]

theorem Ordered.eq_of_mem_iff {entries entries' : List (Nat × Decorated)} (h : Ordered entries)
    (h' : Ordered entries') (hmem : ∀ e, e ∈ entries ↔ e ∈ entries') : entries = entries' := by
  have hlt : entries.Pairwise fun e e' => e.1 < e'.1 := List.pairwise_map.1 h.keys
  have hlt' : entries'.Pairwise fun e e' => e.1 < e'.1 := List.pairwise_map.1 h'.keys
  have hnodup {l : List (Nat × Decorated)} (hl : l.Pairwise fun e e' => e.1 < e'.1) : l.Nodup :=
    hl.imp fun hkey heq => Nat.ne_of_lt hkey (congrArg Prod.fst heq)
  have hperm := (List.perm_ext_iff_of_nodup (hnodup hlt) (hnodup hlt')).2 hmem
  exact hperm.eq_of_pairwise (fun _ _ _ _ hkey hkey' => absurd hkey (Nat.lt_asymm hkey')) hlt hlt'

/-- Registries in the order of tokens are told apart by what stands under the tokens. -/
theorem Ordered.eq_of_decorated? {r r' : Registry} (h : Ordered r.methods.entries)
    (h' : Ordered r'.methods.entries) (hsettings : r.settings = r'.settings)
    (hdecorated : ∀ m, r.decorated? m = r'.decorated? m) : r = r' := by
  have hmem (e : Nat × Decorated) : e ∈ r.methods.entries ↔ e ∈ r'.methods.entries := by
    obtain ⟨key, d⟩ := e
    constructor
    · intro he
      obtain rfl : d.method.token.key = key := h.filed _ he
      exact h'.decorated?_iff.1 (hdecorated d.method ▸ h.decorated?_iff.2 he)
    · intro he
      obtain rfl : d.method.token.key = key := h'.filed _ he
      exact h.decorated?_iff.1 (hdecorated d.method ▸ h'.decorated?_iff.2 he)
  have hmethods : r.methods = r'.methods := congrArg KeyMap.mk (h.eq_of_mem_iff h' hmem)
  obtain ⟨settings, methods⟩ := r
  obtain ⟨settings', methods'⟩ := r'
  exact congrArg₂ Registry.mk hsettings hmethods

/-- **The order of registrations does not matter**, but for the order of additions to one list. -/
theorem Rearranged.register_eq (h : Rearranged regs regs') (hr : r.Reachable)
    (halike : r.IntroducesAlike regs regs') (journal journal' : Journal) :
    (r.register regs journal).1 = (r.register regs' journal').1 :=
  Ordered.eq_of_decorated? (hr.register regs journal).ordered (hr.register regs' journal').ordered
    ((r.settings_register regs journal).trans (r.settings_register regs' journal').symm)
    (h.decorated?_eq halike journal journal')

end Registry

end MethodWeave
