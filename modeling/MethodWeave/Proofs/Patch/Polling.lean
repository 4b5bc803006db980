import Mathlib.Data.List.Induction
import MethodWeave.Proofs.Patch.Commit
import MethodWeave.Proofs.Patch.Registering
/-!
Polls of a pattern among edits of its lists.

A list may be edited and polled by itself, and a poll of the pattern polls all four lists.  Whether
a call alters a list is said without the flags (`ListEdit.Alters`), and so is whether a list was
altered since its flag was last lowered (`PatternCall.Pending`).  One call raises, lowers or keeps
the flag of a list accordingly (`PatternCall.changed_get_apply`), so after any calls the flag tells
just that (`PatternCall.changed_get_after`).

Main result: no poll misses a change or reports one that was not made (`PatternCall.pollLaws`).
-/

namespace MethodWeave

/-! ### Edits of one list -/

namespace ListEdit

variable {α : Type}

/-- Does the edit alter a list in which these items stand? -/
def Alters (items : List α) : ListEdit α → Prop
  | .add _ => True
  | .remove index => index < items.length
  | .retain keep => ∃ item ∈ items, keep item = false
  | .clear => items ≠ []

theorem alters_retain_iff (keep : α → Bool) (items : List α) :
    (ListEdit.retain keep).Alters items ↔ items.filter keep ≠ items := by
  simp [Alters, List.filter_eq_self]

/-- An edit alters a list exactly if other items stand in it afterwards. -/
theorem alters_iff (l : ChangeList α) (e : ListEdit α) :
    e.Alters l.items ↔ (e.apply l).items ≠ l.items := by
  cases e with
  | add item => simp [Alters, apply]
  | remove index =>
    by_cases hindex : index < l.items.length
    · refine iff_of_true hindex fun heq => ?_
      have hlength := congrArg List.length heq
      simp only [apply, ChangeList.remove, List.getElem?_eq_getElem hindex] at hlength
      rw [List.length_eraseIdx_of_lt hindex] at hlength
      omega
    · refine iff_of_false hindex fun hne => hne ?_
      simp only [apply, ChangeList.remove, List.getElem?_eq_none (Nat.le_of_not_lt hindex)]
  | retain keep => exact alters_retain_iff keep l.items
  | clear =>
    simp only [Alters, apply, ChangeList.items_clear]
    exact ne_comm

/-- An edit raises the flag exactly if it alters the list. -/
theorem changed_apply (l : ChangeList α) (e : ListEdit α) :
    (e.apply l).changed = true ↔ e.Alters l.items ∨ l.changed = true := by
  cases e with
  | add item => simp [Alters, apply, ChangeList.add]
  | remove index =>
    by_cases hindex : index < l.items.length <;>
      simp [Alters, apply, ChangeList.remove, hindex]
  | retain keep =>
    -- items are gone exactly if not every item was kept
    have hgone : l.items.length - (l.items.filter keep).length ≠ 0 ↔
        (ListEdit.retain keep).Alters l.items := by
      rw [alters_retain_iff]
      refine not_iff_not.2 ⟨fun hlength => ?_, fun heq => by rw [heq, Nat.sub_self]⟩
      exact List.filter_sublist.eq_of_length_le (by omega)
    simp only [apply, ChangeList.retain, Bool.or_eq_true, bne_iff_ne, hgone]
    exact or_comm
  | clear =>
    cases hitems : l.items with
    | nil => simp [Alters, apply, ChangeList.clear, hitems]
    | cons item items => simp [Alters, apply, ChangeList.clear, hitems]

end ListEdit

/-! ### The lists of a pattern -/

namespace Pattern

/-- Put a list in the place of one of the four. -/
def set (p : Pattern) : (l : PatternList) → ChangeList l.Item → Pattern
  | .prefixes, list => { p with prefixes := list }
  | .suffixes, list => { p with suffixes := list }
  | .transpilers, list => { p with transpilers := list }
  | .postTranspilers, list => { p with postTranspilers := list }

variable (p : Pattern) (l : PatternList)

@[simp] theorem get_set (list : ChangeList l.Item) : (p.set l list).get l = list := by
  cases l <;> rfl

theorem get_set_of_ne {l' : PatternList} (h : l' ≠ l) (list : ChangeList l'.Item) :
    (p.set l' list).get l = p.get l := by
  cases l' <;> cases l <;> first | rfl | exact absurd rfl h

@[simp] theorem set_get : p.set l (p.get l) = p := by
  cases l <;> rfl

/-- A poll of the pattern polls every list. -/
@[simp] theorem get_poll (lower : Bool) : (p.poll lower).2.get l = ((p.get l).poll lower).2 := by
  cases l <;> rfl

/-- It reports a change just if a flag is raised. -/
theorem poll_fst_iff (lower : Bool) :
    (p.poll lower).1 = true ↔ ∃ l, (p.get l).changed = true := by
  simp only [poll, Bool.or_eq_true]
  constructor
  · rintro (((h | h) | h) | h)
    exacts [⟨.prefixes, h⟩, ⟨.suffixes, h⟩, ⟨.transpilers, h⟩, ⟨.postTranspilers, h⟩]
  · rintro ⟨l, h⟩
    cases l with
    | prefixes => exact .inl (.inl (.inl h))
    | suffixes => exact .inl (.inl (.inr h))
    | transpilers => exact .inl (.inr h)
    | postTranspilers => exact .inr h

end Pattern

/-! ### Calls -/

/-- A call on one list. -/
inductive ListCall (α : Type) where
  | edit (e : ListEdit α)
  | poll (lower : Bool)

/-- What a call makes of a list. -/
def ListCall.apply {α : Type} (l : ChangeList α) : ListCall α → ChangeList α
  | .edit e => e.apply l
  | .poll lower => (l.poll lower).2

/-- A call on one list of a pattern, or on the pattern itself. -/
inductive PatternCall where
  | list (l : PatternList) (call : ListCall l.Item)
  | poll (lower : Bool)

namespace PatternCall

/-- What a call makes of a pattern. -/
def apply (p : Pattern) : PatternCall → Pattern
  | .list l call => p.set l (call.apply (p.get l))
  | .poll lower => (p.poll lower).2

/-- Does the call alter a list of the pattern? -/
def Alters (p : Pattern) (l : PatternList) : PatternCall → Prop
  | .list l' (.edit e) => l' = l ∧ e.Alters (p.get l').items
  | .list _ (.poll _) => False
  | .poll _ => False

/-- Does the call lower the flag of a list? -/
def Lowers (l : PatternList) : PatternCall → Prop
  | .list _ (.edit _) => False
  | .list l' (.poll lower) => l' = l ∧ lower = true
  | .poll lower => lower = true

variable {p : Pattern} {l : PatternList} {call : PatternCall}

/-- A call that does not alter a list leaves the items in it. -/
theorem items_get_apply (h : ¬call.Alters p l) :
    ((call.apply p).get l).items = (p.get l).items := by
  cases call with
  | poll lower => simp only [apply, Pattern.get_poll, ChangeList.items_poll]
  | list l' c =>
    by_cases hl : l' = l
    · subst hl
      cases c with
      | edit e =>
        have hsame := mt (ListEdit.alters_iff _ e).2 fun halters => h ⟨rfl, halters⟩
        simpa only [apply, Pattern.get_set, ListCall.apply] using not_not.1 hsame
      | poll lower => simp only [apply, Pattern.get_set, ListCall.apply, ChangeList.items_poll]
    · rw [apply, Pattern.get_set_of_ne p l hl]

/-- **One call.**  Afterwards the flag of a list is raised if the call alters the list, or if the
flag was raised before and the call does not lower it. -/
theorem changed_get_apply : ((call.apply p).get l).changed = true ↔
    call.Alters p l ∨ ¬call.Lowers l ∧ (p.get l).changed = true := by
  have hpoll {α : Type} (list : ChangeList α) (lower : Bool) :
      (list.poll lower).2.changed = true ↔ ¬lower = true ∧ list.changed = true := by
    cases lower <;> simp [ChangeList.poll]
  cases call with
  | poll lower => simp only [apply, Pattern.get_poll, Alters, Lowers, false_or, hpoll]
  | list l' c =>
    by_cases hl : l' = l
    · subst hl
      cases c with
      | edit e =>
        simp only [apply, Pattern.get_set, ListCall.apply, Alters, Lowers, true_and, not_false_iff,
          ListEdit.changed_apply]
      | poll lower =>
        simp only [apply, Pattern.get_set, ListCall.apply, Alters, Lowers, true_and, false_or,
          hpoll]
    · rw [apply, Pattern.get_set_of_ne p l hl]
      cases c <;> simp [Alters, Lowers, hl]

/-! ### Runs of calls -/

/-- A new pattern after some calls. -/
def after (mode : PrintMode) (calls : List PatternCall) : Pattern :=
  calls.foldl apply { mode := mode }

/-- A list was altered by one of the calls, and none behind it has lowered the flag of the list. -/
def Pending (mode : PrintMode) (calls : List PatternCall) (l : PatternList) : Prop :=
  ∃ earlier call later, calls = earlier ++ call :: later ∧ call.Alters (after mode earlier) l ∧
    ∀ c ∈ later, ¬c.Lowers l

variable {mode : PrintMode} {calls : List PatternCall}

theorem after_concat (mode : PrintMode) (calls : List PatternCall) (call : PatternCall) :
    after mode (calls ++ [call]) = call.apply (after mode calls) :=
  List.foldl_concat _ _ _ _

theorem pending_concat : Pending mode (calls ++ [call]) l ↔
    call.Alters (after mode calls) l ∨ ¬call.Lowers l ∧ Pending mode calls l := by
  constructor
  · rintro ⟨earlier, c, later, hsplit, halters, hlater⟩
    rcases later.eq_nil_or_concat' with rfl | ⟨later, last, rfl⟩
    · obtain ⟨rfl, hlast⟩ := List.append_inj' hsplit rfl
      exact .inl ((List.singleton_inj.1 hlast) ▸ halters)
    · rw [← List.cons_append, ← List.append_assoc] at hsplit
      obtain ⟨rfl, hlast⟩ := List.append_inj' hsplit rfl
      obtain rfl := List.singleton_inj.1 hlast
      exact .inr ⟨hlater _ (List.mem_append_right _ List.mem_cons_self),
        earlier, c, later, rfl, halters, fun x hx => hlater x (List.mem_append_left _ hx)⟩
  · rintro (halters | ⟨hlowers, earlier, c, later, rfl, halters, hlater⟩)
    · exact ⟨calls, call, [], rfl, halters, nofun⟩
    · refine ⟨earlier, c, later ++ [call], by simp, halters, fun x hx => ?_⟩
      rcases List.mem_append.1 hx with hx | hx
      · exact hlater x hx
      · exact List.mem_singleton.1 hx ▸ hlowers

/-- **A run of calls.**  The flag of a list is raised just if the list was altered since the flag
was last lowered. -/
theorem changed_get_after :
    ((after mode calls).get l).changed = true ↔ Pending mode calls l := by
  induction calls using List.reverseRecOn with
  | nil =>
    refine iff_of_false (by cases l <;> exact Bool.false_ne_true) ?_
    rintro ⟨earlier, call, later, hsplit, -⟩
    cases earlier <;> cases hsplit
  | append_singleton calls call ih => rw [after_concat, changed_get_apply, pending_concat, ih]

/-- While the flag of a list is neither lowered nor raised, the items in it stay. -/
theorem items_get_after {earlier later : List PatternCall}
    (hlater : ∀ c ∈ later, ¬c.Lowers l) (h : ¬Pending mode (earlier ++ later) l) :
    ((after mode (earlier ++ later)).get l).items = ((after mode earlier).get l).items := by
  induction later using List.reverseRecOn with
  | nil => rw [List.append_nil]
  | append_singleton later call ih =>
    rw [← List.append_assoc, pending_concat, not_or, not_and] at h
    rw [← List.append_assoc, after_concat, items_get_apply h.1]
    exact ih (fun c hc => hlater c (List.mem_append_left _ hc))
      (h.2 (hlater call (List.mem_append_right _ List.mem_cons_self)))

/-- The laws of polls after some calls on a new pattern. -/
structure PollLaws (mode : PrintMode) (calls : List PatternCall) : Prop where
  /-- A poll of the pattern reports a change just if some list was altered since its flag was last
  lowered. -/
  reports_iff : ∀ lower, ((after mode calls).poll lower).1 = true ↔ ∃ l, Pending mode calls l
  /-- A poll of one list reports a change just if that list was. -/
  list_reports_iff : ∀ l lower,
    (((after mode calls).get l).poll lower).1 = true ↔ Pending mode calls l
  /-- When a poll of the pattern reports none, every list is as it was when its flag was last
  lowered, and empty if that has never been done. -/
  unaltered : ∀ lower, ((after mode calls).poll lower).1 = false →
    ∀ l earlier later, calls = earlier ++ later → (∀ c ∈ later, ¬c.Lowers l) →
      ((after mode calls).get l).items = ((after mode earlier).get l).items
  /-- A poll that does not lower flags changes nothing. -/
  look : (PatternCall.poll false).apply (after mode calls) = after mode calls
  list_look : ∀ l, (PatternCall.list l (.poll false)).apply (after mode calls) = after mode calls
  /-- Behind a poll that lowered the flags of all lists nothing is reported until a list is altered
  again. -/
  quiet : ∀ earlier later, calls = earlier ++ .poll true :: later →
    (∀ between call rest, later = between ++ call :: rest →
      ∀ l, ¬call.Alters (after mode (earlier ++ .poll true :: between)) l) →
    ∀ lower, ((after mode calls).poll lower).1 = false ∧
      ∀ l, (((after mode calls).get l).poll lower).1 = false

/-- Nothing is pending behind a poll that lowered all flags, unless a list was altered since. -/
theorem not_pending_of_poll {earlier later : List PatternCall}
    (h : ∀ between call rest, later = between ++ call :: rest →
      ∀ l, ¬call.Alters (after mode (earlier ++ .poll true :: between)) l) :
    ¬Pending mode (earlier ++ .poll true :: later) l := by
  rintro ⟨before, call, rest, hsplit, halters, hrest⟩
  rcases List.append_eq_append_iff.1 hsplit with ⟨between, rfl, hlater⟩ | ⟨between, rfl, hbefore⟩
  · -- the alteration is the poll, or behind it
    cases between with
    | nil =>
      cases hlater
      exact halters
    | cons first between =>
      obtain ⟨rfl, rfl⟩ := List.cons.inj hlater
      exact h between call rest rfl l halters
  · -- the poll is the alteration, or behind it
    cases between with
    | nil =>
      cases hbefore
      exact halters
    | cons first between =>
      obtain ⟨rfl, rfl⟩ := List.cons.inj hbefore
      exact hrest _ (List.mem_append_right _ List.mem_cons_self) rfl

/-- **Polls lose no change.**  After any edits and polls of the four lists and any polls of the
pattern: a poll reports a change just if a list was altered since its flag was last lowered; when it
reports none, the lists are as they were then; a poll that lowers nothing changes nothing; and
behind one that lowered all flags every poll reports none until a list is altered. -/
theorem pollLaws (mode : PrintMode) (calls : List PatternCall) : PollLaws mode calls where
  reports_iff lower := by
    simp only [Pattern.poll_fst_iff, changed_get_after]
  list_reports_iff l lower := by
    rw [ChangeList.poll_fst, changed_get_after]
  unaltered := by
    rintro lower hquiet l earlier later rfl hlater
    refine items_get_after hlater fun hpending => ?_
    have hreports := ((after mode (earlier ++ later)).poll_fst_iff lower).2
      ⟨l, changed_get_after.2 hpending⟩
    exact Bool.false_ne_true (hquiet.symm.trans hreports)
  look := Pattern.eq_of_get rfl fun l => Pattern.get_poll _ l false
  list_look l := Pattern.set_get _ l
  quiet := by
    rintro earlier later rfl hlater lower
    have hdown (l : PatternList) :
        ¬((after mode (earlier ++ .poll true :: later)).get l).changed = true := fun hchanged =>
      not_pending_of_poll hlater (changed_get_after.1 hchanged)
    refine ⟨Bool.eq_false_iff.2 fun hreports => ?_, fun l => Bool.eq_false_iff.2 (hdown l)⟩
    obtain ⟨l, hchanged⟩ := (Pattern.poll_fst_iff _ lower).1 hreports
    exact hdown l hchanged

end PatternCall

end MethodWeave
