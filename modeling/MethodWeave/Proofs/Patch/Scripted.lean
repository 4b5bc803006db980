import MethodWeave.Patch.Edit
import MethodWeave.Proofs.Patch.Labelling
/-!
Scripts of edits use labels of their own.

A script gets at labels by name.  A name stands for a new label, or for one that the script has
found as the target of a jump; so what the edits put into the code are labels of these two kinds
(`Edit.State.Owns`).  Only an edit that binds a name brings in a native label from elsewhere.

Main result: `Edit.usesOwnLabels`.
-/

namespace MethodWeave

open Instruction (mentioned)

/-! ### Labels of changed instructions -/

section

variable {i j : Instruction} {l : Label}

theorem Operand.targets_emptyFor (info : Opcode.Info) : (emptyFor info).targets = [] := by
  cases hclass : info.operand with
  | shortVar | var =>
    simp only [emptyFor, hclass]
    split <;> rfl
  | _ =>
    simp only [emptyFor, hclass]
    rfl

theorem Operand.targets_of_store {operand stored : Operand} {payload : Payload Label}
    (h : operand.store payload = some stored) : stored.targets = payload.targets := by
  rw [targets, payload?_of_store h]
  rfl

theorem Operand.mem_targets_of_label? {operand : Operand} (h : operand.label? = some l) :
    l ∈ operand.targets := by
  cases operand with
  | branchTarget target? =>
    cases h
    exact List.mem_singleton_self l
  | _ => cases h

/-- A copied operand names what it was copied from names. -/
theorem Operand.mem_targets_of_copyInto {source target copy : Operand}
    (h : source.copyInto target = some copy) (hl : l ∈ copy.targets) : l ∈ source.targets := by
  unfold copyInto at h
  split at h
  · split at h <;> cases h
    cases hl
  · next held =>
    cases h
    cases held <;> cases hl
  · cases h
    exact hl
  all_goals first | cases h; exact hl | cases h

namespace Instruction

theorem mentions_ofOpcode {op : Opcode} (h : ofOpcode op = .ok i) : i.mentions = [] := by
  unfold ofOpcode at h
  split at h
  · cases h
    exact Operand.targets_emptyFor _
  · cases h

theorem mem_mentions_of_setValue {v : InlineValue Label} (h : i.setValue v = .ok j)
    (hl : l ∈ j.mentions) : l ∈ i.mentions ∨ l ∈ v.payload.targets := by
  unfold setValue at h
  split at h
  · next operand hstore =>
    cases h
    rcases List.mem_append.1 hl with hl | hl
    · exact Or.inl (List.mem_append_left _ hl)
    · rw [Operand.targets_of_store hstore] at hl
      exact Or.inr hl
  · cases h

theorem mem_mentions_of_copyWith {op : Opcode} (h : i.copyWith op = .ok j) (hl : l ∈ j.mentions) :
    l ∈ i.mentions := by
  unfold copyWith at h
  obtain ⟨empty, -, h⟩ := bind_eq_ok_iff.1 h
  split at h
  · next operand hcopy =>
    cases h
    rcases List.mem_append.1 hl with hl | hl
    · exact List.mem_append_left _ hl
    · exact List.mem_append_right _ (Operand.mem_targets_of_copyInto hcopy hl)
  · cases h

theorem mem_mentions_withLabel {k : Label} (hl : l ∈ (i.withLabel k).mentions) :
    l = k ∨ l ∈ i.mentions := by
  rcases List.mem_append.1 hl with hl | hl
  · rcases Label.mem_insertInto.1 hl with hl | hl
    · exact Or.inl hl
    · exact Or.inr (List.mem_append_left _ hl)
  · exact Or.inr (List.mem_append_right _ hl)

theorem mem_mentions_foldl_withLabel {ls : List Label} (hl : l ∈ (ls.foldl withLabel i).mentions) :
    l ∈ ls ∨ l ∈ i.mentions := by
  induction ls generalizing i with
  | nil => exact Or.inr hl
  | cons k ls ih =>
    rcases ih hl with hl | hl
    · exact Or.inl (List.mem_cons_of_mem _ hl)
    · rcases mem_mentions_withLabel hl with rfl | hl
      · exact Or.inl List.mem_cons_self
      · exact Or.inr hl

theorem mentions_foldl_withMarker (ms : List Marker) (i : Instruction) :
    (ms.foldl withMarker i).mentions = i.mentions := by
  induction ms generalizing i with
  | nil => rfl
  | cons m ms ih => exact ih (i.withMarker m)

end Instruction

end

/-! ### Instructions with names -/

namespace Script

namespace Scope

/-- The label has a name. -/
def Names (s : Scope) (l : Label) : Prop := ∃ name, (name, l) ∈ s.labels

/-- What a scope keeps as names are given: labels keep their names, and a label that gets one is
free. -/
structure Grows (s s' : Scope) : Prop where
  names : ∀ {l}, s.Names l → s'.Names l
  free : ∀ {l}, s'.Names l → s.Names l ∨ l.fixed? = none

def growth : Growth Scope where
  le := Grows
  refl _ := ⟨id, Or.inl⟩
  trans h h' := ⟨h'.names ∘ h.names, fun hl => (h'.free hl).elim h.free Or.inr⟩

theorem step_label : growth.Step (fun s _ l => s.Names l) label where
  keep hle := hle.names
  run := by
    intro name s
    unfold label
    cases hlookup : s.labels.lookup name with
    | some l =>
      obtain ⟨before, after, hsplit, -⟩ := List.lookup_eq_some_iff.1 hlookup
      refine ⟨growth.refl s, name, ?_⟩
      rw [hsplit]
      exact List.mem_append_right _ List.mem_cons_self
    | none =>
      refine ⟨⟨fun ⟨k, hk⟩ => ⟨k, List.mem_cons_of_mem _ hk⟩, ?_⟩, name, List.mem_cons_self⟩
      rintro l ⟨k, hk⟩
      rcases List.mem_cons.1 hk with heq | hk
      · cases heq
        exact Or.inr rfl
      · exact Or.inl ⟨k, hk⟩

end Scope

/-- The labels of a value have names. -/
theorem Value.names_resolve (v : Value) (s : Scope) :
    Scope.Grows s (v.resolve s).2 ∧ ∀ w, (v.resolve s).1 = some w →
      ∀ l ∈ w.payload.targets, (v.resolve s).2.Names l := by
  cases v with
  | typed v =>
    obtain ⟨hle, hrelated⟩ := Scope.step_label.mapTargets.run v.payload s
    refine ⟨hle, fun w hw l hl => ?_⟩
    cases hw
    obtain ⟨_, -, hnamed⟩ := exists_of_mem_right hrelated.targets hl
    exact hnamed
  | «local» name =>
    refine ⟨Scope.growth.refl s, fun w hw l hl => ?_⟩
    obtain ⟨slot, -, rfl⟩ := Option.map_eq_some_iff.1 hw
    cases hl

variable {s s' : Scope} {i j : Instruction}

theorem names_store {v : Value} (h : (store i v).run s = (.ok j, s')) :
    Scope.Grows s s' ∧ ∀ l ∈ j.mentions, l ∈ i.mentions ∨ s'.Names l := by
  obtain ⟨hle, hnames⟩ := v.names_resolve s
  obtain ⟨w?, s₁, hresolve, h⟩ := run_bind_eq_ok_iff.1 h
  have hresolve := run_lift_eq_ok_iff.1 hresolve
  rw [hresolve] at hle hnames
  cases w? with
  | none =>
    cases h
    exact ⟨hle, fun l hl => Or.inl hl⟩
  | some w =>
    have hpair : (i.setValue w, s₁) = (.ok j, s') := h
    obtain ⟨hset, rfl⟩ := Prod.mk.inj hpair
    refine ⟨hle, fun l hl => ?_⟩
    rcases Instruction.mem_mentions_of_setValue hset hl with hl | hl
    · exact Or.inl hl
    · exact Or.inr (hnames w rfl l hl)

theorem tryStep_line : Scope.growth.TryStep (fun _ => True)
    (fun s (_ : Line) i => ∀ l ∈ i.mentions, s.Names l) Line.instruction where
  keep hle := fun h l hl => hle.names (h l hl)
  run := by
    intro line s i s' _ h
    unfold Line.instruction at h
    simp only [run_bind_eq_ok_iff, run_pure_eq_ok_iff] at h
    obtain ⟨made, s₀, hmade, stored, s₁, hstored, labels, s₂, hlabels, rfl, rfl⟩ := h
    have hpair : (Instruction.ofOpcode line.opcode, s) = (.ok made, s₀) := hmade
    obtain ⟨hmade', rfl⟩ := Prod.mk.inj hpair
    -- nothing is named before the value is stored
    have hstored' : Scope.Grows s s₁ ∧ ∀ l ∈ stored.mentions, s₁.Names l := by
      cases hvalue : line.value? with
      | none =>
        rw [hvalue] at hstored
        cases hstored
        rw [Instruction.mentions_ofOpcode hmade']
        exact ⟨Scope.growth.refl s, nofun⟩
      | some v =>
        rw [hvalue] at hstored
        obtain ⟨hle, hnames⟩ := names_store hstored
        refine ⟨hle, fun l hl => ?_⟩
        rcases hnames l hl with hl | hl
        · rw [Instruction.mentions_ofOpcode hmade'] at hl
          cases hl
        · exact hl
    obtain ⟨hle₁, hnames₁⟩ := hstored'
    obtain ⟨hle₂, hnames₂⟩ := Scope.step_label.mapM.run line.labels s₁
    rw [run_lift_eq_ok_iff.1 hlabels] at hle₂ hnames₂
    refine ⟨Scope.growth.trans hle₁ hle₂, fun l hl => ?_⟩
    rw [Instruction.mentions_foldl_withMarker] at hl
    rcases Instruction.mem_mentions_foldl_withLabel hl with hl | hl
    · obtain ⟨_, -, hnamed⟩ := exists_of_mem_right hnames₂ hl
      exact hnamed
    · exact hle₂.names (hnames₁ l hl)

/-- The labels of instructions that are written down with names have names. -/
theorem names_instructions {lines : List Line} {code : List Instruction}
    (h : (instructions lines).run s = (.ok code, s')) :
    Scope.Grows s s' ∧ ∀ l ∈ mentioned code, s'.Names l := by
  obtain ⟨hle, hnames⟩ := tryStep_line.mapM.run (fun _ _ => trivial) h
  refine ⟨hle, fun l hl => ?_⟩
  obtain ⟨i, hi, hl⟩ := List.mem_flatMap.1 hl
  obtain ⟨_, -, hnamed⟩ := exists_of_mem_right hnames hi
  exact hnamed l hl

end Script

/-! ### Edits -/

namespace Edit

variable {α : Type} {s s' : State}

theorem withNames_eq_ok_iff {build : ExceptT InstructionError (StateM Script.Scope) α} {a : α} :
    (withNames build).run s = (.ok a, s') ↔
      ∃ names, build.run s.names = (.ok a, names) ∧ s' = { s with names := names } := by
  unfold withNames
  rw [run_bind, show (get : EditM State).run s = (.ok s, s) from rfl]
  simp only
  obtain ⟨e | b, names⟩ := build.run s.names
  · constructor
    · intro h
      cases h
    · rintro ⟨_, h, -⟩
      cases h
  · constructor
    · intro h
      cases h
      exact ⟨names, rfl, rfl⟩
    · rintro ⟨_, h, rfl⟩
      cases h
      rfl

theorem labelOf_eq_ok_iff {name : String} {l : Label} :
    (labelOf name).run s = (.ok l, s') ↔
      ∃ names, Script.Scope.label name s.names = (l, names) ∧ s' = { s with names := names } := by
  have hrun : (labelOf name).run s = (.ok (Script.Scope.label name s.names).1,
    { s with names := (Script.Scope.label name s.names).2 }) := rfl
  rw [hrun]
  constructor
  · intro h
    cases h
    exact ⟨_, rfl, rfl⟩
  · rintro ⟨names, h, rfl⟩
    rw [h]

theorem onLowering_eq_ok_iff {action : StateM Lowering α} {a : α} :
    (onLowering action).run s = (.ok a, s') ↔ ∃ lowering,
      action s.context.lowering = (a, lowering) ∧ s' = { s with context.lowering := lowering } := by
  have hrun : (onLowering action).run s = (.ok (action s.context.lowering).1,
    { s with context.lowering := (action s.context.lowering).2 }) := rfl
  rw [hrun]
  constructor
  · intro h
    cases h
    exact ⟨_, rfl, rfl⟩
  · rintro ⟨lowering, h, rfl⟩
    rw [h]

theorem instructionAt_eq_ok_iff {place : Int} {p : Nat} {i : Instruction} :
    (instructionAt place).run s = (.ok (p, i), s') ↔
      p = position s.code.length place ∧ s.code[p]? = some i ∧ s' = s := by
  unfold instructionAt
  rw [run_bind, show (get : EditM State).run s = (.ok s, s) from rfl]
  simp only
  cases hget : s.code[position s.code.length place]? with
  | none =>
    constructor
    · intro h
      cases h
    · rintro ⟨rfl, h, -⟩
      rw [hget] at h
      cases h
  | some k =>
    constructor
    · intro h
      cases h
      exact ⟨rfl, hget, rfl⟩
    · rintro ⟨rfl, h, rfl⟩
      cases hget.symm.trans h
      rfl

/-- A change at a place changes the instruction there and then puts it back. -/
theorem changeAt_eq_ok_iff {place : Int} {change : Instruction → EditM Instruction} :
    (changeAt place change).run s = (.ok (), s') ↔
      ∃ p i j s₁, p = position s.code.length place ∧ s.code[p]? = some i ∧
        (change i).run s = (.ok j, s₁) ∧ s' = { s₁ with code := s₁.code.set p j } := by
  unfold changeAt
  rw [run_bind_eq_ok_iff]
  constructor
  · rintro ⟨⟨p, i⟩, _, hget, h⟩
    obtain ⟨rfl, hget, rfl⟩ := instructionAt_eq_ok_iff.1 hget
    obtain ⟨j, s₁, hchange, h⟩ := run_bind_eq_ok_iff.1 h
    cases h
    exact ⟨_, i, j, s₁, rfl, hget, hchange, rfl⟩
  · rintro ⟨p, i, j, s₁, rfl, hget, hchange, rfl⟩
    refine ⟨_, s, instructionAt_eq_ok_iff.2 ⟨rfl, hget, rfl⟩, ?_⟩
    exact run_bind_eq_ok_iff.2 ⟨j, s₁, hchange, rfl⟩

/-! ### What a script owns -/

/-- What the edits of a script keep: in the code and under names there are only labels of a list and
free labels, and the pass has only been asked for something. -/
structure State.Owns (ls : List Label) (pass : Lowering) (s : State) : Prop where
  code : ∀ l ∈ mentioned s.code, l ∈ ls ∨ l.fixed? = none
  names : ∀ {l}, s.names.Names l → l ∈ ls ∨ l.fixed? = none
  draws : pass.Draws s.context.lowering

variable {ls : List Label} {pass : Lowering}

theorem State.Owns.mentions (h : s.Owns ls pass) {i : Instruction} (hi : i ∈ s.code) :
    ∀ l ∈ i.mentions, l ∈ ls ∨ l.fixed? = none :=
  fun l hl => h.code l (List.mem_flatMap.2 ⟨i, hi, hl⟩)

/-- Other code that has no other labels. -/
theorem State.Owns.recode (h : s.Owns ls pass) {code : List Instruction}
    (hcode : ∀ i ∈ code, i ∈ s.code ∨ ∀ l ∈ i.mentions, l ∈ ls ∨ l.fixed? = none) :
    State.Owns ls pass { s with code := code } where
  code := by
    intro l hl
    obtain ⟨i, hi, hl⟩ := List.mem_flatMap.1 hl
    rcases hcode i hi with hi | hi
    · exact h.mentions hi l hl
    · exact hi l hl
  names := h.names
  draws := h.draws

theorem State.Owns.rename (h : s.Owns ls pass) {names : Script.Scope}
    (hgrows : s.names.Grows names) : State.Owns ls pass { s with names := names } where
  code := h.code
  names := by
    intro l hl
    rcases hgrows.free hl with hl | hfree
    · exact h.names hl
    · exact Or.inr hfree
  draws := h.draws

theorem State.Owns.redraw (h : s.Owns ls pass) {lowering : Lowering}
    (hdraws : s.context.lowering.Draws lowering) :
    State.Owns ls pass { s with context.lowering := lowering } where
  code := h.code
  names := h.names
  draws := h.draws.trans hdraws

/-- An instruction put in the place of another. -/
theorem State.Owns.put (h : s.Owns ls pass) {i : Instruction}
    (hi : ∀ l ∈ i.mentions, l ∈ ls ∨ l.fixed? = none) (p : Nat) :
    State.Owns ls pass { s with code := s.code.set p i } := by
  refine h.recode fun k hk => ?_
  rcases List.mem_or_eq_of_mem_set hk with hk | rfl
  · exact Or.inl hk
  · exact Or.inr hi

/-- Instructions put between a front part and a back part of the code. -/
theorem State.Owns.splice (h : s.Owns ls pass) (p q : Nat) {code : List Instruction}
    (hcode : ∀ i ∈ code, ∀ l ∈ i.mentions, l ∈ ls ∨ l.fixed? = none) :
    State.Owns ls pass { s with code := s.code.take p ++ (code ++ s.code.drop q) } := by
  refine h.recode fun i hi => ?_
  rcases List.mem_append.1 hi with hi | hi
  · exact Or.inl (List.mem_of_mem_take hi)
  · rcases List.mem_append.1 hi with hi | hi
    · exact Or.inr (hcode i hi)
    · exact Or.inl (List.mem_of_mem_drop hi)

/-- A change at a place that gives names and leaves the code as it is. -/
theorem State.Owns.changeAt (h : s.Owns ls pass) {place : Int}
    {change : Instruction → EditM Instruction}
    (hchange : ∀ {i j s₁}, (change i).run s = (.ok j, s₁) →
      ∃ names, s₁ = { s with names := names } ∧ s.names.Grows names ∧
        ∀ l ∈ j.mentions, l ∈ i.mentions ∨ names.Names l)
    (hrun : (Edit.changeAt place change).run s = (.ok (), s')) : s'.Owns ls pass := by
  obtain ⟨p, i, j, s₁, -, hget, hchanged, rfl⟩ := changeAt_eq_ok_iff.1 hrun
  obtain ⟨names, rfl, hgrows, hj⟩ := hchange hchanged
  refine (h.rename hgrows).put (fun l hl => ?_) p
  rcases hj l hl with hl | hl
  · exact h.mentions (List.mem_of_getElem? hget) l hl
  · exact (h.rename hgrows).names hl

/-- A change that gives no names and mentions nothing new. -/
theorem State.Owns.changeAt_pure (h : s.Owns ls pass) {place : Int}
    {f : Instruction → Instruction} (hf : ∀ i, ∀ l ∈ (f i).mentions, l ∈ i.mentions)
    (hrun : (Edit.changeAt place fun i => pure (f i)).run s = (.ok (), s')) : s'.Owns ls pass := by
  refine h.changeAt (fun hchange => ?_) hrun
  obtain ⟨rfl, rfl⟩ := run_pure_eq_ok_iff.1 hchange
  exact ⟨_, rfl, Script.Scope.growth.refl _, fun l hl => Or.inl (hf _ l hl)⟩

/-- Labels moved from one instruction to another. -/
theorem State.Owns.moveLabels (h : s.Owns ls pass) {place target : Int}
    (hrun : (Edit.perform (.moveLabels place target)).run s = (.ok (), s')) : s'.Owns ls pass := by
  rw [Edit.perform] at hrun
  obtain ⟨_, _, hget, hrun⟩ := run_bind_eq_ok_iff.1 hrun
  cases hget
  simp only at hrun
  split at hrun
  · next i _ hi _ =>
    obtain ⟨_, s₁, hput, hrun⟩ := run_bind_eq_ok_iff.1 hrun
    cases hput
    have hi := h.mentions (List.mem_of_getElem? hi)
    -- the labels that are moved are those of the code before they were taken off
    have htaken := h.put (i := { i with labels := [] })
      (fun l hl => hi l (List.mem_append_right _ hl)) (position s.code.length place)
    obtain ⟨p, j, _, _, -, hget, hchanged, rfl⟩ := changeAt_eq_ok_iff.1 hrun
    obtain ⟨rfl, rfl⟩ := run_pure_eq_ok_iff.1 hchanged
    refine htaken.put (fun l hl => ?_) p
    rcases Instruction.mem_mentions_foldl_withLabel hl with hl | hl
    · exact hi l (List.mem_append_left _ hl)
    · exact htaken.mentions (List.mem_of_getElem? hget) l hl
  · cases hrun

/-- A name for the target of a jump. -/
theorem State.Owns.nameTarget (h : s.Owns ls pass) {place : Int} {name : String}
    (hrun : (Edit.perform (.nameTarget place name)).run s = (.ok (), s')) : s'.Owns ls pass := by
  rw [Edit.perform] at hrun
  obtain ⟨⟨p, i⟩, _, hat, hnamed⟩ := run_bind_eq_ok_iff.1 hrun
  obtain ⟨-, hget, rfl⟩ := instructionAt_eq_ok_iff.1 hat
  simp only at hnamed
  split at hnamed
  · next l hl =>
    cases hnamed
    refine ⟨h.code, ?_, h.draws⟩
    rintro k ⟨name', hk⟩
    rcases List.mem_cons.1 hk with heq | hk
    · cases heq
      refine h.mentions (List.mem_of_getElem? hget) l (List.mem_append_right _ ?_)
      exact Operand.mem_targets_of_label? hl
    · exact h.names ⟨name', hk⟩
  · cases hnamed
    exact h

/-- Does the edit bind a name to a native label? -/
def binds : Edit → Bool
  | .bind _ _ => true
  | _ => false

/-- **An edit that does not bind a name puts in no labels but its own.** -/
theorem State.Owns.perform {edit : Edit} (h : s.Owns ls pass) (hedit : edit.binds = false)
    (hrun : (perform edit).run s = (.ok (), s')) : s'.Owns ls pass := by
  -- an edit touches the code, the names or the pass, and each touch keeps the labels owned
  cases edit with
  | insert place code =>
    obtain ⟨new, s₁, hnew, hmodify⟩ := run_bind_eq_ok_iff.1 hrun
    obtain ⟨names, hbuild, rfl⟩ := withNames_eq_ok_iff.1 hnew
    cases hmodify
    -- what is put in mentions labels of names only
    obtain ⟨hgrows, hnames⟩ := Script.names_instructions hbuild
    have hnamed := h.rename hgrows
    simp only [List.append_assoc]
    refine hnamed.splice _ _ fun i hi l hl => hnamed.names (hnames l ?_)
    exact List.mem_flatMap.2 ⟨i, hi, hl⟩
  | remove place count =>
    cases hrun
    exact h.splice _ _ (List.forall_mem_nil _)
  | duplicate place =>
    obtain ⟨⟨p, i⟩, _, hget, hmodify⟩ := run_bind_eq_ok_iff.1 hrun
    obtain ⟨-, hget, rfl⟩ := instructionAt_eq_ok_iff.1 hget
    cases hmodify
    -- the copy stands in the code already
    exact h.splice _ _ (List.forall_mem_singleton.2 (h.mentions (List.mem_of_getElem? hget)))
  | set place value =>
    rw [Edit.perform] at hrun
    refine h.changeAt (fun hchange => ?_) hrun
    obtain ⟨names, hstore, rfl⟩ := withNames_eq_ok_iff.1 hchange
    exact ⟨names, rfl, Script.names_store hstore⟩
  | copy place opcode =>
    rw [Edit.perform] at hrun
    refine h.changeAt (fun {i j s₁} hchange => ?_) hrun
    obtain ⟨names, hcopy, rfl⟩ := withNames_eq_ok_iff.1 hchange
    -- nothing is named on the way
    have hpair : (i.copyWith opcode, s.names) = (.ok j, names) := hcopy
    obtain ⟨hcopied, rfl⟩ := Prod.mk.inj hpair
    exact ⟨_, rfl, Script.Scope.growth.refl _,
      fun l hl => Or.inl (Instruction.mem_mentions_of_copyWith hcopied hl)⟩
  | replaceConstant source target =>
    cases hrun
    refine h.recode fun i hi => ?_
    obtain ⟨k, hk, rfl⟩ := List.mem_map.1 hi
    unfold replacedConstant
    split
    · -- a constant that is put in has no targets, so the marks are all that is mentioned
      refine Or.inr fun l hl => h.mentions hk l ?_
      rcases List.mem_append.1 hl with hl | hl
      · exact List.mem_append_left _ hl
      · cases hl
    · exact Or.inl hk
  | label place name =>
    rw [Edit.perform] at hrun
    refine h.changeAt (fun hchange => ?_) hrun
    obtain ⟨l, s₁, hlabel, hpure⟩ := run_bind_eq_ok_iff.1 hchange
    obtain ⟨names, hnamed, rfl⟩ := labelOf_eq_ok_iff.1 hlabel
    obtain ⟨rfl, rfl⟩ := run_pure_eq_ok_iff.1 hpure
    obtain ⟨hgrows, hnames⟩ := Script.Scope.step_label.run name s.names
    rw [hnamed] at hgrows hnames
    refine ⟨names, rfl, hgrows, fun k hk => ?_⟩
    -- the label is that of the name, which the scope has now
    rcases Instruction.mem_mentions_withLabel hk with rfl | hk
    · exact Or.inr hnames
    · exact Or.inl hk
  | unlabel place =>
    rw [Edit.perform] at hrun
    refine h.changeAt_pure (fun i l hl => ?_) hrun
    exact List.mem_append_right _ hl
  | moveLabels place target => exact h.moveLabels hrun
  | nameTarget place name => exact h.nameTarget hrun
  | mark place marker =>
    rw [Edit.perform] at hrun
    refine h.changeAt_pure (fun i l hl => ?_) hrun
    exact hl
  | unmark place =>
    rw [Edit.perform] at hrun
    refine h.changeAt_pure (fun i l hl => ?_) hrun
    exact hl
  | declareLocal type name =>
    obtain ⟨slot, s₁, hslot, hmodify⟩ := run_bind_eq_ok_iff.1 hrun
    obtain ⟨lowering, hdeclare, rfl⟩ := onLowering_eq_ok_iff.1 hslot
    cases hmodify
    -- the slot is asked of the pass, and its name is no label
    have hdraws := s.context.lowering.draws_declareLocal type
    rw [hdeclare] at hdraws
    exact (h.redraw hdraws).rename ⟨id, Or.inl⟩
  | bind name target => cases hedit
  | resolve name =>
    obtain ⟨l, s₁, hlabel, hresolve⟩ := run_bind_eq_ok_iff.1 hrun
    obtain ⟨names, hnamed, rfl⟩ := labelOf_eq_ok_iff.1 hlabel
    obtain ⟨hgrows, -⟩ := Script.Scope.step_label.run name s.names
    rw [hnamed] at hgrows
    cases hresolve
    -- the name may be new; then its label is resolved by a request
    exact (h.rename hgrows).redraw (.single (.resolve l _))
  | note =>
    cases hrun
    exact ⟨h.code, h.names, h.draws⟩
  | fail message => cases hrun

/-- **Neither do edits one behind the other.** -/
theorem State.Owns.forM {edits : List Edit} (h : s.Owns ls pass)
    (hedits : ∀ edit ∈ edits, edit.binds = false)
    (hrun : (edits.forM Edit.perform).run s = (.ok (), s')) : s'.Owns ls pass := by
  induction edits generalizing s with
  | nil =>
    cases hrun
    exact h
  | cons edit edits ih =>
    obtain ⟨hedit, hrest⟩ := List.forall_mem_cons.1 hedits
    obtain ⟨_, s₁, hfirst, hrun⟩ := run_bind_eq_ok_iff.1 hrun
    exact ih (h.perform hedit hfirst) hrest hrun

/-- **A script that binds no name uses labels of its own only.** -/
theorem usesOwnLabels (name : String) {edits : List Edit}
    (hedits : ∀ edit ∈ edits, edit.binds = false) :
    (transpiler name edits).UsesOwnLabels := by
  intro code code' c c' hrun
  obtain ⟨_, _, hget, hrun⟩ := run_bind_eq_ok_iff.1 hrun
  cases hget
  simp only at hrun
  generalize hall : (edits.forM Edit.perform).run
    { code := code, names := { supply := c.supply }, context := c } = outcome at hrun
  obtain ⟨result, s⟩ := outcome
  obtain ⟨_, _, hmodify, hrun⟩ := run_bind_eq_ok_iff.1 hrun
  cases hmodify
  cases result with
  | error e => cases hrun
  | ok _ =>
    cases hrun
    -- a script begins with the labels of the code and no names
    have hbegin : State.Owns (mentioned code) c.lowering
        { code := code, names := { supply := c.supply }, context := c } :=
      { code := fun l hl => Or.inl hl
        names := fun ⟨_, hl⟩ => absurd hl List.not_mem_nil
        draws := .refl }
    have howns := hbegin.forM hedits hall
    exact ⟨howns.code, howns.draws⟩

end Edit

end MethodWeave
