import MethodWeave.Instruction.Label
/-!
What labels resolve to over all the calls to a pass.

A pass resolves labels, lets them be bound to any native label, declares locals, and its generator
hands out native labels besides.  What one call does is said once, in `Lowering.Performs`.  Labels
that were never bound have native labels of their own, which nobody else was given
(`Lowering.Tracks`, kept by `Tracks.events`).

Main result: `Lowering.labelLaws_events`, the laws of `Lowering.LabelLaws` hold of every run of
calls that name labels of one supply.
-/

namespace MethodWeave

/-! ### Labels of one supply -/

namespace LabelSupply

/-- Labels made one behind the other: a label that is fixed to what is wanted, or a free one. -/
def make : List (Option NativeLabel) → LabelSupply → List Label × LabelSupply
  | [], s => ([], s)
  | wanted? :: rest, s =>
    let (l, s) :=
      match wanted? with
      | some target => s.fixed target
      | none => s.free
    let (ls, s) := make rest s
    (l :: ls, s)

theorem make_cons (wanted? : Option NativeLabel) (rest : List (Option NativeLabel))
    (s : LabelSupply) :
    (s.make (wanted? :: rest)).1 = ⟨s.next, wanted?⟩ :: (LabelSupply.make rest ⟨s.next + 1⟩).1 := by
  cases wanted? <;> rfl

theorem next_le_of_mem_make {wanted : List (Option NativeLabel)} {s : LabelSupply} {l : Label}
    (h : l ∈ (s.make wanted).1) : s.next ≤ l.id := by
  induction wanted generalizing s with
  | nil => cases h
  | cons wanted? rest ih =>
    rw [make_cons] at h
    rcases List.mem_cons.1 h with rfl | h
    · exact Nat.le_refl _
    · exact Nat.le_of_succ_le (ih h)

/-- Labels of one supply are told apart by their numbers. -/
theorem eq_of_mem_make {wanted : List (Option NativeLabel)} {s : LabelSupply} {l l' : Label}
    (hl : l ∈ (s.make wanted).1) (hl' : l' ∈ (s.make wanted).1) (hid : l.id = l'.id) : l = l' := by
  induction wanted generalizing s with
  | nil => cases hl
  | cons wanted? rest ih =>
    rw [make_cons] at hl hl'
    rcases List.mem_cons.1 hl with rfl | hl <;> rcases List.mem_cons.1 hl' with rfl | hl'
    · rfl
    · exact absurd (hid ▸ next_le_of_mem_make hl') (Nat.not_succ_le_self _)
    · exact absurd (hid.symm ▸ next_le_of_mem_make hl) (Nat.not_succ_le_self _)
    · exact ih hl hl'

end LabelSupply

/-- Labels handed out one behind the other are older than the next one. -/
theorem Generator.lt_of_mem_defineLabels {count : Nat} {g : Generator} {t : NativeLabel}
    (h : t ∈ (g.defineLabels count).1) : t.number < (g.defineLabels count).2.nextLabel := by
  have hle (count : Nat) (g : Generator) : g.nextLabel ≤ (g.defineLabels count).2.nextLabel := by
    induction count generalizing g with
    | zero => exact Nat.le_refl _
    | succ count ih => exact Nat.le_of_succ_le (ih g.defineLabel.2)
  induction count generalizing g with
  | zero => cases h
  | succ count ih =>
    rcases List.mem_cons.1 h with rfl | h
    · exact hle count g.defineLabel.2
    · exact ih h

namespace Lowering

/-! ### Calls -/

/-- A call to a pass, or to its generator behind its back. -/
inductive Call where
  | resolve (l : Label)
  | bind (l : Label) (target : NativeLabel)
  | declareLocal (type : TypeRef)
  | defineLabel

/-- A call that was made, with what it gave. -/
inductive Event where
  | resolved (l : Label) (target : NativeLabel)
  | bound (l : Label) (target : NativeLabel)
  | declared (slot : Local)
  | defined (target : NativeLabel)

/-- The label that a call is about. -/
def Call.label? : Call → Option Label
  | .resolve l | .bind l _ => some l
  | .declareLocal _ | .defineLabel => none

/-- The label that a call was about. -/
def Event.label? : Event → Option Label
  | .resolved l _ | .bound l _ => some l
  | .declared _ | .defined _ => none

/-- Make a call. -/
def perform (s : Lowering) : Call → Event × Lowering
  | .resolve l =>
    let (target, s) := s.resolve l
    (.resolved l target, s)
  | .bind l target => (.bound l target, s.bind l target)
  | .declareLocal type =>
    let (slot, s) := s.declareLocal type
    (.declared slot, s)
  | .defineLabel =>
    let (target, s) := s.defineLabel
    (.defined target, s)

/-- Make calls one behind the other. -/
def events : List Call → Lowering → List Event × Lowering
  | [], s => ([], s)
  | call :: rest, s =>
    let (event, s) := s.perform call
    let (later, s) := events rest s
    (event :: later, s)

/-! ### One call -/

/-- What a call can do to the pass, and the event that it is. -/
inductive Performs (s s' : Lowering) : Event → Prop
  | fixed {l : Label} {t : NativeLabel} : l.fixed? = some t → s'.targets = s.targets →
      s'.generator.nextLabel = s.generator.nextLabel → Performs s s' (.resolved l t)
  | known {l : Label} {t : NativeLabel} : l.fixed? = none → s.targets.get? l.id = some t →
      s'.targets = s.targets → s'.generator.nextLabel = s.generator.nextLabel →
      Performs s s' (.resolved l t)
  /-- A free label that is met for the first time is given the next native label. -/
  | allotted {l : Label} : l.fixed? = none → s.targets.get? l.id = none →
      s'.targets = s.targets.insert l.id ⟨s.generator.nextLabel⟩ →
      s'.generator.nextLabel = s.generator.nextLabel + 1 →
      Performs s s' (.resolved l ⟨s.generator.nextLabel⟩)
  | bound {l : Label} {t : NativeLabel} : s'.targets = s.targets.insert l.id t →
      s'.generator.nextLabel = s.generator.nextLabel → Performs s s' (.bound l t)
  | declared {slot : Local} : s'.targets = s.targets →
      s'.generator.nextLabel = s.generator.nextLabel → Performs s s' (.declared slot)
  | defined : s'.targets = s.targets → s'.generator.nextLabel = s.generator.nextLabel + 1 →
      Performs s s' (.defined ⟨s.generator.nextLabel⟩)

theorem performs (s : Lowering) (call : Call) :
    s.Performs (s.perform call).2 (s.perform call).1 := by
  cases call with
  | resolve l =>
    cases hfixed : l.fixed? with
    | some t =>
      simp only [perform, resolve_fixed hfixed]
      exact .fixed hfixed rfl rfl
    | none =>
      cases hget : s.targets.get? l.id with
      | some t =>
        simp only [perform, resolve_of_get? hfixed hget]
        exact .known hfixed hget rfl rfl
      | none =>
        simp only [perform, resolve, hfixed, hget]
        exact .allotted hfixed hget rfl rfl
  | bind l t => exact .bound rfl rfl
  | declareLocal type => exact .declared rfl rfl
  | defineLabel => exact .defined rfl rfl

theorem label?_perform (s : Lowering) (call : Call) :
    (s.perform call).1.label? = call.label? := by
  cases call <;> rfl

theorem events_cons (s : Lowering) (call : Call) (calls : List Call) :
    s.events (call :: calls) =
      ((s.perform call).1 :: ((s.perform call).2.events calls).1,
        ((s.perform call).2.events calls).2) := rfl

section

variable {s s' : Lowering} {l : Label} {t u : NativeLabel} {event : Event} {k : Nat}

/-- What a number stands for is kept, unless a label with that number is bound. -/
theorem Performs.kept (h : s.Performs s' event) (hget : s.targets.get? k = some t)
    (hunbound : ∀ l u, event = .bound l u → l.id ≠ k) : s'.targets.get? k = some t := by
  cases h with
  | fixed _ htargets _ | known _ _ htargets _ | declared htargets _ | defined htargets _ =>
    rw [htargets]
    exact hget
  | allotted _ hnone htargets _ =>
    rw [htargets]
    exact KeyMap.get?_insert_of_none hnone hget
  | bound htargets _ =>
    rw [htargets, KeyMap.get?_insert, if_neg (Ne.symm (hunbound _ _ rfl))]
    exact hget

/-- A free label that was resolved is settled. -/
theorem Performs.get?_of_resolved (h : s.Performs s' (.resolved l t)) (hfree : l.fixed? = none) :
    s'.targets.get? l.id = some t := by
  cases h with
  | fixed hfixed _ _ =>
    rw [hfree] at hfixed
    cases hfixed
  | known _ hget htargets _ =>
    rw [htargets]
    exact hget
  | allotted _ _ htargets _ =>
    rw [htargets]
    exact KeyMap.get?_insert_self _ _ _

/-- So is a label that was bound. -/
theorem Performs.get?_of_bound (h : s.Performs s' (.bound l t)) :
    s'.targets.get? l.id = some t := by
  cases h with
  | bound htargets _ =>
    rw [htargets]
    exact KeyMap.get?_insert_self _ _ _

/-- A free label that is settled resolves to what it is settled to. -/
theorem Performs.eq_of_get? (h : s.Performs s' (.resolved l u)) (hfree : l.fixed? = none)
    (hget : s.targets.get? l.id = some t) : u = t := by
  cases h with
  | fixed hfixed _ _ =>
    rw [hfree] at hfixed
    cases hfixed
  | known _ hget' _ _ => exact Option.some.inj (hget'.symm.trans hget)
  | allotted _ hnone _ _ =>
    rw [hnone] at hget
    cases hget

theorem Performs.eq_of_fixed (h : s.Performs s' (.resolved l u)) (hfixed : l.fixed? = some t) :
    u = t := by
  cases h with
  | fixed hfixed' _ _ => exact Option.some.inj (hfixed'.symm.trans hfixed)
  | known hfree _ _ _ | allotted hfree _ _ _ =>
    rw [hfree] at hfixed
    cases hfixed

end

/-! ### Runs of calls -/

/-- No label with the number was bound. -/
def Unbound (past : List Event) (k : Nat) : Prop := ∀ l t, .bound l t ∈ past → l.id ≠ k

section

variable {s : Lowering} {calls : List Call} {k : Nat} {t : NativeLabel}

/-- What stands behind an event of a run are the events of the calls behind it. -/
theorem exists_of_events_eq {before after : List Event} {event : Event}
    (h : (s.events calls).1 = before ++ event :: after) :
    ∃ calls₁ s' calls₂, (s.events calls₁).1 = before ∧
      (s.events calls₁).2.Performs s' event ∧ (s'.events calls₂).1 = after := by
  induction before generalizing s calls with
  | nil =>
    cases calls with
    | nil => cases h
    | cons call calls =>
      rw [events_cons] at h
      obtain ⟨rfl, hafter⟩ := List.cons.inj h
      exact ⟨[], _, calls, rfl, s.performs call, hafter⟩
  | cons first before ih =>
    cases calls with
    | nil => cases h
    | cons call calls =>
      rw [events_cons] at h
      obtain ⟨rfl, hlater⟩ := List.cons.inj h
      obtain ⟨calls₁, s', calls₂, hbefore, hperforms, hafter⟩ := ih hlater
      exact ⟨call :: calls₁, s', calls₂, congrArg _ hbefore, hperforms, hafter⟩

theorem exists_call_of_mem_events {event : Event} (h : event ∈ (s.events calls).1) :
    ∃ call ∈ calls, call.label? = event.label? := by
  induction calls generalizing s with
  | nil => cases h
  | cons call calls ih =>
    rcases List.mem_cons.1 h with rfl | h
    · exact ⟨call, List.mem_cons_self, (s.label?_perform call).symm⟩
    · obtain ⟨call', hcall', hlabel⟩ := ih h
      exact ⟨call', List.mem_cons_of_mem _ hcall', hlabel⟩

/-- A run keeps what a number stands for, unless a label with that number is bound. -/
theorem get?_events (hget : s.targets.get? k = some t) (hunbound : Unbound (s.events calls).1 k) :
    (s.events calls).2.targets.get? k = some t := by
  induction calls generalizing s with
  | nil => exact hget
  | cons call calls ih =>
    refine ih ((s.performs call).kept hget fun l u hbound => ?_) fun l u hbound => ?_
    · exact hunbound l u (hbound ▸ List.mem_cons_self)
    · exact hunbound l u (List.mem_cons_of_mem _ hbound)

/-- What a free label is settled to is what it resolves to, until it is bound. -/
theorem eq_of_events {between after : List Event} {l : Label} {u : NativeLabel}
    (hget : s.targets.get? l.id = some t) (hfree : l.fixed? = none)
    (h : (s.events calls).1 = between ++ .resolved l u :: after)
    (hunbound : Unbound between l.id) : u = t := by
  obtain ⟨calls₁, s', calls₂, rfl, hperforms, -⟩ := exists_of_events_eq h
  exact hperforms.eq_of_get? hfree (get?_events hget hunbound)

end

/-! ### Labels that were never bound -/

/-- What a run keeps, of a pass whose generator began at `n`. -/
structure Tracks (n : Nat) (past : List Event) (s : Lowering) : Prop where
  le : n ≤ s.generator.nextLabel
  defined : ∀ t, .defined t ∈ past → t.number < s.generator.nextLabel
  fixed : ∀ l t u, l.fixed? = some t → .resolved l u ∈ past → u = t
  /-- What a label resolved to that was never bound, it resolves to still. -/
  settled : ∀ l t, l.fixed? = none → Unbound past l.id → .resolved l t ∈ past →
    s.targets.get? l.id = some t
  /-- It is a native label that the generator handed out for it, and for nobody else. -/
  own : ∀ k t, Unbound past k → s.targets.get? k = some t →
    n ≤ t.number ∧ t.number < s.generator.nextLabel ∧ .defined t ∉ past
  injective : ∀ k k' t, Unbound past k → Unbound past k' → s.targets.get? k = some t →
    s.targets.get? k' = some t → k = k'

section

variable {n : Nat} {past : List Event} {s s' : Lowering} {event : Event} {k : Nat}

theorem Unbound.init (h : Unbound (past ++ [event]) k) : Unbound past k :=
  fun l t hbound => h l t (List.mem_append_left _ hbound)

/-- The table of a number that was never bound has grown by one entry at most. -/
theorem Performs.get?_cases (h : s.Performs s' event) (hunbound : Unbound (past ++ [event]) k)
    {t : NativeLabel} (hget : s'.targets.get? k = some t) :
    s.targets.get? k = some t ∨
      t = ⟨s.generator.nextLabel⟩ ∧ (∃ l, l.id = k ∧ event = .resolved l t) ∧
        s'.generator.nextLabel = s.generator.nextLabel + 1 := by
  cases h with
  | fixed _ htargets _ | known _ _ htargets _ | declared htargets _ | defined htargets _ =>
    rw [htargets] at hget
    exact Or.inl hget
  | @allotted l _ _ htargets hnext =>
    rw [htargets, KeyMap.get?_insert] at hget
    split at hget
    · next heq =>
      cases hget
      exact Or.inr ⟨rfl, ⟨l, heq.symm, rfl⟩, hnext⟩
    · exact Or.inl hget
  | @bound l _ htargets _ =>
    rw [htargets, KeyMap.get?_insert,
      if_neg (Ne.symm (hunbound _ _ (List.mem_append_right _ List.mem_cons_self)))] at hget
    exact Or.inl hget

theorem Performs.next_le (h : s.Performs s' event) :
    s.generator.nextLabel ≤ s'.generator.nextLabel := by
  cases h with
  | fixed _ _ hnext | known _ _ _ hnext | bound _ hnext | declared _ hnext =>
    exact Nat.le_of_eq hnext.symm
  | allotted _ _ _ hnext | defined _ hnext => exact hnext ▸ Nat.le_succ _

/-- A label that the generator hands out directly is its next one. -/
theorem Performs.eq_of_defined {t : NativeLabel} (h : s.Performs s' (.defined t)) :
    t = ⟨s.generator.nextLabel⟩ ∧ s'.generator.nextLabel = s.generator.nextLabel + 1 := by
  cases h with
  | defined _ hnext => exact ⟨rfl, hnext⟩

/-- **One call.** -/
theorem Tracks.step (h : s.Tracks n past) (hperforms : s.Performs s' event) :
    s'.Tracks n (past ++ [event]) where
  le := Nat.le_trans h.le hperforms.next_le
  defined := by
    intro t ht
    rcases List.mem_append.1 ht with ht | ht
    · exact Nat.lt_of_lt_of_le (h.defined t ht) hperforms.next_le
    · obtain rfl := List.mem_singleton.1 ht
      obtain ⟨rfl, hnext⟩ := hperforms.eq_of_defined
      rw [hnext]
      exact Nat.lt_succ_self _
  fixed := by
    intro l t u hfixed hu
    rcases List.mem_append.1 hu with hu | hu
    · exact h.fixed l t u hfixed hu
    · obtain rfl := List.mem_singleton.1 hu
      exact hperforms.eq_of_fixed hfixed
  settled := by
    -- an earlier answer is kept unless the call binds the label, which no call does
    intro l t hfree hunbound ht
    rcases List.mem_append.1 ht with ht | ht
    · refine hperforms.kept (h.settled l t hfree hunbound.init ht) fun l' u hbound => ?_
      exact hunbound l' u (List.mem_append_right _ (hbound ▸ List.mem_cons_self))
    · obtain rfl := List.mem_singleton.1 ht
      exact hperforms.get?_of_resolved hfree
  own := by
    -- an entry is an old one, or holds the native label that the call has handed out
    intro k t hunbound hget
    rcases hperforms.get?_cases hunbound hget with hget | ⟨rfl, ⟨l, -, rfl⟩, hnext⟩
    · obtain ⟨hle, hlt, hdefined⟩ := h.own k t hunbound.init hget
      refine ⟨hle, Nat.lt_of_lt_of_le hlt hperforms.next_le, fun ht => ?_⟩
      rcases List.mem_append.1 ht with ht | ht
      · exact hdefined ht
      · obtain rfl := List.mem_singleton.1 ht
        obtain ⟨rfl, -⟩ := hperforms.eq_of_defined
        exact Nat.lt_irrefl _ hlt
    · refine ⟨h.le, hnext ▸ Nat.lt_succ_self _, fun ht => ?_⟩
      rcases List.mem_append.1 ht with ht | ht
      · exact Nat.lt_irrefl _ (h.defined _ ht)
      · cases List.mem_singleton.1 ht
  injective := by
    intro k k' t hunbound hunbound' hget hget'
    -- a new entry has a native label that no old entry has
    rcases hperforms.get?_cases hunbound hget with hold | ⟨ht, ⟨l, hl, hevent⟩, -⟩ <;>
      rcases hperforms.get?_cases hunbound' hget' with hold' | ⟨ht', ⟨l', hl', hevent'⟩, -⟩
    · exact h.injective k k' t hunbound.init hunbound'.init hold hold'
    · obtain ⟨-, hlt, -⟩ := h.own k t hunbound.init hold
      exact absurd hlt (ht' ▸ Nat.lt_irrefl _)
    · obtain ⟨-, hlt, -⟩ := h.own k' t hunbound'.init hold'
      exact absurd hlt (ht ▸ Nat.lt_irrefl _)
    · rw [hevent] at hevent'
      cases hevent'
      exact hl.symm.trans hl'

/-- **A run of calls.** -/
theorem Tracks.events (h : s.Tracks n past) (calls : List Call) :
    (s.events calls).2.Tracks n (past ++ (s.events calls).1) := by
  induction calls generalizing s past with
  | nil =>
    rw [Lowering.events, List.append_nil]
    exact h
  | cons call calls ih =>
    have hrest := ih (h.step (s.performs call))
    rw [List.append_assoc] at hrest
    exact hrest

theorem tracks_begin (g : Generator) (level : Level) (log : Log) :
    Tracks g.nextLabel [] { generator := g, level := level, log := log } where
  le := Nat.le_refl _
  defined := nofun
  fixed := nofun
  settled := nofun
  own := nofun
  injective := nofun

end

/-! ### The laws -/

/-- The laws of labels in a run of calls to a pass that began when the generator had handed out the
labels `early`. -/
structure LabelLaws (early : List NativeLabel) (run : List Event) : Prop where
  /-- A fixed label resolves to its own target, whatever is bound. -/
  fixed : ∀ l t u, l.fixed? = some t → .resolved l u ∈ run → u = t
  /-- A free label resolves to the same target as before, if it was not bound in between. -/
  steady : ∀ before between after l t u, l.fixed? = none →
    run = before ++ .resolved l t :: (between ++ .resolved l u :: after) →
    (∀ v, .bound l v ∉ between) → u = t
  /-- Behind a bind it resolves to the target that it was bound to, until it is bound again. -/
  bound : ∀ before between after l t u, l.fixed? = none →
    run = before ++ .bound l t :: (between ++ .resolved l u :: after) →
    (∀ v, .bound l v ∉ between) → u = t
  /-- Free labels that were never bound have different targets. -/
  apart : ∀ l l' t t', l.fixed? = none → l'.fixed? = none → l ≠ l' → (∀ v, .bound l v ∉ run) →
    (∀ v, .bound l' v ∉ run) → .resolved l t ∈ run → .resolved l' t' ∈ run → t ≠ t'
  /-- And none that the generator handed out directly, at whatever time. -/
  reserved : ∀ l t, l.fixed? = none → (∀ v, .bound l v ∉ run) → .resolved l t ∈ run →
    .defined t ∉ run ∧ t ∉ early

section

variable {s : Lowering} {calls : List Call} {labels : List Label} {l : Label}

theorem mem_of_mem_events {event : Event}
    (hmade : ∀ call ∈ calls, ∀ l, call.label? = some l → l ∈ labels)
    (hevent : event ∈ (s.events calls).1) (hl : event.label? = some l) : l ∈ labels := by
  obtain ⟨call, hcall, hsame⟩ := exists_call_of_mem_events hevent
  exact hmade call hcall l (hsame.trans hl)

/-- If labels are told apart by their numbers, one that was not bound is one whose number was not
bound. -/
theorem unbound_of_notMem (hmade : ∀ call ∈ calls, ∀ l, call.label? = some l → l ∈ labels)
    (hid : ∀ l' ∈ labels, l'.id = l.id → l' = l) {part : List Event}
    (hpart : ∀ e ∈ part, e ∈ (s.events calls).1) (hnot : ∀ v, .bound l v ∉ part) :
    Unbound part l.id := by
  intro l' v hbound heq
  obtain rfl := hid l' (mem_of_mem_events hmade (hpart _ hbound) rfl) heq
  exact hnot v hbound

/-- What a free label is settled to by a call it resolves to, until it is bound. -/
theorem eq_of_settled {before between after : List Event} {event : Event} {t u : NativeLabel}
    (hrun : (s.events calls).1 = before ++ event :: (between ++ .resolved l u :: after))
    (hfree : l.fixed? = none)
    (hsettles : ∀ {s₁ s' : Lowering}, s₁.Performs s' event → s'.targets.get? l.id = some t)
    (hunbound : (∀ e ∈ between, e ∈ (s.events calls).1) → Unbound between l.id) : u = t := by
  obtain ⟨calls₁, s', calls₂, -, hperforms, hrest⟩ := exists_of_events_eq hrun
  refine eq_of_events (hsettles hperforms) hfree hrest (hunbound fun e he => ?_)
  rw [hrun]
  exact List.mem_append_right _ (List.mem_cons_of_mem _ (List.mem_append_left _ he))

end

/-- **Labels keep their laws.**  Let a generator hand out some labels, and let a pass begin on it.
Whatever calls are made to the pass and to its generator, about labels of one supply, free ones and
fixed ones, fixed labels resolve to their own targets, free labels to what they resolved to before
or were bound to, and free labels that are never bound have targets of their own. -/
theorem labelLaws_events {supply : LabelSupply} {wanted : List (Option NativeLabel)} (g : Generator)
    (early : Nat) (level : Level) (log : Log) {calls : List Call}
    (hmade : ∀ call ∈ calls, ∀ l, call.label? = some l → l ∈ (supply.make wanted).1) :
    LabelLaws (g.defineLabels early).1
      (Lowering.events calls
        { generator := (g.defineLabels early).2, level := level, log := log }).1 := by
  have htracks := (tracks_begin (g.defineLabels early).2 level log).events calls
  rw [List.nil_append] at htracks
  -- nothing else of the pass at its beginning matters
  generalize { generator := (g.defineLabels early).2, level := level, log := log : Lowering } = s
    at htracks ⊢
  have hunbound {part : List Event} {l : Label} (hl : l ∈ (supply.make wanted).1)
      (hnot : ∀ v, .bound l v ∉ part) (hpart : ∀ e ∈ part, e ∈ (s.events calls).1) :
      Unbound part l.id :=
    unbound_of_notMem hmade (fun _ hl' => LabelSupply.eq_of_mem_make hl' hl) hpart hnot
  refine ⟨htracks.fixed, ?steady, ?bound, ?apart, ?reserved⟩
  case steady =>
    intro before between after l t u hfree hrun hnot
    have hl : l ∈ (supply.make wanted).1 :=
      mem_of_mem_events hmade (hrun ▸ List.mem_append_right _ List.mem_cons_self) rfl
    exact eq_of_settled hrun hfree (fun hperforms => hperforms.get?_of_resolved hfree)
      (hunbound hl hnot)
  case bound =>
    intro before between after l t u hfree hrun hnot
    have hl : l ∈ (supply.make wanted).1 :=
      mem_of_mem_events hmade (hrun ▸ List.mem_append_right _ List.mem_cons_self) rfl
    exact eq_of_settled hrun hfree (fun hperforms => hperforms.get?_of_bound) (hunbound hl hnot)
  case apart =>
    intro l l' t t' hfree hfree' hne hnot hnot' ht ht' heq
    have hl := mem_of_mem_events hmade ht rfl
    have hl' := mem_of_mem_events hmade ht' rfl
    have hub := hunbound hl hnot fun _ he => he
    have hub' := hunbound hl' hnot' fun _ he => he
    have hid := htracks.injective l.id l'.id t hub hub' (htracks.settled l t hfree hub ht)
      (heq ▸ htracks.settled l' t' hfree' hub' ht')
    exact hne (LabelSupply.eq_of_mem_make hl hl' hid)
  case reserved =>
    intro l t hfree hnot ht
    have hub := hunbound (mem_of_mem_events hmade ht rfl) hnot fun _ he => he
    obtain ⟨hle, -, hdefined⟩ := htracks.own l.id t hub (htracks.settled l t hfree hub ht)
    exact ⟨hdefined, fun hearly => Nat.not_lt.2 hle (Generator.lt_of_mem_defineLabels hearly)⟩

/-- Three free labels and one that is fixed to the first label of the pass. -/
def fourLabels : List Label := (({} : LabelSupply).make [none, none, some ⟨2⟩, none]).1

/-- Labels are resolved, defined and bound in turn; the fixed one is bound too. -/
def interleaved : List Call :=
  [.resolve ⟨0, none⟩, .defineLabel, .resolve ⟨1, none⟩, .bind ⟨2, some ⟨2⟩⟩ ⟨9⟩, .bind ⟨0, none⟩ ⟨3⟩,
    .resolve ⟨2, some ⟨2⟩⟩, .resolve ⟨0, none⟩, .bind ⟨3, none⟩ ⟨4⟩, .resolve ⟨3, none⟩,
    .resolve ⟨1, none⟩]

theorem labelLaws_interleaved :
    (∀ call ∈ interleaved, ∀ l, call.label? = some l → l ∈ fourLabels) ∧
      (Lowering.events interleaved { generator := (Generator.defineLabels 2 {}).2 }).1 =
        [.resolved ⟨0, none⟩ ⟨2⟩, .defined ⟨3⟩, .resolved ⟨1, none⟩ ⟨4⟩,
          .bound ⟨2, some ⟨2⟩⟩ ⟨9⟩, .bound ⟨0, none⟩ ⟨3⟩, .resolved ⟨2, some ⟨2⟩⟩ ⟨2⟩,
          .resolved ⟨0, none⟩ ⟨3⟩, .bound ⟨3, none⟩ ⟨4⟩, .resolved ⟨3, none⟩ ⟨4⟩,
          .resolved ⟨1, none⟩ ⟨4⟩] ∧
      LabelLaws [⟨0⟩, ⟨1⟩]
        (Lowering.events interleaved { generator := (Generator.defineLabels 2 {}).2 }).1 := by
  have hmade : ∀ call ∈ interleaved, ∀ l, call.label? = some l → l ∈ fourLabels := by
    simp [interleaved, fourLabels, Call.label?, LabelSupply.make, LabelSupply.free,
      LabelSupply.fixed]
  exact ⟨hmade, rfl, labelLaws_events {} 2 .debug {} hmade⟩

end Lowering

end MethodWeave
