import MethodWeave.Proofs.Host.Nesting
import MethodWeave.Proofs.Instruction.Counting
import MethodWeave.Proofs.Instruction.Landing
/-!
Executions that never lose their way.

A step that jumps goes to a label of its operand, and in a program that was read from a body all
these labels have places.  So no frame ends at a label that marks nothing (`endsIn_loop`), and by
induction on the room for nested frames no call does, unless a native method answers so itself
(`endsIn_invokeWithin`).

Main result: `jumps_land`.
-/

namespace MethodWeave

variable {α β : Type}

/-- The execution did not end at a jump to a label that marks nothing. -/
def Halt.OnTarget (h : Halt) : Prop := ∀ r l, h ≠ .failed (.invalidTarget r l)

/-! ### Ends of executions -/

/-- However it is begun, the execution ends with a result in `R` or for a reason in `P`. -/
def EndsIn (P : Halt → Prop) (R : α → Prop) (x : ExecM α) : Prop :=
  ∀ t : Trace, (∀ h, (x.run t).1 = .error h → P h) ∧ ∀ a, (x.run t).1 = .ok a → R a

section

variable {P : Halt → Prop} {R : α → Prop} {S : β → Prop}

theorem endsIn_pure {a : α} (h : R a) : EndsIn P R (pure a) :=
  fun _ => ⟨nofun, fun _ heq => Except.ok.inj heq ▸ h⟩

theorem endsIn_throw {h : Halt} (hP : P h) : EndsIn P R (throw h : ExecM α) :=
  fun _ => ⟨fun _ heq => Except.error.inj heq ▸ hP, nofun⟩

theorem endsIn_modify (F : Trace → Trace) : EndsIn P (fun _ => True) (modify F : ExecM Unit) :=
  fun _ => ⟨nofun, fun _ _ => trivial⟩

theorem EndsIn.bind {x : ExecM α} {f : α → ExecM β} (hx : EndsIn P R x)
    (hf : ∀ a, R a → EndsIn P S (f a)) : EndsIn P S (x >>= f) := by
  intro t
  have hfirst := hx t
  rw [run_bind]
  generalize x.run t = outcome at hfirst
  obtain ⟨e | a, u⟩ := outcome
  · exact ⟨fun h heq => hfirst.1 h (by rw [Except.error.inj heq]), nofun⟩
  · exact hf a (hfirst.2 a rfl) u

end

/-! ### Operations -/

/-- No operation complains about the place of a label. -/
theorem ExecError.renames_onTarget (op : Opcode) :
    Renames (fun e _ => (Halt.failed e).OnTarget) op op where
  stackUnderflow _ := nofun
  typeMismatch _ _ := nofun
  undefinedResult _ := nofun
  badSlot _ _ := nofun
  unsupported _ := nofun
  thrown _ := nofun

/-- An access to a frame is compared with itself; what is kept is that its error is none of a lost
label. -/
theorem endsIn_ofExcept {P : Halt → Prop} (hP : ∀ h : Halt, h.OnTarget → P h) {R : α → β → Prop}
    {S : α → Prop} {x : Except ExecError α} {y : Except ExecError β}
    (h : AnswersAs (fun e _ => (Halt.failed e).OnTarget) (fun _ => False) R x y)
    (hS : ∀ a b, R a b → S a) : EndsIn P S (ExecM.ofExcept x) := by
  cases h with
  | ok hR => exact endsIn_pure (hS _ _ hR)
  | error he => exact endsIn_throw (hP _ he)
  | astray y hA => exact hA.elim

namespace Machine

variable {P : Halt → Prop} (hP : ∀ h : Halt, h.OnTarget → P h) {callee : Callee}
  (hcallee : ∀ method args, EndsIn P (fun _ => True) (callee method args))
include hP

/-- An operation that jumps goes to a label of the operand. -/
theorem endsIn_execute {f : Frame} {i : Instruction} {p : Payload Label}
    (hp : i.operand.payload? = some p) (operation : Operation) :
    EndsIn P (fun x => ∀ l, x.2 = .jump l → l ∈ p.targets)
      (ExecM.ofExcept (f.execute i operation)) := by
  have hE := ExecError.renames_onTarget i.opcode
  by_cases hret : operation = .ret
  · subst hret
    have hreturn : AnswersAs (fun e _ => (Halt.failed e).OnTarget) (fun _ => False)
        (fun x _ => ∃ v?, x.2 = Flow.return v?) (f.execute i .ret)
        ((f.extend []).execute i .ret) := by
      rw [Frame.execute_ret, Frame.execute_ret]
      exact (Frame.result_extend hE).bind fun x _ _ => .ok ⟨x.2, rfl⟩
    refine endsIn_ofExcept hP hreturn ?_
    rintro ⟨g, _⟩ _ ⟨v?, rfl⟩ l hjump
    cases hjump
  · have hacts : i.ActsLike (fun l _ => l ∈ p.targets) i :=
      ⟨rfl, p, p, hp, hp, (Payload.Related.refl p).imp_of_mem fun _ _ hl _ _ => hl⟩
    refine endsIn_ofExcept hP
      (Frame.execute_extend hE (Frame.astrayBeyond_nil _ f) hacts hret) ?_
    rintro ⟨g, flow⟩ ⟨g', flow'⟩ ⟨-, hlike⟩ l rfl
    cases hlike with
    | jump hl => exact hl

include hcallee

theorem endsIn_callStep (f : Frame) (i : Instruction) :
    EndsIn P (fun x => x.2 = .next) (callStep callee f i) := by
  have hE := ExecError.renames_onTarget i.opcode
  have hmethod : EndsIn P (fun _ => True) (ExecM.ofExcept (f.required i.opcode i.operand.method?)) :=
    endsIn_ofExcept hP (y := (f.extend []).required i.opcode i.operand.method?)
      (Frame.required_extend hE) fun _ _ _ => trivial
  have hargs (n : Nat) : EndsIn P (fun _ => True) (ExecM.ofExcept (f.popMany i.opcode n)) :=
    endsIn_ofExcept hP (y := (f.extend []).popMany i.opcode n)
      (Frame.popMany_extend hE) fun _ _ _ => trivial
  unfold callStep
  apply hmethod.bind
  intro m _
  apply (hargs m.argSlots).bind
  intro x _
  exact (hcallee m x.1).bind fun _ _ => endsIn_pure rfl

/-- **A step** that jumps goes to a label of the operand, and does not fail for want of its place.
-/
theorem endsIn_step (f : Frame) {i : Instruction} {p : Payload Label}
    (hp : i.operand.payload? = some p) :
    EndsIn P (fun x => ∀ l, x.2 = .jump l → l ∈ p.targets) (step callee f i) := by
  unfold step
  split
  · exact endsIn_throw (hP _ nofun)
  · intro t
    refine ⟨(endsIn_callStep hP hcallee f i t).1, fun x hx l hl => ?_⟩
    rw [(endsIn_callStep hP hcallee f i t).2 x hx] at hl
    cases hl
  · exact endsIn_execute hP hp _

/-! ### Programs -/

omit hP hcallee in
/-- Whatever an instruction of the program jumps to has a place in it. -/
def Program.Lands (p : Program) : Prop :=
  ∀ (pc : Nat) (i : Instruction), p.code[pc]? = some i → ∃ q : Payload Label,
    i.operand.payload? = some q ∧ ∀ l ∈ q.targets, ∃ place, p.targets.lookup l = some place

omit hP hcallee in
theorem lands_of_jumpsLand {ss : List Scanned} {out : List Instruction} (h : JumpsLand ss out) :
    (Program.ofInstructions out).Lands := by
  intro pc i hi
  rw [← Array.getElem?_toList] at hi
  obtain ⟨s, -, p, hp, hrelated⟩ := exists_getElem?_right h.operands hi
  refine ⟨p, hp, fun l hl => ?_⟩
  obtain ⟨t, -, index, s', -, -, hmarks⟩ := exists_of_mem_right hrelated.targets hl
  exact ⟨0 + index, lookup_labelPlaces 0 hmarks⟩

/-- **A frame** in a program whose jumps land ends at no lost label, by induction on the fuel. -/
theorem endsIn_loop {p : Program} (hp : p.Lands) (fuel pc : Nat) (f : Frame) :
    EndsIn P (fun _ => True) (loop callee p fuel pc f) := by
  induction fuel generalizing pc f with
  | zero => exact endsIn_throw (hP _ nofun)
  | succ fuel ih =>
    cases hi : p.code[pc]? with
    | none =>
      rw [loop_end hi]
      exact endsIn_throw (hP _ nofun)
    | some i =>
      rw [loop_step hi]
      obtain ⟨q, hq, hplaces⟩ := hp pc i hi
      apply (endsIn_modify _).bind
      intro _ _
      apply (endsIn_step hP hcallee f hq).bind
      rintro ⟨next, flow⟩ hflow
      cases flow with
      | next => exact ih (pc + 1) next
      | jump l =>
        obtain ⟨place, hplace⟩ := hplaces l (hflow l rfl)
        simp only [goOn, hplace]
        exact ih place next
      | «return» v? => exact endsIn_pure trivial

/-! ### Calls -/

omit hcallee in
/-- A body that is read for running is a program whose jumps land. -/
theorem endsIn_readCode (metadata : MetadataTables) (body : Body) :
    EndsIn P (fun code => (Program.ofInstructions code).Lands) (readCode metadata body) := by
  intro t
  rw [run_readCode]
  generalize hread : body.decode metadata t.supply = outcome
  obtain ⟨e | code, labels⟩ := outcome
  · have hP' : P (.failed (.instruction e)) := hP _ fun _ _ => nofun
    exact ⟨fun h heq => Except.error.inj heq ▸ hP', nofun⟩
  · obtain ⟨ss, -, -, hlands⟩ := jumpsLand_of_decode hread
    exact ⟨nofun, fun a heq => Except.ok.inj heq ▸ lands_of_jumpsLand hlands⟩

theorem endsIn_runBody (metadata : MetadataTables) (fuel : Nat) (method : MethodRef) (body : Body)
    (args : List Value) :
    EndsIn P (fun _ => True) (runBody metadata fuel callee method body args) := by
  rw [runBody_eq]
  exact (endsIn_readCode hP metadata body).bind fun _ hlands => endsIn_loop hP hcallee hlands _ _ _

omit hcallee in
theorem endsIn_enter {m : Module} (fuel : Nat) {nested? : Option Callee}
    (hnative : ∀ method native args e, m.implementation? method = some (.native native) →
      native.run args = .error e → P (.failed e))
    (hnested : ∀ callee, nested? = some callee →
      ∀ method args, EndsIn P (fun _ => True) (callee method args)) (method : MethodRef)
    (args : List Value) : EndsIn P (fun _ => True) (enter m fuel nested? method args) := by
  unfold enter
  split
  · exact endsIn_throw (hP _ nofun)
  · cases himplementation : m.implementation? method with
    | none => exact endsIn_throw (hP _ nofun)
    | some implementation =>
      cases implementation with
      | native native =>
        apply (endsIn_modify _).bind
        intro _ _
        cases hrun : native.run args with
        | ok v? => exact endsIn_pure trivial
        | error e => exact endsIn_throw (hnative method native args e himplementation hrun)
      | managed managed =>
        cases nested? with
        | none => exact endsIn_throw (hP _ nofun)
        | some callee => exact endsIn_runBody hP (hnested callee rfl) _ _ _ _ _

omit hcallee in
/-- **A call** ends at no lost label, by induction on the room for nested frames. -/
theorem endsIn_invokeWithin {m : Module} (fuel depth : Nat)
    (hnative : ∀ method native args e, m.implementation? method = some (.native native) →
      native.run args = .error e → P (.failed e)) (method : MethodRef) (args : List Value) :
    EndsIn P (fun _ => True) (invokeWithin m fuel depth method args) := by
  induction depth generalizing method args with
  | zero =>
    apply endsIn_enter hP fuel hnative
    rintro _ ⟨⟩
  | succ depth ih =>
    apply endsIn_enter hP fuel hnative
    rintro callee ⟨⟩ method args
    exact ih method args

end Machine

/-- **Jumps always land.**  What is read from a body stands where the code spells it, each jump has
the label of the one instruction at its target, and no other labels are there.  Offsets and labels
have numbers of 32 bits if the supply has one left for each byte of the code.  No execution ends at
a label that marks nothing, whatever is called with whatever arguments; only a native method of the
module may say so of itself. -/
theorem jumps_land {μ : Type} [Metadata μ] (metadata : μ) (m : Module) :
    (∀ (body : Body) (supply : LabelSupply) (out : List Instruction) (labels : PositionLabels),
      body.decode metadata supply = (.ok out, labels) →
      ∃ ss, Spelling metadata body.locals 0 ss body.code ∧
        (ss.Pairwise fun a b => a.offset < b.offset) ∧ JumpsLand ss out ∧
        (supply.next + body.code.length < 0x100000000 → ∀ i ∈ out, i.FitsWords)) ∧
    ∀ (fuel : Nat) (method : MethodRef) (args : List Value) (trace : Trace) (r : MethodRef) (l : Label),
      ((m.invoke fuel method args).run trace).1 = .error (.failed (.invalidTarget r l)) →
        ∃ callee native args', m.implementation? callee = some (.native native) ∧
          native.run args' = .error (.invalidTarget r l) := by
  refine ⟨fun body supply out labels hread => ?_, ?_⟩
  · obtain ⟨ss, hss, hoffsets, hlands⟩ := jumpsLand_of_decode hread
    exact ⟨ss, hss, hoffsets, hlands, fitsWords_of_decode hread⟩
  -- an error of a lost label is one that a native method gave
  let P (h : Halt) : Prop := ∀ r l, h = .failed (.invalidTarget r l) → ∃ callee native args',
    m.implementation? callee = some (.native native) ∧
      native.run args' = .error (.invalidTarget r l)
  have hP (h : Halt) (hontarget : h.OnTarget) : P h := by
    intro r l heq
    exact absurd heq (hontarget r l)
  have hnative (method : MethodRef) (native : NativeMethod) (args : List Value) (e : ExecError)
      (himplementation : m.implementation? method = some (.native native))
      (hrun : native.run args = .error e) : P (.failed e) := by
    rintro r l ⟨⟩
    exact ⟨method, native, args, himplementation, hrun⟩
  intro fuel method args trace r l h
  have hends := Machine.endsIn_invokeWithin hP fuel maxCallDepth hnative method args
  exact (hends trace).1 _ h r l rfl

/-- A jump table with an entry behind it and one back to the beginning, and a jump to the end. -/
def tableBody : Body where
  code := [0x16, 0x45, 0x02, 0x00, 0x00, 0x00, 0x00, 0x00, 0x00, 0x00, 0xf2, 0xff, 0xff, 0xff,
    0x2b, 0x00, 0x2a]

/-- The jumps of the body land, on labels numbered in the order of first mention. -/
theorem jumps_land_tableBody : ∃ out labels ss,
    tableBody.decode ({} : MetadataTables) {} = (.ok out, labels) ∧
      out.map (·.offset?) = [some 0, some 1, some 14, some 16] ∧
      out.map (·.labels.map (·.id)) = [[1], [], [0], [2]] ∧ JumpsLand ss out ∧
      ∀ i ∈ out, i.FitsWords := by
  obtain ⟨out, labels, hread, hoffsets, hlabels⟩ : ∃ out labels,
      tableBody.decode ({} : MetadataTables) {} = (.ok out, labels) ∧
        out.map (·.offset?) = [some 0, some 1, some 14, some 16] ∧
        out.map (·.labels.map (·.id)) = [[1], [], [0], [2]] := ⟨_, _, rfl, rfl, rfl⟩
  obtain ⟨ss, -, -, hlands, hfits⟩ :=
    (jumps_land ({} : MetadataTables) {}).1 tableBody {} out labels hread
  exact ⟨out, labels, ss, hread, hoffsets, hlabels, hlands, hfits (by decide)⟩

end MethodWeave
