import Mathlib.Algebra.Ring.Int.Defs
import MethodWeave.Proofs.Host.Looping
/-!
How execution changes the height of the evaluation stack.

The table of opcodes says what an opcode adds to the stack and takes from it, and a call adds to
that what the signature of the callee asks for (`Instruction.stackChange`).  The machine does not
read the table.  The two meet in `Operation.stackChange`: the table gives every opcode the effect of
its operation (`stackChange_of_ofOpcode?`), and every operation has its effect on a frame
(`Frame.length_of_execute`).  Main results: `length_of_step` for a step, and `length_of_loop` for
the steps of a whole run up to its return.
-/

namespace MethodWeave

/-! ### The table and the operations -/

/-- What an operation adds to the stack, less what it takes.  What a call does, its callee decides;
a return ends the frame and its stack. -/
def Operation.stackChange : Operation → Int
  | .loadArgument _ | .loadLocal _ | .loadNull | .loadInt _ | .loadNumber | .loadString
  | .duplicate => 1
  | .nothing | .negate | .complement | .convert _ | .branch | .call | .ret => 0
  | .storeArgument | .storeLocal _ | .discard | .binary _ | .shift _ | .testEqual | .test _ _
  | .branchIf _ | .switch | .throw => -1
  | .branchEqual _ | .branchTest _ _ => -2

namespace Opcode

variable {op : Opcode} {operation : Operation}

/-- The codes that are executed are single bytes, or among the first ones behind the prefix. -/
theorem code_of_ofCode? {code : UInt16} (h : Operation.ofCode? code = some operation) :
    code.toNat < 0x100 ∨ (0xfe00 ≤ code.toNat ∧ code.toNat < 0xfe10) := by
  unfold Operation.ofCode? at h
  split at h
  all_goals first | omega | cases h

/-- The short form of a branch is a single byte. -/
theorem code_lt_of_longForm? {long : Opcode} (h : op.longForm? = some long) :
    op.code.toNat < 0x100 := by
  unfold longForm? at h
  split at h
  · next hrange =>
    have hhigh : op.code.toNat ≤ 0x37 := UInt16.le_iff_toNat_le.1 hrange.2
    omega
  · split at h
    · next hshort => rw [hshort]; decide
    · cases h

theorem code_of_ofOpcode? (h : Operation.ofOpcode? op = some operation) :
    op.code.toNat < 0x100 ∨ (0xfe00 ≤ op.code.toNat ∧ op.code.toNat < 0xfe10) := by
  cases hlong : op.longForm? with
  | some long => exact Or.inl (code_lt_of_longForm? hlong)
  | none =>
    have hwide : op.widened = op := by rw [widened, hlong]; rfl
    apply code_of_ofCode?
    rw [← h, Operation.ofOpcode?, hwide]

/-- An opcode agrees with its operation: the table gives it the effect of the operation, and it is
one of the calls just when the operation is a call. -/
def Agrees (op : Opcode) : Prop :=
  ∀ operation ∈ Operation.ofOpcode? op,
    op.info?.map Info.stackChange = some operation.stackChange ∧
      (operation = .call ↔ op = call ∨ op = callvirt ∨ op = newobj) ∧ op ≠ newobj

instance (op : Opcode) : Decidable op.Agrees := by
  unfold Agrees
  infer_instance

theorem agrees_of_lt : ∀ n < 0x100, (Opcode.mk (UInt16.ofNat n)).Agrees := by
  decide +kernel

theorem agrees_prefixed : ∀ n < 0x10, (Opcode.mk (UInt16.ofNat (0xfe00 + n))).Agrees := by
  decide +kernel

/-- **Every opcode agrees with its operation**, in its short form and in its long form. -/
theorem agrees (op : Opcode) : op.Agrees := by
  intro operation h
  have hcode : Opcode.mk (UInt16.ofNat op.code.toNat) = op := by rw [UInt16.ofNat_toNat]
  obtain hlow | ⟨hlow, hhigh⟩ := code_of_ofOpcode? h
  · have hagrees := agrees_of_lt op.code.toNat hlow
    rw [hcode] at hagrees
    exact hagrees operation h
  · have hagrees := agrees_prefixed (op.code.toNat - 0xfe00) (by omega)
    rw [Nat.add_sub_cancel' hlow, hcode] at hagrees
    exact hagrees operation h

end Opcode

namespace Instruction

variable {i : Instruction} {operation : Operation}

/-- An instruction that calls nothing has the effect of its operation. -/
theorem stackChange_of_ofOpcode? (h : Operation.ofOpcode? i.opcode = some operation)
    (hcall : operation ≠ .call) : i.stackChange = operation.stackChange := by
  obtain ⟨htable, hcalls, -⟩ := i.opcode.agrees operation h
  rw [stackChange, if_neg fun h => hcall (hcalls.2 h), htable]
  rfl

/-- A call takes the argument slots of the callee and leaves its result. -/
theorem stackChange_of_call {m : MethodRef} (h : Operation.ofOpcode? i.opcode = some .call)
    (hm : i.operand.method? = some m) :
    i.stackChange = (if m.returnsValue then 1 else 0) - (m.argSlots : Int) := by
  obtain ⟨htable, hcalls, hnew⟩ := i.opcode.agrees .call h
  have hreceiver : (if !m.isStatic && i.opcode != Opcode.newobj then 1 else 0 : Int) =
      if m.isStatic then 0 else 1 := by
    simp only [bne_iff_ne.2 hnew, Bool.and_true]
    cases m.isStatic <;> rfl
  rw [stackChange, if_pos (hcalls.1 rfl), hm, htable]
  show (0 : Int) + calleeChange i.opcode m = _
  rw [calleeChange, hreceiver, MethodRef.argSlots]
  cases m.isStatic <;> simp only [Bool.false_eq_true, if_true, if_false] <;> omega

end Instruction

/-! ### The operations and the frames -/

namespace Frame

variable {f g : Frame} {op : Opcode}

@[grind =]
theorem length_push (v : Value) : (f.push v).stack.length = f.stack.length + 1 := rfl

@[grind →]
theorem length_of_pop {v : Value} (h : f.pop op = .ok (v, g)) :
    f.stack.length = g.stack.length + 1 := by
  rw [eq_push_of_pop h, length_push]

theorem length_of_popMany {n : Nat} {vs : List Value} (h : f.popMany op n = .ok (vs, g)) :
    f.stack.length = g.stack.length + n := by
  obtain ⟨hlength, rfl⟩ := eq_of_popMany h
  rw [List.length_drop, Nat.sub_add_cancel hlength]

@[grind →]
theorem stack_of_setArgument {slot : UInt16} {v : Value} (h : f.setArgument op slot v = .ok g) :
    g.stack = f.stack := by
  rw [eq_of_setArgument h]

@[grind →]
theorem stack_of_setLocal {slot : UInt16} {v : Value} (h : f.setLocal op slot v = .ok g) :
    g.stack = f.stack := by
  rw [eq_of_setLocal h]

@[grind →]
theorem length_of_onTwo {α : Type} {work : Value → Value → Except ValueError α} {a : α}
    (h : f.onTwo op work = .ok (a, g)) : f.stack.length = g.stack.length + 2 := by
  obtain ⟨b, c, rfl⟩ := eq_push_of_onTwo h
  rw [length_push, length_push]

/-- **An operation has its effect on the frame**, unless it ends the frame. -/
theorem length_of_execute {i : Instruction} {operation : Operation} {flow : Flow}
    (h : f.execute i operation = .ok (g, flow)) (hflow : ∀ v?, flow ≠ .return v?) :
    (g.stack.length : Int) = f.stack.length + operation.stackChange := by
  -- an operation is a chain of accesses to the frame, and each access has its own lemma
  cases operation with
  | switch =>
    simp only [execute_switch, bind_eq_ok_iff, Prod.exists] at h
    obtain ⟨v, f₁, hv, hflow⟩ := h
    rw [eq_of_throughTable hflow, length_of_pop hv, Operation.stackChange]
    omega
  | ret =>
    simp only [execute_ret, bind_eq_ok_iff, pure_eq_ok_iff, Prod.exists] at h
    obtain ⟨f₁, v?, -, heq⟩ := h
    cases heq
    exact absurd rfl (hflow v?)
  | call => cases h
  | throw =>
    simp only [execute, bind_eq_ok_iff] at h
    obtain ⟨_, _, h⟩ := h
    cases h
  | _ =>
    simp only [execute, bind_eq_ok_iff, pure_eq_ok_iff, Prod.exists] at h
    simp only [Operation.stackChange]
    grind

end Frame

/-! ### Steps -/

namespace Machine

variable {callee : Callee} {f g : Frame} {i : Instruction} {flow : Flow} {t u : Trace}

/-- Whatever answers a call, it takes the argument slots and leaves a result just when the callee is
to have one. -/
theorem length_of_callStep (hop : Operation.ofOpcode? i.opcode = some .call)
    (h : (callStep callee f i).run t = (.ok (g, flow), u)) :
    (g.stack.length : Int) = f.stack.length + i.stackChange := by
  obtain ⟨m, args, f₁, v, hmethod, hargs, rfl⟩ := eq_of_callStep h
  rw [Instruction.stackChange_of_call hop hmethod, Frame.length_of_popMany hargs]
  cases m.returnsValue with
  | true =>
    simp only [if_true, Frame.length_push]
    omega
  | false =>
    simp only [Bool.false_eq_true, if_false]
    omega

/-- **A step that goes on changes the height of the stack by just what the instruction says**:
whatever answers its calls, taken or not taken, within the table or behind its end. -/
theorem length_of_step (h : (step callee f i).run t = (.ok (g, flow), u))
    (hflow : ∀ v?, flow ≠ .return v?) :
    (g.stack.length : Int) = f.stack.length + i.stackChange := by
  unfold step at h
  split at h
  · cases h
  · next hop => exact length_of_callStep hop h
  · next operation hcall hop =>
    rw [Instruction.stackChange_of_ofOpcode? hop hcall]
    exact Frame.length_of_execute (ExecM.eq_ok_of_run_ofExcept h) hflow

/-- An instance method with a parameter and a result. -/
def echoMethod : MethodRef :=
  ⟨.ofRow Token.methodDefTable 1, ⟨.ofRow Token.typeDefTable 1, "Program"⟩, "echo",
    [.int32], some .int32, false⟩

/-- A module that has it, and carries it out itself. -/
def echoModule : Module := Module.setNative {} echoMethod (.echo "echo")

/-- Its call, with three values on the stack, leaves two. -/
theorem length_of_step_echoMethod :
    let f : Frame :=
      { method := echoMethod, args := [], locals := [], stack := [.int32 1, .null, .int32 2] }
    let i : Instruction :=
      { opcode := Opcode.callvirt, operand := .member .method (some (.method echoMethod)) }
    let g : Frame := { f with stack := [.int32 1, .int32 2] }
    let u : Trace := { calls := [⟨"echo", [.null, .int32 1]⟩] }
    (step (invokeWithin echoModule 16 1) f i).run {} = (.ok (g, .next), u) ∧
      (g.stack.length : Int) = f.stack.length + i.stackChange := by
  intro f i g u
  have hstep : (step (invokeWithin echoModule 16 1) f i).run {} = (.ok (g, .next), u) := rfl
  exact ⟨hstep, length_of_step hstep nofun⟩

/-! ### Runs -/

/-- Where a program goes on behind an instruction; nowhere behind a return. -/
def Program.placeBehind? (p : Program) (pc : Nat) : Flow → Option Nat
  | .next => some (pc + 1)
  | .jump l => p.targets.lookup l
  | .return _ => none

variable {p : Program} {pc pc' fuel : Nat} {is : List Instruction} {t' : Trace} {f' : Frame}
  {v? : Option Value}

/-- A loop goes on at the place behind the instruction. -/
theorem goOn_of_placeBehind? {next : Nat} (h : p.placeBehind? pc flow = some next) :
    goOn callee p fuel pc f (g, flow) = loop callee p fuel next g := by
  cases flow with
  | next => cases h; rfl
  | jump l =>
    have hl : p.targets.lookup l = some next := h
    simp only [goOn, hl]
  | «return» v? => cases h

/-- What goes on to a return goes on at a place, or is the return. -/
theorem placeBehind?_of_goOn (h : (goOn callee p fuel pc f (g, flow)).run t = (.ok v?, u)) :
    (∃ next, p.placeBehind? pc flow = some next ∧
      (loop callee p fuel next g).run t = (.ok v?, u)) ∨ flow = .return v? ∧ t = u := by
  cases flow with
  | next => exact Or.inl ⟨_, rfl, h⟩
  | jump l =>
    simp only [goOn] at h
    cases hl : p.targets.lookup l with
    | none => rw [hl] at h; cases h
    | some next => rw [hl] at h; exact Or.inl ⟨next, hl, h⟩
  | «return» w? =>
    obtain ⟨rfl, rfl⟩ := run_pure_eq_ok_iff.1 h
    exact Or.inr ⟨rfl, rfl⟩

/-- A part of a run: the instructions executed from one place, frame and trace to another. -/
inductive Executes (callee : Callee) (p : Program) :
    Nat → Frame → Trace → List Instruction → Nat → Frame → Trace → Prop
  | refl {pc : Nat} {f : Frame} {t : Trace} : Executes callee p pc f t [] pc f t
  | step {pc next pc' : Nat} {f g f' : Frame} {t u t' : Trace} {i : Instruction} {flow : Flow}
      {is : List Instruction} (hi : p.code[pc]? = some i)
      (hstep : (step callee f i).run (traceStep f.method pc i t) = (.ok (g, flow), u))
      (hnext : p.placeBehind? pc flow = some next)
      (hrest : Executes callee p next g u is pc' f' t') :
      Executes callee p pc f t (i :: is) pc' f' t'

/-- Behind some instructions the stack has the height that they add up to. -/
theorem Executes.length_eq (h : Executes callee p pc f t is pc' f' t') :
    (f'.stack.length : Int) = f.stack.length + (is.map Instruction.stackChange).sum := by
  induction h with
  | refl => simp
  | step hi hstep hnext hrest ih =>
    have hlength := length_of_step hstep fun v? heq => by rw [heq] at hnext; cases hnext
    rw [List.map_cons, List.sum_cons, ih, hlength, Int.add_assoc]

/-- The loop goes through them, and then on with the steps that are left. -/
theorem Executes.run_loop (h : Executes callee p pc f t is pc' f' t') (fuel : Nat) :
    (loop callee p (is.length + fuel) pc f).run t = (loop callee p fuel pc' f').run t' := by
  induction h with
  | refl => rw [List.length_nil, Nat.zero_add]
  | @step pc next _ f g _ t u _ i flow is hi hstep hnext hrest ih =>
    rw [← ih, List.length_cons, Nat.add_right_comm, loop_step hi, run_bind]
    show (Machine.step callee f i >>= goOn callee p _ pc f).run (traceStep f.method pc i t) = _
    rw [run_bind, hstep]
    exact congrArg (·.run u) (goOn_of_placeBehind? hnext)

/-- **A run that returns has executed instructions that add up to the height of the stack at its
return.** -/
theorem length_of_loop
    (h : (loop callee p fuel pc f).run t = (.ok v?, u)) :
    ∃ is pc' g t', Executes callee p pc f t is pc' g t' ∧ is.length < fuel ∧
      (g.stack.length : Int) = f.stack.length + (is.map Instruction.stackChange).sum ∧
      ∃ i g', p.code[pc']? = some i ∧
        (step callee g i).run (traceStep g.method pc' i t') = (.ok (g', .return v?), u) := by
  -- the heights add up along any execution, so it is enough to find the one that returns
  suffices h : ∃ is pc' g t', Executes callee p pc f t is pc' g t' ∧ is.length < fuel ∧
      ∃ i g', p.code[pc']? = some i ∧
        (step callee g i).run (traceStep g.method pc' i t') = (.ok (g', .return v?), u) by
    obtain ⟨is, pc', g, t', hexecutes, hfuel, hreturn⟩ := h
    exact ⟨is, pc', g, t', hexecutes, hfuel, hexecutes.length_eq, hreturn⟩
  induction fuel generalizing pc f t with
  | zero => cases h
  | succ fuel ih =>
    cases hi : p.code[pc]? with
    | none =>
      simp only [loop, hi] at h
      cases h
    | some i =>
      rw [loop_step hi] at h
      obtain ⟨_, t₁, hmodify, h⟩ := run_bind_eq_ok_iff.1 h
      cases hmodify
      obtain ⟨⟨g, flow⟩, t₂, hstep, h⟩ := run_bind_eq_ok_iff.1 h
      -- the step goes on, and the rest has less fuel, or it is the return
      obtain ⟨next, hnext, h⟩ | ⟨rfl, rfl⟩ := placeBehind?_of_goOn h
      · obtain ⟨is, pc', g', t', hexecutes, hfuel, hreturn⟩ := ih h
        exact ⟨i :: is, pc', g', t', .step hi hstep hnext hexecutes, Nat.succ_lt_succ hfuel,
          hreturn⟩
      · exact ⟨[], pc, f, t, .refl, Nat.succ_pos fuel, i, g, hi, hstep⟩

end Machine

end MethodWeave
