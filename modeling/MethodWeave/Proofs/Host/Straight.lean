import MethodWeave.Host.Hooks
import MethodWeave.Proofs.Host.Nesting
/-!
Code that runs straight on.

A program may hold a piece of code at a place (`Machine.Program.Holds`), and the run through the
piece is put together from the runs through its instructions (`Machine.LeadsTo`).  Main results:
`leadsTo_loadArguments` and `leadsTo_loadLocals`, values are loaded one after the other.
-/

namespace MethodWeave

/-- The instruction is executed as the native one, labels aside. -/
def NativeInstruction.ExecutesAs (n : NativeInstruction) (i : Instruction) : Prop :=
  Operation.ofOpcode? i.opcode = Operation.ofOpcode? n.opcode ∧
    ∃ q, i.operand.payload? = some q ∧ Payload.Related (fun _ _ => True) n.operand q

namespace Machine

/-- The program has, from a place on, instructions that are executed as the code. -/
def Program.Holds (p : Program) (pc : Nat) (code : List NativeInstruction) : Prop :=
  ∀ j n, code[j]? = some n → ∃ i, p.code[pc + j]? = some i ∧ n.ExecutesAs i

section

variable {p : Program} {pc : Nat} {n : NativeInstruction} {code code' : List NativeInstruction}

theorem Program.Holds.head (h : p.Holds pc (n :: code)) :
    ∃ i, p.code[pc]? = some i ∧ n.ExecutesAs i :=
  h 0 n rfl

/-- An access to a local slot is executed as such. -/
theorem Program.Holds.head_local {op : Opcode} {slot : Local}
    (h : p.Holds pc ({ opcode := op, operand := .local slot } :: code)) :
    ∃ i, p.code[pc]? = some i ∧ Operation.ofOpcode? i.opcode = Operation.ofOpcode? op ∧
      i.operand = .local (some slot) := by
  obtain ⟨i, hi, hop, q, hq, hrelated⟩ := h.head
  cases hrelated
  exact ⟨i, hi, hop, Operand.eq_of_payload? hq⟩

theorem Program.Holds.tail (h : p.Holds pc (n :: code)) : p.Holds (pc + 1) code := by
  intro j m hm
  obtain ⟨i, hi, hexecutes⟩ := h (j + 1) m hm
  refine ⟨i, ?_, hexecutes⟩
  rw [Nat.add_assoc, Nat.add_comm 1]
  exact hi

theorem Program.Holds.left (h : p.Holds pc (code ++ code')) : p.Holds pc code := by
  intro j m hm
  refine h j m ?_
  rw [List.getElem?_append_left (List.getElem?_eq_some_iff.1 hm).1]
  exact hm

theorem Program.Holds.right (h : p.Holds pc (code ++ code')) :
    p.Holds (pc + code.length) code' := by
  intro j m hm
  obtain ⟨i, hi, hexecutes⟩ := h (code.length + j) m (by
    rw [List.getElem?_append_right (by omega), Nat.add_sub_cancel_left]
    exact hm)
  exact ⟨i, by rw [Nat.add_assoc]; exact hi, hexecutes⟩

/-- A program of a stream holds every piece of it. -/
theorem Program.Runs.holds {stream : List NativeInstruction} (h : p.Runs stream)
    (hcode : ∀ j n, code[j]? = some n →
      ∃ n', stream[pc + j]? = some n' ∧ n'.opcode = n.opcode ∧ n'.operand = n.operand) :
    p.Holds pc code := by
  intro j n hn
  obtain ⟨n', hn', hopcode, hoperand⟩ := hcode j n hn
  obtain ⟨i, hi, hruns⟩ := h.exists_code hn'
  obtain ⟨q, hq, hrelated⟩ := hruns.operand
  refine ⟨i, hi, by rw [hruns.form.operation, hopcode], q, hq, ?_⟩
  rw [← hoperand]
  exact hrelated.imp fun _ _ _ => trivial

end

/-! ### Steps that call nothing -/

/-- The run goes, within `n` steps that call nothing, from one place and frame to another. -/
def LeadsTo (callee : Callee) (p : Program) (n pc : Nat) (f : Frame) (pc' : Nat) (g : Frame) :
    Prop :=
  ∀ fuel t, ∃ t' : Trace, t'.calls = t.calls ∧
    (loop callee p (n + fuel) pc f).run t = (loop callee p fuel pc' g).run t'

section

variable {callee : Callee} {p : Program} {n m pc pc' pc'' : Nat} {f g f' : Frame} {i : Instruction}

theorem LeadsTo.refl : LeadsTo callee p 0 pc f pc f := fun fuel t =>
  ⟨t, rfl, by rw [Nat.zero_add]⟩

theorem LeadsTo.trans (h : LeadsTo callee p n pc f pc' g) (h' : LeadsTo callee p m pc' g pc'' f') :
    LeadsTo callee p (n + m) pc f pc'' f' := by
  intro fuel t
  obtain ⟨t₁, hcalls, hrun⟩ := h (m + fuel) t
  obtain ⟨t₂, hcalls', hrun'⟩ := h' fuel t₁
  refine ⟨t₂, hcalls'.trans hcalls, ?_⟩
  rw [Nat.add_assoc, hrun, hrun']

/-- What follows the rest of a run follows the whole. -/
theorem LeadsTo.followedBy {A : Halt → Prop} {α : Type} {R : α → Option Value → Prop} {x : ExecM α}
    {fuel : Nat} (h : LeadsTo callee p n pc f pc' g)
    (hx : FollowedBy A R x (loop callee p fuel pc' g)) :
    FollowedBy A R x (loop callee p (n + fuel) pc f) := by
  intro t t' ht
  obtain ⟨t'', hcalls, hrun⟩ := h fuel t'
  rw [hrun]
  exact hx t t'' (hcalls.trans ht)

theorem leadsTo_next (hi : p.code[pc]? = some i) (hstep : step callee f i = pure (g, .next)) :
    LeadsTo callee p 1 pc f (pc + 1) g := by
  intro fuel t
  refine ⟨traceStep f.method pc i t, rfl, ?_⟩
  rw [Nat.add_comm, loop_step hi, hstep]
  rfl

theorem leadsTo_jump {l : Label} (hi : p.code[pc]? = some i)
    (hstep : step callee f i = pure (g, .jump l)) (hl : p.targets.lookup l = some pc') :
    LeadsTo callee p 1 pc f pc' g := by
  intro fuel t
  refine ⟨traceStep f.method pc i t, rfl, ?_⟩
  rw [Nat.add_comm, loop_step hi, hstep, pure_bind]
  simp only [goOn, hl]
  rfl

end

/-! ### Single instructions -/

section

variable (callee : Callee) {p : Program} {pc : Nat} {f g : Frame} {i : Instruction}

/-- An operation that calls nothing and goes on behind its instruction. -/
theorem leadsTo_execute {operation : Operation} (hi : p.code[pc]? = some i)
    (hop : Operation.ofOpcode? i.opcode = some operation) (hcall : operation ≠ .call)
    (h : f.execute i operation = .ok (g, .next)) : LeadsTo callee p 1 pc f (pc + 1) g := by
  refine leadsTo_next hi ?_
  unfold step
  rw [hop]
  cases operation with
  | call => exact absurd rfl hcall
  | _ => simp only [h]; rfl

variable {code : List NativeInstruction}

theorem leadsTo_loadArgument {slot : UInt16} {v : Value}
    (h : p.Holds pc ({ opcode := Opcode.ldarg, operand := .argument slot } :: code))
    (hv : f.args[slot.toNat]? = some v) : LeadsTo callee p 1 pc f (pc + 1) (f.push v) := by
  obtain ⟨i, hi, hop, q, hq, hrelated⟩ := h.head
  cases hrelated
  have hoperand : i.operand = .argument slot := Operand.eq_of_payload? hq
  have hslot : f.argumentSlot i none = .ok slot := by simp only [Frame.argumentSlot, hoperand]
  have hvalue : f.argument i.opcode slot = .ok v := by simp only [Frame.argument, hv]
  refine leadsTo_execute callee hi hop (by simp) ?_
  exact bind_eq_ok_iff.2 ⟨slot, hslot, bind_eq_ok_iff.2 ⟨v, hvalue, rfl⟩⟩

theorem leadsTo_loadLocal {slot : Local} {v : Value}
    (h : p.Holds pc (Hooks.loadResult slot :: code)) (hv : f.locals[slot.index.toNat]? = some v) :
    LeadsTo callee p 1 pc f (pc + 1) (f.push v) := by
  obtain ⟨i, hi, hop, hoperand⟩ := h.head_local
  have hslot : f.localSlot i none = .ok slot.index := by
    simp only [Frame.localSlot, hoperand]
    rfl
  have hvalue : f.localValue i.opcode slot.index = .ok v := by simp only [Frame.localValue, hv]
  refine leadsTo_execute callee hi hop (by simp) ?_
  exact bind_eq_ok_iff.2 ⟨slot.index, hslot, bind_eq_ok_iff.2 ⟨v, hvalue, rfl⟩⟩

theorem leadsTo_pop {v : Value} (h : p.Holds pc ({ opcode := Opcode.pop } :: code)) :
    LeadsTo callee p 1 pc (f.push v) (pc + 1) f := by
  obtain ⟨i, hi, hop, -⟩ := h.head
  exact leadsTo_execute callee hi hop (by simp) rfl

/-- Saving the topmost value. -/
theorem leadsTo_storeLocal {slot : Local} {v : Value}
    (h : p.Holds pc ({ opcode := Opcode.stloc, operand := .local slot } :: code))
    (hlt : slot.index.toNat < f.locals.length) :
    LeadsTo callee p 1 pc (f.push v) (pc + 1)
      { f with locals := f.locals.set slot.index.toNat v } := by
  obtain ⟨i, hi, hop, hoperand⟩ := h.head_local
  have hslot : (f.push v).localSlot i none = .ok slot.index := by
    simp only [Frame.localSlot, hoperand]
    rfl
  have hset : f.setLocal i.opcode slot.index v =
      .ok { f with locals := f.locals.set slot.index.toNat v } := if_pos hlt
  refine leadsTo_execute callee hi hop (by simp) ?_
  refine bind_eq_ok_iff.2 ⟨slot.index, hslot, bind_eq_ok_iff.2 ⟨(v, f), rfl, ?_⟩⟩
  exact bind_eq_ok_iff.2 ⟨_, hset, rfl⟩

end

/-! ### Loading values -/

end Machine

/-- The frame with values pushed one after the other. -/
def Frame.pushAll (vs : List Value) (f : Frame) : Frame := { f with stack := vs.reverse ++ f.stack }

theorem Frame.pushAll_cons (v : Value) (vs : List Value) (f : Frame) :
    f.pushAll (v :: vs) = (f.push v).pushAll vs := by
  simp [Frame.pushAll, Frame.push]

theorem Frame.pushAll_append (vs ws : List Value) (f : Frame) :
    f.pushAll (vs ++ ws) = (f.pushAll vs).pushAll ws := by
  simp [Frame.pushAll]

/-- The values that were pushed are taken again. -/
theorem Frame.popMany_pushAll (vs : List Value) (f : Frame) (op : Opcode) :
    (f.pushAll vs).popMany op vs.length = .ok (vs, f) := by
  have hlength : vs.reverse.length = vs.length := List.length_reverse
  have hstack : (f.pushAll vs).stack = vs.reverse ++ f.stack := rfl
  rw [Frame.popMany, if_neg (by rw [hstack, List.length_append]; omega), hstack,
    ← hlength, List.take_left, List.drop_left, List.reverse_reverse]
  rfl

namespace Machine

section

variable (callee : Callee) {p : Program} {pc : Nat} {f : Frame}

theorem leadsTo_loadArguments {count : Nat} (h : p.Holds pc (Hooks.loadArguments count))
    (hcount : count ≤ f.args.length) (hslots : count ≤ 65536) :
    LeadsTo callee p count pc f (pc + count) (f.pushAll (f.args.take count)) := by
  induction count with
  | zero => exact .refl
  | succ count ih =>
    have hlt : count < f.args.length := by omega
    rw [Hooks.loadArguments, List.range_succ, List.map_append] at h
    have hlast := h.right
    rw [List.length_map, List.length_range] at hlast
    rw [List.take_add_one, List.getElem?_eq_getElem hlt, Frame.pushAll_append, Option.toList_some]
    refine (ih h.left (by omega) (by omega)).trans (leadsTo_loadArgument callee hlast ?_)
    rw [UInt16.toNat_ofNat_of_lt' (by show count < 65536; omega)]
    exact List.getElem?_eq_getElem hlt

theorem leadsTo_loadLocals {slots : List Local} {vs : List Value}
    (h : p.Holds pc (slots.map Hooks.loadResult))
    (hvs : List.Forall₂ (fun slot v => f.locals[slot.index.toNat]? = some v) slots vs) :
    LeadsTo callee p slots.length pc f (pc + slots.length) (f.pushAll vs) := by
  induction slots generalizing pc f vs with
  | nil =>
    cases hvs
    exact .refl
  | cons slot slots ih =>
    cases hvs with
    | @cons _ v _ vs hv hvs =>
      rw [Frame.pushAll_cons, List.length_cons, Nat.add_comm slots.length, ← Nat.add_assoc]
      exact (leadsTo_loadLocal callee h hv).trans (ih h.tail hvs)

end

end Machine

end MethodWeave
