import MethodWeave.Proofs.Host.Balancing
/-!
The local slots that a generator hands out, and the slots that a run stores to.

A slot is numbered by the length that the list of locals has when it is declared, less the bits that
a slot number has no room for; nothing bounds the list.  A run changes only the slots that its
instructions name (`Frame.locals_of_step`, `Machine.Executes.locals_eq`), so whether a declared slot
is a variable of its own depends on its number alone.  Main result: `declareLocals_own_iff`, it is
one just as long as no bit of its number is lost.
-/

namespace MethodWeave

/-! ### Declared slots -/

namespace Generator

/-- Each type is a further local, in the order of the calls. -/
theorem locals_declareLocals (types : List TypeRef) (g : Generator) :
    (g.declareLocals types).2.locals = g.locals ++ types := by
  induction types generalizing g with
  | nil => exact (List.append_nil _).symm
  | cons type types ih =>
    show (declareLocals types (g.declareLocal type).2).2.locals = _
    rw [ih]
    exact List.append_assoc g.locals [type] types

/-- Each slot has the type it was declared with, and what 16 bits keep of its place. -/
theorem getElem?_declareLocals (types : List TypeRef) (g : Generator) (n : Nat) :
    (g.declareLocals types).1[n]? =
      types[n]?.map fun type => ⟨UInt16.ofNat (g.locals.length + n), type⟩ := by
  induction types generalizing g n with
  | nil => rfl
  | cons type types ih =>
    cases n with
    | zero => rfl
    | succ n =>
      show (declareLocals types (g.declareLocal type).2).1[n]? = _
      have hlength : (g.declareLocal type).2.locals.length + n = g.locals.length + (n + 1) := by
        show (g.locals ++ [type]).length + n = _
        rw [List.length_append, List.length_singleton, Nat.add_assoc, Nat.add_comm 1]
      rw [ih, hlength, List.getElem?_cons_succ]

end Generator

/-! ### The slot that an instruction stores to -/

/-- The slot that an instruction stores to: its opcode names it, or else its operand. -/
def Instruction.storedSlot? (i : Instruction) : Option UInt16 :=
  match Operation.ofOpcode? i.opcode with
  | some (.storeLocal slot?) => slot?.or (i.operand.local?.map (·.index))
  | _ => none

/-- The store to a local that its operand names. -/
def Instruction.storeTo (slot : Local) : Instruction :=
  { opcode := Opcode.stloc, operand := .local (some slot) }

theorem Instruction.storedSlot?_storeTo (slot : Local) :
    (storeTo slot).storedSlot? = some slot.index := by
  have hop : Operation.ofOpcode? (storeTo slot).opcode = some (.storeLocal none) := rfl
  rw [storedSlot?, hop]
  rfl

namespace Frame

variable {f g : Frame} {op : Opcode} {i : Instruction} {flow : Flow}

@[grind =]
theorem locals_push (v : Value) : (f.push v).locals = f.locals := rfl

@[grind →]
theorem locals_of_pop {v : Value} (h : f.pop op = .ok (v, g)) : g.locals = f.locals := by
  rw [eq_push_of_pop h, locals_push]

@[grind →]
theorem locals_of_setArgument {slot : UInt16} {v : Value} (h : f.setArgument op slot v = .ok g) :
    g.locals = f.locals := by
  rw [eq_of_setArgument h]

@[grind →]
theorem locals_of_onTwo {α : Type} {work : Value → Value → Except ValueError α} {a : α}
    (h : f.onTwo op work = .ok (a, g)) : g.locals = f.locals := by
  obtain ⟨b, c, rfl⟩ := eq_push_of_onTwo h
  rw [locals_push, locals_push]

/-- A slot that is found is the one that the opcode names, or else the operand. -/
theorem or_of_localSlot {slot? : Option UInt16} {slot : UInt16}
    (h : f.localSlot i slot? = .ok slot) :
    slot?.or (i.operand.local?.map (·.index)) = some slot := by
  cases slot? with
  | some _ => cases h; rfl
  | none =>
    simp only [localSlot] at h
    cases hslot : i.operand.local?.map (·.index) <;> rw [hslot] at h <;> cases h
    rfl

/-- An operation that stores to a local stores to the slot that its instruction names. -/
theorem locals_of_storeLocal {slot? : Option UInt16}
    (h : f.execute i (.storeLocal slot?) = .ok (g, flow)) :
    ∃ slot v, slot?.or (i.operand.local?.map (·.index)) = some slot ∧
      g.locals = f.locals.set slot.toNat v := by
  simp only [execute, bind_eq_ok_iff, pure_eq_ok_iff, Prod.exists] at h
  obtain ⟨slot, hslot, v, f₁, hv, f₂, hset, heq⟩ := h
  cases heq
  exact ⟨slot, v, or_of_localSlot hslot, by rw [eq_of_setLocal hset, locals_of_pop hv]⟩

/-- Every other operation leaves the locals as they are. -/
theorem locals_of_execute {operation : Operation} (h : f.execute i operation = .ok (g, flow))
    (hstore : ∀ slot?, operation ≠ .storeLocal slot?) : g.locals = f.locals := by
  -- an operation is a chain of accesses to the frame, and each access has its own lemma
  cases operation with
  | storeLocal slot? => exact absurd rfl (hstore slot?)
  | switch =>
    simp only [execute_switch, bind_eq_ok_iff, Prod.exists] at h
    obtain ⟨v, f₁, hv, hflow⟩ := h
    rw [eq_of_throughTable hflow, locals_of_pop hv]
  | ret =>
    simp only [execute_ret, bind_eq_ok_iff, pure_eq_ok_iff, Prod.exists] at h
    obtain ⟨f₁, v?, hresult, heq⟩ := h
    cases heq
    obtain rfl | ⟨v, rfl⟩ := eq_or_eq_push_of_result hresult <;> rfl
  | call => cases h
  | throw =>
    simp only [execute, bind_eq_ok_iff] at h
    obtain ⟨_, _, h⟩ := h
    cases h
  | _ =>
    simp only [execute, bind_eq_ok_iff, pure_eq_ok_iff, Prod.exists] at h
    grind

end Frame

namespace Machine

variable {callee : Callee} {p : Program} {pc pc' : Nat} {f g f' : Frame} {i : Instruction}
  {flow : Flow} {t u t' : Trace} {is : List Instruction} {k : Nat}

/-- A call leaves the locals of the caller as they are, whatever answers it. -/
theorem locals_of_callStep (h : (callStep callee f i).run t = (.ok (g, flow), u)) :
    g.locals = f.locals := by
  obtain ⟨m, args, f₁, v, -, hargs, rfl⟩ := eq_of_callStep h
  rw [(Frame.eq_of_popMany hargs).2]
  split <;> rfl

/-- **A step keeps every local but the one that its instruction stores to.** -/
theorem locals_of_step (h : (step callee f i).run t = (.ok (g, flow), u))
    (hk : ∀ slot ∈ i.storedSlot?, slot.toNat ≠ k) : g.locals[k]? = f.locals[k]? := by
  unfold step at h
  unfold Instruction.storedSlot? at hk
  split at h
  · cases h
  · rw [locals_of_callStep h]
  · next operation hcall hop =>
    have hexecute := ExecM.eq_ok_of_run_ofExcept h
    cases operation with
    | storeLocal slot? =>
      obtain ⟨slot, v, hslot, hlocals⟩ := Frame.locals_of_storeLocal hexecute
      rw [hop] at hk
      rw [hlocals, List.getElem?_set_ne (hk slot hslot)]
    | _ => rw [Frame.locals_of_execute hexecute nofun]

/-- **A run keeps every local that none of its instructions stores to.** -/
theorem Executes.locals_eq (h : Executes callee p pc f t is pc' f' t')
    (hk : ∀ i ∈ is, ∀ slot ∈ i.storedSlot?, slot.toNat ≠ k) : f'.locals[k]? = f.locals[k]? := by
  induction h with
  | refl => rfl
  | step hi hstep hnext hrest ih =>
    rw [List.forall_mem_cons] at hk
    rw [ih hk.2, locals_of_step hstep hk.1]

/-- A store through a local operand puts the topmost value into its slot. -/
theorem step_storeTo {slot : Local} {v : Value} {rest : List Value} (hstack : f.stack = v :: rest)
    (hslot : slot.index.toNat < f.locals.length) :
    (step callee f (.storeTo slot)).run t =
      (.ok ({ f with locals := f.locals.set slot.index.toNat v, stack := rest }, .next), t) := by
  obtain ⟨method, args, locals, stack⟩ := f
  cases hstack
  have hset : Frame.setLocal ⟨method, args, locals, rest⟩ Opcode.stloc slot.index v =
      .ok ⟨method, args, locals.set slot.index.toNat v, rest⟩ := if_pos hslot
  show (ExecM.ofExcept ((Frame.setLocal ⟨method, args, locals, rest⟩ Opcode.stloc slot.index v) >>=
    fun g => pure (g, Flow.next))).run t = _
  rw [hset]
  rfl

/-- The run of that store alone. -/
theorem executes_storeTo {slot : Local} {v : Value} {rest : List Value}
    (hi : p.code[pc]? = some (.storeTo slot)) (hstack : f.stack = v :: rest)
    (hslot : slot.index.toNat < f.locals.length) :
    Executes callee p pc f t [.storeTo slot] (pc + 1)
      { f with locals := f.locals.set slot.index.toNat v, stack := rest }
      (traceStep f.method pc (.storeTo slot) t) :=
  .step hi (step_storeTo hstack hslot) rfl .refl

end Machine

/-! ### Variables of their own -/

/-- Every run that stores through this slot only keeps every variable but the one at `place`. -/
def Local.StoresAlone (slot : Local) (place : Nat) : Prop :=
  ∀ (callee : Callee) (p : Machine.Program) (pc pc' : Nat) (f f' : Frame) (t t' : Trace)
    (is : List Instruction), Machine.Executes callee p pc f t is pc' f' t' →
      (∀ i ∈ is, ∀ index ∈ i.storedSlot?, index = slot.index) →
        ∀ k, k ≠ place → f'.locals[k]? = f.locals[k]?

/-- The number of a slot decides which variable it is. -/
theorem Local.storesAlone_iff {slot : Local} {place : Nat} :
    slot.StoresAlone place ↔ slot.index.toNat = place := by
  constructor
  · intro h
    by_contra hplace
    -- one store to the slot changes the variable at its number
    have hslot : slot.index.toNat < (List.replicate (slot.index.toNat + 1) Value.null).length := by
      rw [List.length_replicate]
      exact Nat.lt_succ_self _
    have hcode : (Machine.Program.ofInstructions [.storeTo slot]).code[0]? =
        some (.storeTo slot) := rfl
    have hrun (callee : Callee) : Machine.Executes callee _ _ _ _ _ _ _ _ :=
      Machine.executes_storeTo (t := {})
        (f := ⟨default, [], List.replicate (slot.index.toNat + 1) .null, [.int32 1]⟩)
        hcode rfl hslot
    have hkept := h _ _ _ _ _ _ _ _ _ (hrun fun _ _ => pure none)
      (by simp [Instruction.storedSlot?_storeTo]) _ hplace
    rw [List.getElem?_set_self hslot, List.getElem?_replicate_of_lt (Nat.lt_succ_self _)] at hkept
    cases hkept
  · rintro rfl callee p pc pc' f f' t t' is hrun hstores k hk
    refine hrun.locals_eq fun i hi index hindex heq => hk ?_
    rw [← heq, hstores i hi index hindex]

/-- The slot handed out by call `n` is a variable of its own, in a body that had the locals
`existing` and got the locals of the generator: no variable that existed and no slot declared before
has its number, its number is that of a local of its type, and stores to it change no variable but
the one it was declared as. -/
structure Generator.OwnVariable (g : Generator) (existing : List TypeRef) (slots : List Local)
    (n : Nat) (slot : Local) : Prop where
  apart : ∀ k < existing.length, slot.index.toNat ≠ k
  apart_earlier : ∀ earlier ∈ slots.take n, slot.index ≠ earlier.index
  typed : g.locals[slot.index.toNat]? = some slot.type
  stores : slot.StoresAlone (existing.length + n)

namespace Generator

variable {existing types : List TypeRef} {n : Nat} {slot : Local}

/-- What a slot is that was handed out: its type is the declared one, and its number what 16 bits
keep of its place among the locals. -/
theorem of_getElem?_declareLocals
    (h : ((withLocals existing).declareLocals types).1[n]? = some slot) :
    types[n]? = some slot.type ∧ slot.index.toNat = (existing.length + n) % 65536 := by
  rw [getElem?_declareLocals, Option.map_eq_some_iff] at h
  obtain ⟨type, htype, rfl⟩ := h
  exact ⟨htype, UInt16.toNat_ofNat'⟩

/-- With room for its number, a slot is a variable of its own. -/
theorem ownVariable_of_lt (h : ((withLocals existing).declareLocals types).1[n]? = some slot)
    (hroom : existing.length + n < 65536) :
    ((withLocals existing).declareLocals types).2.OwnVariable existing
      ((withLocals existing).declareLocals types).1 n slot := by
  obtain ⟨htype, hindex⟩ := of_getElem?_declareLocals h
  rw [Nat.mod_eq_of_lt hroom] at hindex
  constructor
  · intro k hk
    omega
  · intro earlier hearlier heq
    obtain ⟨m, hm⟩ := List.mem_iff_getElem?.1 hearlier
    have hlt : m < n :=
      Nat.lt_of_lt_of_le (List.getElem?_eq_some_iff.1 hm).1 (List.length_take_le _ _)
    rw [List.getElem?_take_of_lt hlt] at hm
    have hnumber := (of_getElem?_declareLocals hm).2
    rw [← heq, hindex, Nat.mod_eq_of_lt (by omega)] at hnumber
    omega
  · rw [hindex, locals_declareLocals]
    show (existing ++ types)[existing.length + n]? = _
    rw [List.getElem?_append_right (Nat.le_add_right _ _), Nat.add_sub_cancel_left, htype]
  · exact Local.storesAlone_iff.2 hindex

/-- Without room for its number, a slot has the number of a variable that existed or of a slot
declared before. -/
theorem taken_of_le (h : ((withLocals existing).declareLocals types).1[n]? = some slot)
    (hroom : 65536 ≤ existing.length + n) :
    slot.index.toNat < existing.length ∨
      ∃ earlier ∈ ((withLocals existing).declareLocals types).1.take n,
        earlier.index = slot.index := by
  obtain ⟨-, hindex⟩ := of_getElem?_declareLocals h
  have hn : n < types.length := (List.getElem?_eq_some_iff.1 (of_getElem?_declareLocals h).1).1
  by_cases hexisting : slot.index.toNat < existing.length
  · exact Or.inl hexisting
  · -- the place with that number is the one of an earlier call
    obtain ⟨m, hm⟩ := Nat.exists_eq_add_of_le (Nat.le_of_not_lt hexisting)
    have hlt : m < n := by
      have := Nat.mod_lt (existing.length + n) (by decide : 65536 > 0)
      omega
    have hearlier := getElem?_declareLocals types (withLocals existing) m
    rw [List.getElem?_eq_getElem (Nat.lt_trans hlt hn), Option.map_some] at hearlier
    refine Or.inr ⟨_, List.mem_of_getElem? ((List.getElem?_take_of_lt hlt).trans hearlier), ?_⟩
    show UInt16.ofNat (existing.length + m) = _
    rw [← hm, UInt16.ofNat_toNat]

/-- **A declared slot is a variable of its own just as long as 16 bits hold its number.**  From then
on its number is that of a variable that existed, or of one declared before. -/
theorem declareLocals_own_iff (existing : List TypeRef) (hn : n < types.length) :
    let r := (withLocals existing).declareLocals types
    ∃ slot, r.1[n]? = some slot ∧ types[n]? = some slot.type ∧
      (r.2.OwnVariable existing r.1 n slot ↔ existing.length + n < 65536) ∧
      (65536 ≤ existing.length + n → slot.index.toNat < existing.length ∨
        ∃ earlier ∈ r.1.take n, earlier.index = slot.index) := by
  intro r
  have hslot := getElem?_declareLocals types (withLocals existing) n
  rw [List.getElem?_eq_getElem hn, Option.map_some] at hslot
  refine ⟨_, hslot, List.getElem?_eq_getElem hn, ⟨fun hown => ?_, ownVariable_of_lt hslot⟩,
    taken_of_le hslot⟩
  rw [← Local.storesAlone_iff.1 hown.stores]
  exact UInt16.toNat_lt _

def stringType : TypeRef := ⟨.ofRow Token.typeDefTable 3, "System.String"⟩

/-- In a body with one local, the second further one is a variable of its own. -/
theorem ownVariable_second :
    let r := (withLocals [.int32]).declareLocals [stringType, .int32]
    1 < [stringType, .int32].length ∧
      r.1 = [⟨1, stringType⟩, ⟨2, .int32⟩] ∧
      r.2.OwnVariable [.int32] r.1 1 ⟨2, .int32⟩ := by
  intro r
  have hn : 1 < [stringType, .int32].length := by decide
  refine ⟨hn, rfl, ?_⟩
  obtain ⟨slot, hslot, -, hown, -⟩ := declareLocals_own_iff [.int32] hn
  cases hslot
  exact hown.2 (by decide)

/-- Behind 65536 locals, a declared slot is the first of them: it has its number and not its own
type, and a store to it overwrites that variable. -/
theorem declareLocals_behind_full :
    let existing := List.replicate 65536 .int32
    let r := (withLocals existing).declareLocals [stringType]
    let slot : Local := ⟨0, stringType⟩
    let f : Frame :=
      { method := default, args := [], locals := List.replicate 65537 (.int32 1), stack := [.null] }
    let g : Frame := { f with locals := f.locals.set 0 .null, stack := [] }
    r.1 = [slot] ∧ existing[0]? = some .int32 ∧ r.2.locals[0]? = some .int32 ∧
      ¬ r.2.OwnVariable existing r.1 0 slot ∧
      (Machine.step (fun _ _ => pure none) f (.storeTo slot)).run {} = (.ok (g, .next), {}) ∧
      f.locals[0]? = some (.int32 1) ∧ g.locals[0]? = some .null := by
  intro existing r slot f g
  have hlength : existing.length = 65536 := List.length_replicate
  have hfirst : existing[0]? = some .int32 := List.getElem?_replicate_of_lt (by decide)
  have hlocals : f.locals.length = 65537 := List.length_replicate
  have hslot : slot.index.toNat < f.locals.length := by rw [hlocals]; decide
  refine ⟨?_, hfirst, ?_, ?_, Machine.step_storeTo rfl hslot,
    List.getElem?_replicate_of_lt (by decide), List.getElem?_set_self hslot⟩
  · show [Local.mk (UInt16.ofNat existing.length) stringType] = _
    rw [hlength]
    rfl
  · rw [locals_declareLocals]
    show (existing ++ [stringType])[0]? = _
    rw [List.getElem?_append_left (by rw [hlength]; decide), hfirst]
  · intro hown
    exact hown.apart 0 (by rw [hlength]; decide) rfl

end Generator

end MethodWeave
