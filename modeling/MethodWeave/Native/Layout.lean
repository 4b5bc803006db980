import MethodWeave.Native.Stream
/-!
Where the instructions of a native stream lie in the code, and in which form its branches are
written.

For one choice of forms the instructions lie one behind the other (`place`).  A short branch whose
target is out of reach strays; `settle` writes every straying branch in its long form and lays out
again until none strays.  Each round but the last widens a branch that was short, so there are at
most as many rounds as short branches, and one more.  Positions are plain numbers, which agree with
those of 32 bits as long as the whole code has less than `2 ^ 32` bytes.
-/

namespace MethodWeave

/-- Bytes of an instruction that is written with opcode `form`. -/
def NativeInstruction.sizeAs (i : NativeInstruction) (form : Opcode) : Nat :=
  form.size +
    match form.operandClass?.bind OperandClass.fixedSize? with
    | some n => n
    | none => 4 + 4 * i.operand.targets.length

/-- An instruction with the form it is written in and the bytes it takes. -/
structure Placed where
  insn : NativeInstruction
  form : Opcode
  start : Nat
  stop : Nat

/-- Lay out instructions one behind the other from `position` on. -/
def place (position : Nat) : List (NativeInstruction × Opcode) → List Placed
  | [] => []
  | (insn, form) :: rest =>
    let stop := position + insn.sizeAs form
    ⟨insn, form, position, stop⟩ :: place stop rest

@[simp] theorem length_place (position : Nat) (stream : List (NativeInstruction × Opcode)) :
    (place position stream).length = stream.length := by
  induction stream generalizing position with
  | nil => rfl
  | cons p rest ih => simp [place, ih]

/-- Placing keeps instructions, forms and their order. -/
theorem map_place (position : Nat) (stream : List (NativeInstruction × Opcode)) :
    (place position stream).map (fun p => (p.insn, p.form)) = stream := by
  induction stream generalizing position with
  | nil => rfl
  | cons p rest ih => simp [place, ih]

/-- The offset of every label: the start of the instruction that it marks. -/
def bindings (placed : List Placed) : List (NativeLabel × Nat) :=
  placed.flatMap fun p => p.insn.labels.map fun l => (l, p.start)

/-- Bytes of the whole code. -/
def codeSize (placed : List Placed) : Nat := ((placed.getLast?).map (·.stop)).getD 0

namespace Placed

/-- How far a label lies from the end of the instruction; `none` if nothing is marked by it. -/
def displacement? (p : Placed) (bound : List (NativeLabel × Nat)) (l : NativeLabel) : Option Int :=
  (bound.lookup l).map fun target => (target : Int) - p.stop

/-- Does an 8-bit displacement reach so far? -/
def inShortRange (d : Int) : Bool := -128 ≤ d && d ≤ 127

/-- Is this a short branch whose target is out of its reach? -/
def strays (p : Placed) (bound : List (NativeLabel × Nat)) : Bool :=
  match p.insn.operand with
  | .label l =>
    p.form.longForm?.isSome && !((p.displacement? bound l).map inShortRange).getD true
  | _ => false

/-- The instruction in the form for the next round. -/
def reformed (p : Placed) (bound : List (NativeLabel × Nat)) : NativeInstruction × Opcode :=
  (p.insn, if p.strays bound then p.form.widened else p.form)

end Placed

/-- Widen straying branches and lay out again, for a given number of rounds at most. -/
def settleWithin : Nat → List (NativeInstruction × Opcode) → List Placed
  | 0, stream => place 0 stream
  | rounds + 1, stream =>
    let placed := place 0 stream
    let bound := bindings placed
    if placed.any (·.strays bound) then settleWithin rounds (placed.map (·.reformed bound))
    else placed

/-- The instructions that are branches in short form. -/
def shortBranches (stream : List NativeInstruction) : List NativeInstruction :=
  stream.filter fun i => i.opcode.longForm?.isSome

/-- The layout in which no short branch with a marked target strays. -/
def settle (stream : List NativeInstruction) : List Placed :=
  settleWithin (shortBranches stream).length (stream.map fun i => (i, i.opcode))

end MethodWeave
