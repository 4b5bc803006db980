import Mathlib.Tactic.FinCases
import MethodWeave.Host.Machine
import MethodWeave.Proofs.Outcome
/-!
Branches that compare.

Ten branches compare the two topmost values themselves, where a program could also compare them and
then branch on the answer.  There is not a comparison for every branch: those on `≤` and `≥` are
taken when a comparison for `>` or `<` answers no (`fusions`).  On floating-point values that is the
comparison of the other form, since the unsigned forms of branches and comparisons alike say yes of
unordered values.

Main result: on all pairs of values, such a branch is the comparison that decides it and a branch on
the answer, and it fails on the pairs that the comparison fails on, naming the same type
(`Fusion.laws_of_mem`).
-/

namespace MethodWeave

namespace Opcode

def brfalse : Opcode := ⟨0x39⟩
def brtrue : Opcode := ⟨0x3a⟩
def beq : Opcode := ⟨0x3b⟩
def bge : Opcode := ⟨0x3c⟩
def bgt : Opcode := ⟨0x3d⟩
def ble : Opcode := ⟨0x3e⟩
def blt : Opcode := ⟨0x3f⟩
def bneUn : Opcode := ⟨0x40⟩
def bgeUn : Opcode := ⟨0x41⟩
def bgtUn : Opcode := ⟨0x42⟩
def bleUn : Opcode := ⟨0x43⟩
def bltUn : Opcode := ⟨0x44⟩
def ceq : Opcode := ⟨0xfe01⟩
def cgt : Opcode := ⟨0xfe02⟩
def cgtUn : Opcode := ⟨0xfe03⟩
def clt : Opcode := ⟨0xfe04⟩
def cltUn : Opcode := ⟨0xfe05⟩

end Opcode

/-! ### Branches and the comparisons that they fuse -/

/-- A branch that compares, and what decides it: a comparison and the answer that takes the
branch. -/
structure Fusion where
  branch : Opcode
  onIntegers : Opcode × Bool
  onFloats : Opcode × Bool
deriving DecidableEq

/-- The branches that compare. -/
def fusions : List Fusion :=
  [⟨.beq, (.ceq, true), (.ceq, true)⟩,
    ⟨.bneUn, (.ceq, false), (.ceq, false)⟩,
    ⟨.bgt, (.cgt, true), (.cgt, true)⟩,
    ⟨.bgtUn, (.cgtUn, true), (.cgtUn, true)⟩,
    ⟨.blt, (.clt, true), (.clt, true)⟩,
    ⟨.bltUn, (.cltUn, true), (.cltUn, true)⟩,
    ⟨.bge, (.clt, false), (.cltUn, false)⟩,
    ⟨.bgeUn, (.cltUn, false), (.clt, false)⟩,
    ⟨.ble, (.cgt, false), (.cgtUn, false)⟩,
    ⟨.bleUn, (.cgtUn, false), (.cgt, false)⟩]

example : fusions.map (fun fusion =>
      [fusion.branch, fusion.onIntegers.1, fusion.onFloats.1].map Opcode.mnemonic) =
    [["beq", "ceq", "ceq"], ["bne.un", "ceq", "ceq"], ["bgt", "cgt", "cgt"],
      ["bgt.un", "cgt.un", "cgt.un"], ["blt", "clt", "clt"], ["blt.un", "clt.un", "clt.un"],
      ["bge", "clt", "clt.un"], ["bge.un", "clt.un", "clt"], ["ble", "cgt", "cgt.un"],
      ["ble.un", "cgt.un", "cgt"]] := by
  decide +kernel

/-! ### Comparisons of values -/

namespace Value

/-- Are both values floating-point values? -/
def areFloats : Value → Value → Bool
  | .float _, .float _ => true
  | _, _ => false

/-- Only floating-point values can be unordered, and they have no unsigned form. -/
theorem compare?_cases (a b : Value) :
    (a.areFloats b = true ∧ ∃ o?, ∀ isUnsigned, a.compare? b isUnsigned = .ok o?) ∨
      (a.areFloats b = false ∧ ∀ isUnsigned, ∃ o, a.compare? b isUnsigned = .ok (some o)) ∨
      (a.areFloats b = false ∧
        ∀ isUnsigned, a.compare? b isUnsigned = .error (.mismatch (a.misfit b))) := by
  cases a with
  | int32 x =>
    cases b with
    | int32 y => exact .inr (.inl ⟨rfl, fun _ => ⟨_, rfl⟩⟩)
    | _ => exact .inr (.inr ⟨rfl, fun _ => rfl⟩)
  | int64 x =>
    cases b with
    | int64 y => exact .inr (.inl ⟨rfl, fun _ => ⟨_, rfl⟩⟩)
    | _ => exact .inr (.inr ⟨rfl, fun _ => rfl⟩)
  | float x =>
    cases b with
    | float y => exact .inl ⟨rfl, _, fun _ => rfl⟩
    | _ => exact .inr (.inr ⟨rfl, fun _ => rfl⟩)
  | null | string _ => exact .inr (.inr ⟨rfl, fun _ => rfl⟩)

theorem equals_cases (a b : Value) :
    (∃ answer, a.equals b = .ok answer) ∨ a.equals b = .error (.mismatch (a.misfit b)) := by
  cases a <;> cases b <;> first | exact .inl ⟨_, rfl⟩ | exact .inr rfl

end Value

namespace Relation

/-- Whether values can be tested does not depend on the relation. -/
theorem test_cases (a b : Value) :
    (∀ (r : Relation) isUnsigned, ∃ answer, r.test isUnsigned a b = .ok answer) ∨
      ∀ (r : Relation) isUnsigned, r.test isUnsigned a b = .error (.mismatch (a.misfit b)) := by
  obtain ⟨-, o?, hcompare⟩ | ⟨-, hcompare⟩ | ⟨-, hcompare⟩ := a.compare?_cases b
  · exact .inl fun r isUnsigned => ⟨_, by rw [test, hcompare]; rfl⟩
  · refine .inl fun r isUnsigned => ?_
    obtain ⟨o, ho⟩ := hcompare isUnsigned
    exact ⟨_, by rw [test, ho]; rfl⟩
  · exact .inr fun r isUnsigned => by rw [test, hcompare]; rfl

/-- The negation of a relation is decided by the relation, in its other form on floating-point
values. -/
theorem test_of_holds_not {r r' : Relation} (hnot : ∀ o, r.holds o = !r'.holds o)
    (isUnsigned : Bool) (a b : Value) :
    r.test isUnsigned a b = (r'.test (isUnsigned != a.areFloats b) a b).map (!·) := by
  obtain ⟨hfloats, o?, hcompare⟩ | ⟨hfloats, hcompare⟩ | ⟨hfloats, hcompare⟩ := a.compare?_cases b
  · rw [test, test, hcompare, hcompare, hfloats]
    cases o? with
    | none =>
      -- unordered: each form answers for itself, and here the forms differ
      cases isUnsigned <;> rfl
    | some o => exact congrArg Except.ok (hnot o)
  · obtain ⟨o, ho⟩ := hcompare isUnsigned
    rw [hfloats, Bool.bne_false, test, test, ho]
    exact congrArg Except.ok (hnot o)
  · rw [test, test, hcompare, hcompare]
    rfl

end Relation

/-- What is asked of two values. -/
inductive Comparison where
  | equal
  | relation (r : Relation) (isUnsigned : Bool)
deriving DecidableEq

namespace Comparison

def test : Comparison → Value → Value → Except ValueError Bool
  | .equal => Value.equals
  | .relation r isUnsigned => r.test isUnsigned

/-- A comparison and the answer that is asked for, without `≤` and `≥`. -/
def decided (floats : Bool) : Comparison × Bool → Comparison × Bool
  | (.relation .greaterEqual isUnsigned, answer) =>
    (.relation .less (isUnsigned != floats), !answer)
  | (.relation .lessEqual isUnsigned, answer) =>
    (.relation .greater (isUnsigned != floats), !answer)
  | x => x

theorem test_cases (c : Comparison) (a b : Value) :
    (∃ answer, c.test a b = .ok answer) ∨ c.test a b = .error (.mismatch (a.misfit b)) := by
  cases c with
  | equal => exact a.equals_cases b
  | relation r isUnsigned =>
    obtain hok | herror := Relation.test_cases a b
    · exact .inl (hok r isUnsigned)
    · exact .inr (herror r isUnsigned)

/-- On floating-point values and on others, the two are answered as asked together. -/
theorem test_decided (x : Comparison × Bool) (a b : Value) :
    (x.1.test a b).map (· == x.2) =
      ((decided (a.areFloats b) x).1.test a b).map (· == (decided (a.areFloats b) x).2) := by
  have hnegate : ∀ (y : Except ValueError Bool) (answer : Bool),
      (y.map (!·)).map (· == answer) = y.map (· == !answer) := by
    rintro (e | r) answer
    · rfl
    · cases r <;> cases answer <;> rfl
  obtain ⟨c, answer⟩ := x
  rcases c with - | ⟨r, isUnsigned⟩
  · rfl
  · cases r with
    | less | greater => rfl
    | lessEqual =>
      have hnot (o : Ordering) : Relation.lessEqual.holds o = !Relation.greater.holds o := rfl
      have htest := Relation.test_of_holds_not hnot isUnsigned a b
      exact (congrArg _ htest).trans (hnegate _ _)
    | greaterEqual =>
      have hnot (o : Ordering) : Relation.greaterEqual.holds o = !Relation.less.holds o := rfl
      have htest := Relation.test_of_holds_not hnot isUnsigned a b
      exact (congrArg _ htest).trans (hnegate _ _)

/-- The two fail together, whichever form is taken. -/
theorem test_decided_eq_error_iff (x : Comparison × Bool) (floats : Bool) (a b : Value)
    (e : ValueError) :
    (decided floats x).1.test a b = .error e ↔ x.1.test a b = .error e := by
  obtain ⟨c, answer⟩ := x
  rcases c with - | ⟨r, isUnsigned⟩
  · rfl
  · -- another relation is asked for, in a form that depends on the values
    obtain ⟨r', isUnsigned', hdecided⟩ : ∃ r' isUnsigned',
        (decided floats (.relation r isUnsigned, answer)).1 = .relation r' isUnsigned' := by
      cases r <;> exact ⟨_, _, rfl⟩
    rw [hdecided, test, test]
    obtain hok | herror := Relation.test_cases a b
    · obtain ⟨_, h⟩ := hok r isUnsigned
      obtain ⟨_, h'⟩ := hok r' isUnsigned'
      rw [h, h']
      exact ⟨nofun, nofun⟩
    · rw [herror, herror]

end Comparison

/-! ### The instructions -/

namespace ExecM

variable {α : Type} {x y : α}

theorem pure_inj : (pure x : ExecM α) = pure y ↔ x = y := by
  refine ⟨fun h => ?_, congrArg pure⟩
  have hrun := congrFun (congrArg ExceptT.run h) {}
  cases hrun
  rfl

theorem pure_ne_fail {e : ExecError} : (pure x : ExecM α) ≠ fail e := fun h => by
  have hrun := congrFun (congrArg ExceptT.run h) {}
  cases hrun

theorem fail_inj {e e' : ExecError} : (fail e : ExecM α) = fail e' ↔ e = e' := by
  refine ⟨fun h => ?_, congrArg fail⟩
  have hrun := congrFun (congrArg ExceptT.run h) {}
  cases hrun
  rfl

end ExecM

namespace Operation

/-- What an operation pushes the answer of. -/
def comparison? : Operation → Option Comparison
  | .testEqual => some .equal
  | .test r isUnsigned => some (.relation r isUnsigned)
  | _ => none

/-- What a branch asks, and the answer that takes it. -/
def branchComparison? : Operation → Option (Comparison × Bool)
  | .branchEqual equal => some (.equal, equal)
  | .branchTest r isUnsigned => some (.relation r isUnsigned, true)
  | _ => none

end Operation

namespace Fusion

/-- What decides the branch on values that are floating-point values or not. -/
def column (fusion : Fusion) (floats : Bool) : Opcode × Bool :=
  if floats then fusion.onFloats else fusion.onIntegers

/-- What decides the branch on two values. -/
def decision (fusion : Fusion) (a b : Value) : Opcode × Bool := fusion.column (a.areFloats b)

/-- The fusions fit what the machine executes. -/
theorem column_of_mem {fusion : Fusion} (hmem : fusion ∈ fusions) :
    ∃ x, (Operation.ofCode? fusion.branch.code).bind Operation.branchComparison? = some x ∧
      ∀ floats, (Operation.ofOpcode? (fusion.column floats).1).bind Operation.comparison? =
          some (Comparison.decided floats x).1 ∧
        (fusion.column floats).2 = (Comparison.decided floats x).2 := by
  fin_cases hmem <;> exact ⟨_, rfl, by decide⟩

end Fusion

namespace Frame

variable {f : Frame} {a b : Value} {i : Instruction} {l : Label}

theorem onTwo_push_push {α : Type} (op : Opcode) (work : Value → Value → Except ValueError α) :
    ((f.push a).push b).onTwo op work = (f.arithmetic op (work a b)).map (·, f) := by
  show (do let r ← f.arithmetic op (work a b); pure (r, f)) = _
  cases f.arithmetic op (work a b) <;> rfl

theorem branch_of_label? (hlabel : i.operand.label? = some l) (taken : Bool) :
    f.branch i taken = .ok (f, if taken then .jump l else .next) := by
  cases taken with
  | false => rfl
  | true =>
    rw [Frame.branch, if_pos rfl, hlabel]
    rfl

end Frame

namespace Machine

/-- A step on two values. -/
def stepOn (callee : Callee) (f : Frame) (a b : Value) (i : Instruction) : ExecM (Frame × Flow) :=
  step callee ((f.push a).push b) i

variable (callee : Callee) (f : Frame) (a b : Value) {i : Instruction} {l : Label}

/-- A comparison pushes its answer. -/
theorem stepOn_comparison {c : Comparison}
    (hop : (Operation.ofOpcode? i.opcode).bind Operation.comparison? = some c) :
    stepOn callee f a b i =
      ExecM.ofExcept ((f.arithmetic i.opcode (c.test a b)).map fun r =>
        (f.push (.ofBool r), .next)) := by
  obtain ⟨operation, hoperation, hc⟩ := Option.bind_eq_some_iff.1 hop
  cases operation with
  | testEqual | test r isUnsigned =>
    cases hc
    simp only [stepOn, step, hoperation, Frame.execute, Frame.onTwo_push_push, Comparison.test]
    cases f.arithmetic i.opcode _ <;> rfl
  | _ => cases hc

/-- A branch that compares pushes nothing. -/
theorem stepOn_branchComparison {x : Comparison × Bool}
    (hop : (Operation.ofOpcode? i.opcode).bind Operation.branchComparison? = some x)
    (hlabel : i.operand.label? = some l) :
    stepOn callee f a b i =
      ExecM.ofExcept ((f.arithmetic i.opcode (x.1.test a b)).map fun r =>
        (f, if r == x.2 then .jump l else .next)) := by
  have hbranch := Frame.branch_of_label? (f := f) hlabel
  obtain ⟨operation, hoperation, hx⟩ := Option.bind_eq_some_iff.1 hop
  cases operation with
  | branchEqual _ | branchTest r isUnsigned =>
    cases hx
    simp only [stepOn, step, hoperation, Frame.execute, Frame.onTwo_push_push, Comparison.test,
      beq_true]
    cases f.arithmetic i.opcode _ with
    | error e => rfl
    | ok r => exact congrArg ExecM.ofExcept (hbranch _)
  | _ => cases hx

/-- A branch on a truth value goes by it. -/
theorem step_branchIf {truth : Bool} (hop : Operation.ofOpcode? i.opcode = some (.branchIf truth))
    (hlabel : i.operand.label? = some l) (r : Bool) :
    step callee (f.push (.ofBool r)) i = pure (f, if r == truth then .jump l else .next) := by
  have htruth : (Value.ofBool r).isTruthy = r := by cases r <;> rfl
  have hbranch := Frame.branch_of_label? (f := f) hlabel (r == truth)
  simp only [step, hop, Frame.execute]
  show ExecM.ofExcept (f.branch i ((Value.ofBool r).isTruthy == truth)) = _
  rw [htruth, hbranch]
  rfl

/-- A branch and what decides it come to one answer, or fail alike. -/
theorem stepOn_cases {fusion : Fusion} (hmem : fusion ∈ fusions)
    (hi : i.opcode.widened = fusion.branch) (hlabel : i.operand.label? = some l) :
    (∃ r, stepOn callee f a b i =
          pure (f, if r == (fusion.decision a b).2 then .jump l else .next) ∧
        (∀ j : Instruction, j.opcode = (fusion.decision a b).1 →
          stepOn callee f a b j = pure (f.push (.ofBool r), .next)) ∧
        ∀ (j : Instruction) floats, j.opcode = (fusion.column floats).1 →
          ∃ r', stepOn callee f a b j = pure (f.push (.ofBool r'), .next)) ∨
      (stepOn callee f a b i =
          ExecM.fail (.typeMismatch f.method i.opcode (a.misfit b).typeName) ∧
        ∀ (j : Instruction) floats, j.opcode = (fusion.column floats).1 →
          stepOn callee f a b j =
            ExecM.fail (.typeMismatch f.method j.opcode (a.misfit b).typeName)) := by
  obtain ⟨x, hx, hcolumn⟩ := Fusion.column_of_mem hmem
  -- the branch, widened or not, tests what the two columns test
  have hop : (Operation.ofOpcode? i.opcode).bind Operation.branchComparison? = some x := by
    rw [Operation.ofOpcode?, hi, hx]
  have hstep := stepOn_branchComparison callee f a b hop hlabel
  have hcomparison (j : Instruction) (floats : Bool) (hj : j.opcode = (fusion.column floats).1) :=
    stepOn_comparison callee f a b (hj ▸ (hcolumn floats).1)
  have herror_iff := fun floats => Comparison.test_decided_eq_error_iff x floats a b
  obtain ⟨r', hr'⟩ | herror := x.1.test_cases a b
  · -- the comparison in the other column does not fail either
    have hok (floats : Bool) : ∃ r, (Comparison.decided floats x).1.test a b = .ok r := by
      refine ((Comparison.decided floats x).1.test_cases a b).resolve_right fun herror => ?_
      rw [(herror_iff floats _).1 herror] at hr'
      cases hr'
    have htest := Comparison.test_decided x a b
    obtain ⟨r, hr⟩ := hok (a.areFloats b)
    rw [hr, hr'] at htest
    refine .inl ⟨r, ?_, fun j hj => ?_, fun j floats hj => ?_⟩
    · rw [hstep, hr', Fusion.decision, (hcolumn _).2]
      exact congrArg (fun taken => pure (f, if taken = true then Flow.jump l else .next))
        (Except.ok.inj htest)
    · rw [hcomparison j _ hj, hr]
      rfl
    · obtain ⟨r, hr⟩ := hok floats
      exact ⟨r, by rw [hcomparison j floats hj, hr]; rfl⟩
  · refine .inr ⟨by rw [hstep, herror]; rfl, fun j floats hj => ?_⟩
    rw [hcomparison j floats hj, (herror_iff floats _).2 herror]
    rfl

end Machine

namespace Fusion

open Machine

/-! ### What a branch is held to -/

/-- What a branch that compares owes to the comparison that decides it. -/
structure Laws (fusion : Fusion) (callee : Callee) (f : Frame) (a b : Value) (i : Instruction)
    (l : Label) : Prop where
  /-- The branch is taken just if the comparison pushes the answer. -/
  taken_iff : ∀ j : Instruction, j.opcode = (fusion.decision a b).1 →
    (stepOn callee f a b i = pure (f, .jump l) ↔
      stepOn callee f a b j =
        pure (f.push (.ofBool (fusion.decision a b).2), .next))
  /-- The branch is passed just if the comparison pushes the other answer. -/
  passed_iff : ∀ j : Instruction, j.opcode = (fusion.decision a b).1 →
    (stepOn callee f a b i = pure (f, .next) ↔
      stepOn callee f a b j =
        pure (f.push (.ofBool !(fusion.decision a b).2), .next))
  /-- The branch fails just if the comparison does, in either form, and both name one type. -/
  failed_iff : ∀ (j : Instruction) floats, j.opcode = (fusion.column floats).1 → ∀ found,
    (stepOn callee f a b i = ExecM.fail (.typeMismatch f.method i.opcode found) ↔
      stepOn callee f a b j = ExecM.fail (.typeMismatch f.method j.opcode found))
  /-- Nothing else happens. -/
  ends : stepOn callee f a b i = pure (f, .jump l) ∨
    stepOn callee f a b i = pure (f, .next) ∨
    stepOn callee f a b i =
      ExecM.fail (.typeMismatch f.method i.opcode (a.misfit b).typeName)
  /-- The branch is the comparison and a branch on its answer. -/
  split : ∀ j k : Instruction, j.opcode = (fusion.decision a b).1 →
    k.opcode.widened = (if (fusion.decision a b).2 then .brtrue else .brfalse) →
    k.operand.label? = some l → ∀ x,
      (stepOn callee f a b i = pure x ↔
        (do
          let (g, _) ← stepOn callee f a b j
          step callee g k) = pure x)

variable {fusion : Fusion} {callee : Callee} {f : Frame} {a b : Value} {i j : Instruction}
  {l : Label}

/-- Taken or not, the branch follows the answer of the comparison. -/
theorem stepOn_eq_pure_iff (hmem : fusion ∈ fusions) (hi : i.opcode.widened = fusion.branch)
    (hlabel : i.operand.label? = some l) (hj : j.opcode = (fusion.decision a b).1)
    (taken : Bool) :
    stepOn callee f a b i = pure (f, if taken then .jump l else .next) ↔
      stepOn callee f a b j =
        pure (f.push (.ofBool (taken == (fusion.decision a b).2)), .next) := by
  obtain ⟨r, hbranch, hcomparison, -⟩ | ⟨hbranch, hcomparison⟩ :=
    stepOn_cases callee f a b hmem hi hlabel
  · rw [hbranch, hcomparison j hj, ExecM.pure_inj, ExecM.pure_inj]
    generalize (fusion.decision a b).2 = answer
    cases r <;> cases answer <;> cases taken <;> simp [Frame.push, Value.ofBool]
  · rw [hbranch, hcomparison j _ hj]
    exact iff_of_false ExecM.pure_ne_fail.symm ExecM.pure_ne_fail.symm

/-- The branch fails where the comparison does, whichever of its forms is used. -/
theorem stepOn_eq_fail_iff (hmem : fusion ∈ fusions) (hi : i.opcode.widened = fusion.branch)
    (hlabel : i.operand.label? = some l) {floats : Bool}
    (hj : j.opcode = (fusion.column floats).1) (found : String) :
    stepOn callee f a b i = ExecM.fail (.typeMismatch f.method i.opcode found) ↔
      stepOn callee f a b j = ExecM.fail (.typeMismatch f.method j.opcode found) := by
  obtain ⟨r, hbranch, -, hcomparison⟩ | ⟨hbranch, hcomparison⟩ :=
    stepOn_cases callee f a b hmem hi hlabel
  · obtain ⟨r', hr'⟩ := hcomparison j floats hj
    rw [hbranch, hr']
    exact iff_of_false ExecM.pure_ne_fail ExecM.pure_ne_fail
  · rw [hbranch, hcomparison j floats hj, ExecM.fail_inj, ExecM.fail_inj]
    simp

/-- The branch can be split in two. -/
theorem stepOn_eq_pure_iff_split (hmem : fusion ∈ fusions)
    (hi : i.opcode.widened = fusion.branch) (hlabel : i.operand.label? = some l)
    (hj : j.opcode = (fusion.decision a b).1) {k : Instruction}
    (hk : k.opcode.widened = if (fusion.decision a b).2 then .brtrue else .brfalse)
    (hklabel : k.operand.label? = some l) (x : Frame × Flow) :
    stepOn callee f a b i = pure x ↔
      (do
        let (g, _) ← stepOn callee f a b j
        step callee g k) = pure x := by
  obtain ⟨r, hbranch, hcomparison, -⟩ | ⟨hbranch, hcomparison⟩ :=
    stepOn_cases callee f a b hmem hi hlabel
  · have hop : Operation.ofOpcode? k.opcode = some (.branchIf (fusion.decision a b).2) := by
      rw [Operation.ofOpcode?, hk]
      cases (fusion.decision a b).2 <;> rfl
    rw [hbranch, hcomparison j hj]
    show _ ↔ step callee (f.push (.ofBool r)) k = pure x
    rw [step_branchIf callee f hop hklabel]
  · rw [hbranch, hcomparison j _ hj]
    exact iff_of_false ExecM.pure_ne_fail.symm ExecM.pure_ne_fail.symm

/-- **Branches that compare act like the comparisons that decide them.** -/
theorem laws_of_mem (hmem : fusion ∈ fusions) (callee : Callee) (f : Frame) (a b : Value)
    (hi : i.opcode.widened = fusion.branch) (hlabel : i.operand.label? = some l) :
    fusion.Laws callee f a b i l where
  taken_iff j hj := by simpa using stepOn_eq_pure_iff (f := f) hmem hi hlabel hj true
  passed_iff j hj := by simpa using stepOn_eq_pure_iff (f := f) hmem hi hlabel hj false
  failed_iff j floats hj found := stepOn_eq_fail_iff hmem hi hlabel hj found
  ends := by
    obtain ⟨r, hbranch, -⟩ | ⟨hbranch, -⟩ :=
      stepOn_cases callee f a b hmem hi hlabel
    · rw [hbranch]
      cases r == (fusion.decision a b).2
      exacts [.inr (.inl rfl), .inl rfl]
    · exact .inr (.inr hbranch)
  split j k hj hk hklabel x := stepOn_eq_pure_iff_split hmem hi hlabel hj hk hklabel x

/-- The short form of a branch on `≥`, on a pair that is unordered. -/
theorem laws_bgeShort_unordered :
    let fusion : Fusion := ⟨.bge, (.clt, false), (.cltUn, false)⟩
    let i : Instruction := { opcode := ⟨0x2f⟩, operand := .branchTarget (some ⟨7, none⟩) }
    let f : Frame := { method := default, args := [], locals := [] }
    fusion ∈ fusions ∧ i.opcode.widened = fusion.branch ∧ i.operand.label? = some ⟨7, none⟩ ∧
      fusion.Laws (fun _ _ => pure none) f (.float (0 / 0)) (.float 1) i ⟨7, none⟩ := by
  intro fusion i f
  have hmem : fusion ∈ fusions := by decide
  have hopcode : i.opcode.widened = fusion.branch := by decide
  exact ⟨hmem, hopcode, rfl, laws_of_mem hmem _ f _ _ hopcode rfl⟩

end Fusion

end MethodWeave
