import MethodWeave.Proofs.Instruction.Agreement
/-!
Copying one operand into another.

A copy is made between operands of one kind, unless the target does not take the member that the
source holds.  What a copy can come to is said once (`Operand.CopiesAs`), and the laws follow from
it: a copy that is not made leaves the target alone, and one that is made keeps the kind of the
target and, of a member operand, which members it takes.

The target then holds what the source holds, set or unset, with one exception: an unset member
operand is copied without unsetting the target, so a member that the target held stays in it
(`Operand.LeavesMember`).  An instruction that is copied under another opcode is copied into an
empty operand, where the exception does not arise.

Main result: `copyOnto_laws`.
-/

namespace MethodWeave

namespace Operand

variable {source target copy : Operand}

/-- Whether a copy into the target is made, and what the target is afterwards. -/
def copyOnto (source target : Operand) : Bool × Operand :=
  match source.copyInto target with
  | some copy => (true, copy)
  | Option.none => (false, target)

/-- The source is an unset member operand, and the target one that holds a member. -/
def LeavesMember (source target : Operand) : Prop :=
  ∃ kind kind' m, source = .member kind Option.none ∧ target = .member kind' (some m)

@[simp] theorem kind_emptied (operand : Operand) : operand.emptied.kind = operand.kind := by
  cases operand <;> rfl

/-! ### What a copy comes to -/

/-- What a copy from a source into a target comes to; nothing, if it is not made. -/
inductive CopiesAs : Operand → Operand → Option Operand → Prop
  /-- Operands of different kinds are not copied. -/
  | apart {source target : Operand} (h : source.kind ≠ target.kind) :
      CopiesAs source target Option.none
  /-- Whatever is no member is copied as it is. -/
  | whole {source target : Operand} (h : source.emptied = target.emptied)
      (hmember : ∀ kind held, source ≠ .member kind held) : CopiesAs source target (some source)
  /-- From an unset member operand nothing is copied. -/
  | unset {kind kind' : MemberKind} {held : Option Member} :
      CopiesAs (.member kind Option.none) (.member kind' held) (some (.member kind' held))
  | taken {kind kind' : MemberKind} {held : Option Member} {m : Member}
      (h : kind'.accepts m = true) :
      CopiesAs (.member kind (some m)) (.member kind' held) (some (.member kind' (some m)))
  | refused {kind kind' : MemberKind} {held : Option Member} {m : Member}
      (h : kind'.accepts m = false) :
      CopiesAs (.member kind (some m)) (.member kind' held) Option.none

theorem copiesAs_member (kind kind' : MemberKind) (held held' : Option Member) :
    CopiesAs (.member kind held) (.member kind' held')
      (copyInto (.member kind held) (.member kind' held')) := by
  cases held with
  | none => exact .unset
  | some m =>
    simp only [copyInto]
    cases h : kind'.accepts m with
    | true => exact .taken h
    | false => exact .refused h

theorem kind_of_copyInto (h : source.copyInto target = some copy) : source.kind = target.kind := by
  unfold copyInto at h
  split at h <;> first | rfl | cases h

/-- **What a copy comes to**, by the kinds of both operands. -/
theorem copiesAs_copyInto (source target : Operand) :
    CopiesAs source target (source.copyInto target) := by
  by_cases hkind : source.kind = target.kind
  · cases source with
    | member kind held =>
      cases target with
      | member kind' held' => exact copiesAs_member kind kind' held held'
      | _ => simp [Operand.kind] at hkind
    | _ =>
      -- for each kind of source, one kind of target is left
      cases target <;> simp only [Operand.kind, String.reduceEq] at hkind
      exact .whole rfl (by simp)
  · have hnone : source.copyInto target = Option.none :=
      Option.eq_none_iff_forall_ne_some.2 fun copy hcopy => hkind (kind_of_copyInto hcopy)
    rw [hnone]
    exact .apart hkind

/-! ### The laws of copying -/

/-- A copy is made just between operands of one kind, if the target takes the member of the
source. -/
theorem isSome_copyInto_iff (source target : Operand) :
    (source.copyInto target).isSome = true ↔ source.kind = target.kind ∧
      ∀ m, source.member? = some m → target.accepts (.member m : Payload Label) = true := by
  have hcopies := copiesAs_copyInto source target
  generalize source.copyInto target = copy? at hcopies ⊢
  cases hcopies with
  | apart h => simp [h]
  | whole h hmember =>
    have hkind : source.kind = target.kind := by rw [← kind_emptied, h, kind_emptied]
    have hnone : source.member? = Option.none := by
      cases source with
      | member kind held => exact absurd rfl (hmember kind held)
      | _ => rfl
    simp [hkind, hnone]
  | unset => simp [Operand.kind, member?]
  | taken h => simp [Operand.kind, member?, accepts, h]
  | refused h => simp [Operand.kind, member?, accepts, h]

/-- A copy keeps the kind of the target and which members it takes. -/
theorem emptied_of_copyInto (h : source.copyInto target = some copy) :
    copy.emptied = target.emptied := by
  have hcopies := copiesAs_copyInto source target
  rw [h] at hcopies
  cases hcopies with
  | whole hkept => exact hkept
  | unset | taken => rfl

/-- A copy holds what the source holds, unless it leaves a member where it was. -/
theorem payload?_of_copyInto_iff (h : source.copyInto target = some copy) :
    copy.payload? = source.payload? ↔ ¬ source.LeavesMember target := by
  have hcopies := copiesAs_copyInto source target
  rw [h] at hcopies
  unfold LeavesMember
  cases hcopies with
  | whole _ hmember => simp [hmember]
  | taken => simp [payload?]
  | @unset kind kind' held => cases held <;> simp [payload?]

/-- What is unset is not copied over what is set: the member stays. -/
theorem copyInto_of_leavesMember (h : source.LeavesMember target) :
    source.copyInto target = some target := by
  obtain ⟨kind, kind', m, rfl, rfl⟩ := h
  rfl

/-- Nothing is left in an empty operand. -/
theorem not_leavesMember_emptyFor (source : Operand) (info : Opcode.Info) :
    ¬ source.LeavesMember (emptyFor info) := by
  rintro ⟨_, kind, m, -, hempty⟩
  have hemptied := emptied_emptyFor info
  rw [hempty] at hemptied
  cases hemptied

end Operand

/-- A copy of an instruction under another opcode holds what the instruction holds. -/
theorem Instruction.payload?_of_copyWith {i j : Instruction} {op : Opcode}
    (h : i.copyWith op = .ok j) : j.operand.payload? = i.operand.payload? := by
  unfold copyWith ofOpcode at h
  cases hrow : op.info? with
  | none => simp only [hrow] at h; cases h
  | some info =>
    simp only [hrow, bind, Except.bind] at h
    split at h
    · next operand hcopy =>
      cases h
      exact (Operand.payload?_of_copyInto_iff hcopy).2 (Operand.not_leavesMember_emptyFor _ info)
    · cases h

namespace Operand

/-- **Copying copies, but for unset members.**  A copy is made just when both operands are of one
kind and the target takes the member that the source holds, if it holds one; if it is not made, the
target is left as it was.  If it is made, the target keeps its kind and which members it takes, and
holds just what the source holds, set or unset, except where an unset member operand is copied into
one that holds a member: there the target stays as it was.  So an instruction that is copied under
another opcode always holds what the first one holds. -/
theorem copyOnto_laws (source target : Operand) :
    ((source.copyOnto target).1 = true ↔ source.kind = target.kind ∧
      ∀ m, source.member? = some m → target.accepts (.member m : Payload Label) = true) ∧
    ((source.copyOnto target).1 = false → (source.copyOnto target).2 = target) ∧
    ((source.copyOnto target).1 = true →
      (source.copyOnto target).2.emptied = target.emptied ∧
      ((source.copyOnto target).2.payload? = source.payload? ↔ ¬ source.LeavesMember target)) ∧
    (source.LeavesMember target → source.copyOnto target = (true, target)) ∧
    ∀ (i j : Instruction) (op : Opcode), i.operand = source → i.copyWith op = .ok j →
      j.operand.payload? = source.payload? := by
  have hmade := isSome_copyInto_iff source target
  have hleaves : source.LeavesMember target → source.copyOnto target = (true, target) := by
    intro h
    rw [copyOnto, copyInto_of_leavesMember h]
  have hcopyWith (i j : Instruction) (op : Opcode) (hi : i.operand = source)
      (h : i.copyWith op = .ok j) : j.operand.payload? = source.payload? := by
    rw [← hi]
    exact Instruction.payload?_of_copyWith h
  -- whether the copy is made decides everything else
  cases hcopy : source.copyInto target with
  | none =>
    have honto : source.copyOnto target = (false, target) := by rw [copyOnto, hcopy]
    rw [honto]
    rw [hcopy] at hmade
    exact ⟨hmade, fun _ => rfl, nofun, honto ▸ hleaves, hcopyWith⟩
  | some copy =>
    have honto : source.copyOnto target = (true, copy) := by rw [copyOnto, hcopy]
    rw [honto]
    rw [hcopy] at hmade
    exact ⟨hmade, nofun, fun _ => ⟨emptied_of_copyInto hcopy, payload?_of_copyInto_iff hcopy⟩,
      honto ▸ hleaves, hcopyWith⟩

/-- An unset token operand is copied into one that holds a type: the copy is made, and the type is
still there, though the source holds nothing. -/
theorem copyOnto_unset_member :
    let source : Operand := .member .any Option.none
    let target : Operand := .member .any (some (.type .int32))
    source.copyOnto target = (true, target) ∧ source.payload? = Option.none ∧
      target.payload? = some (.member (.type .int32)) :=
  ⟨rfl, rfl, rfl⟩

/-- A type is copied from a token operand into a type operand, which still takes types only, and not
into a method operand. -/
theorem copyOnto_laws_type :
    let source : Operand := .member .any (some (.type .int32))
    (source.copyOnto (.member .type Option.none)).2.payload? = source.payload? ∧
      (source.copyOnto (.member .type Option.none)).2.emptied = .member .type Option.none ∧
      (source.copyOnto (.member .method Option.none)).2 = .member .method Option.none := by
  intro source
  obtain ⟨-, -, hmade, -, -⟩ := copyOnto_laws source (.member .type Option.none)
  obtain ⟨-, hrefused, -, -, -⟩ := copyOnto_laws source (.member .method Option.none)
  obtain ⟨hkind, hheld⟩ := hmade rfl
  refine ⟨hheld.2 ?_, hkind, hrefused rfl⟩
  rintro ⟨kind, kind', m, hunset, -⟩
  have hheld : Operand.member .any (some (.type .int32)) = .member kind Option.none := hunset
  cases hheld

end Operand

end MethodWeave
