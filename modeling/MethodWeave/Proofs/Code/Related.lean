import MethodWeave.Native.Encode
import MethodWeave.Proofs.Pairwise
/-!
Payloads that differ in their jump targets only.

Two payloads are related when they are of one kind, hold the same value if they hold no target, and
hold related targets otherwise.  Every form that an instruction passes through between two bodies is
related to the next one, and the relations compose.
-/

namespace MethodWeave

namespace Payload

variable {τ υ ω : Type}

/-- Payloads of one kind, with related targets and equal values. -/
inductive Related (R : τ → υ → Prop) : Payload τ → Payload υ → Prop
  | none : Related R .none .none
  | label {t : τ} {u : υ} : R t u → Related R (.label t) (.label u)
  | labels {ts : List τ} {us : List υ} : List.Forall₂ R ts us → Related R (.labels ts) (.labels us)
  | int32 (v : Int32) : Related R (.int32 v) (.int32 v)
  | int64 (v : Int64) : Related R (.int64 v) (.int64 v)
  | float32 (v : Binary32) : Related R (.float32 v) (.float32 v)
  | float64 (v : Binary64) : Related R (.float64 v) (.float64 v)
  | string (s : String) : Related R (.string s) (.string s)
  | member (m : Member) : Related R (.member m) (.member m)
  | signature (s : Signature) : Related R (.signature s) (.signature s)
  | local (l : Local) : Related R (.local l) (.local l)
  | argument (i : UInt16) : Related R (.argument i) (.argument i)

variable {R : τ → υ → Prop} {p : Payload τ} {q : Payload υ}

/-- The targets of related payloads are related one by one. -/
theorem Related.targets (h : Related R p q) : List.Forall₂ R p.targets q.targets := by
  cases h with
  | label h => exact .cons h .nil
  | labels h => exact h
  | _ => exact .nil

/-- A relation of targets may be weakened where the targets are. -/
theorem Related.imp_of_mem {S : τ → υ → Prop} (h : Related R p q)
    (hRS : ∀ t u, t ∈ p.targets → u ∈ q.targets → R t u → S t u) : Related S p q := by
  cases h with
  | label h => exact .label (hRS _ _ (List.mem_singleton.2 rfl) (List.mem_singleton.2 rfl) h)
  | labels h =>
    exact .labels ((forall₂_and_mem h).imp fun t u htu => hRS t u htu.1 htu.2.1 htu.2.2)
  | _ => constructor

theorem Related.imp {S : τ → υ → Prop} (h : Related R p q) (hRS : ∀ t u, R t u → S t u) :
    Related S p q :=
  h.imp_of_mem fun t u _ _ => hRS t u

theorem Related.flip (h : Related R p q) : Related (fun u t => R t u) q p := by
  cases h with
  | label h => exact .label h
  | labels h => exact .labels h.flip
  | _ => constructor

/-- From one form to a third by way of a second. -/
theorem Related.comp {S : υ → ω → Prop} {r : Payload ω} (h : Related R p q) (h' : Related S q r) :
    Related (fun t w => ∃ u, R t u ∧ S u w) p r := by
  cases h with
  | label h => cases h' with
    | label h' => exact .label ⟨_, h, h'⟩
  | labels h => cases h' with
    | labels h' => exact .labels (forall₂_comp h h')
  | _ => cases h'; constructor

theorem Related.refl (p : Payload τ) : Related (· = ·) p p := by
  cases p with
  | labels ts => exact .labels (List.forall₂_same.2 fun _ _ => rfl)
  | label t => exact .label rfl
  | _ => constructor

/-- Payloads with equal targets are equal. -/
theorem Related.eq {p q : Payload τ} (h : Related (· = ·) p q) : p = q := by
  cases h with
  | label h => rw [h]
  | labels h =>
    rw [List.forall₂_eq_eq_eq] at h
    rw [h]
  | _ => rfl

/-- What suits an opcode does not depend on the targets. -/
theorem Related.suits (h : Related R p q) (i : Opcode.Info) : i.suits p = i.suits q := by
  unfold Opcode.Info.suits
  cases h with
  | member m => cases m <;> cases i.operand <;> rfl
  | _ => cases i.operand <;> rfl

end Payload

end MethodWeave
