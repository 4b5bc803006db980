import MethodWeave.KeyMap
import MethodWeave.Log
import MethodWeave.Native.Stream
/-!
Labels of rewritable instructions, and the two tables between them and native labels.

A label is an identity: a number that no other label has.  A free label gets a native label when it
is lowered; a fixed label is bound to one from the start.  `Lowering` is one pass down to a native
stream: it resolves each free label once and remembers the answer.  `Lifting` is one pass up: every
native label becomes a fixed label, the same one at each mention.
-/

namespace MethodWeave

/-- A jump target by identity. -/
structure Label where
  id : Nat
  /-- The native label that a fixed label stands for. -/
  fixed? : Option NativeLabel := none
deriving DecidableEq, Repr, Inhabited

namespace Label

/-- Labels are printed by number. -/
def text (l : Label) : String := "L" ++ Text.hexUpper 4 l.id

/-- The number, and the native label of a fixed one. -/
def describe (l : Label) : String :=
  match l.fixed? with
  | some target => l.text ++ "=" ++ target.text
  | none => l.text

/-- Add a label to a list that is kept by increasing number and without repetition. -/
def insertInto (l : Label) : List Label → List Label
  | [] => [l]
  | k :: rest =>
    if l = k then k :: rest
    else if l.id ≤ k.id then l :: k :: rest
    else k :: insertInto l rest

theorem mem_insertInto {l k : Label} {ls : List Label} :
    k ∈ l.insertInto ls ↔ k = l ∨ k ∈ ls := by
  induction ls with
  | nil => simp [insertInto]
  | cons a rest ih =>
    unfold insertInto
    split
    · rename_i h; subst h; simp
    · split
      · simp
      · simp only [List.mem_cons, ih]; grind

/-- The labels of a list, by increasing number and each once. -/
def setOf (ls : List Label) : List Label := ls.foldl (fun acc l => l.insertInto acc) []

end Label

/-- Where label numbers come from.  They are counted without a limit, which agrees with 32 bits
below `2 ^ 32`. -/
structure LabelSupply where
  next : Nat := 0
deriving Repr, Inhabited

namespace LabelSupply

/-- A new free label. -/
def free (s : LabelSupply) : Label × LabelSupply := ({ id := s.next }, ⟨s.next + 1⟩)

/-- A new label fixed to `target`. -/
def fixed (s : LabelSupply) (target : NativeLabel) : Label × LabelSupply :=
  ({ id := s.next, fixed? := some target }, ⟨s.next + 1⟩)

end LabelSupply

/-! ### Down to a native stream -/

/-- One pass of lowering: the generator it draws on, and what free labels resolved to. -/
structure Lowering where
  generator : Generator := {}
  targets : KeyMap NativeLabel := {}
  /-- The level at which allocations are logged. -/
  level : Level := .debug
  log : Log := {}
deriving Inhabited

namespace Lowering

/-- A label straight from the generator. -/
def defineLabel (s : Lowering) : NativeLabel × Lowering :=
  let (target, generator) := s.generator.defineLabel
  (target, { s with generator := generator })

/-- The native label that `l` stands for in this pass. -/
def resolve (l : Label) (s : Lowering) : NativeLabel × Lowering :=
  match l.fixed? with
  | some target => (target, s)
  | none =>
    match s.targets.get? l.id with
    | some target => (target, s)
    | none =>
      let (target, s) := s.defineLabel
      (target,
        { s with
          targets := s.targets.insert l.id target
          log := s.log.write s.level fun _ => "DefineLabel " ++ l.text ++ " => " ++ target.text })

/-- Make a free label resolve to `target` from now on. -/
def bind (l : Label) (target : NativeLabel) (s : Lowering) : Lowering :=
  { s with
    targets := s.targets.insert l.id target
    log := s.log.write s.level fun _ => "BindLabel " ++ l.text ++ " => " ++ target.text }

/-- Is it settled already what `l` resolves to? -/
def isResolved (l : Label) (s : Lowering) : Bool := l.fixed?.isSome || s.targets.contains l.id

/-- A further local slot from the generator. -/
def declareLocal (type : TypeRef) (s : Lowering) : Local × Lowering :=
  let (slot, generator) := s.generator.declareLocal type
  (slot,
    { s with
      generator := generator
      log := s.log.write s.level fun _ => "DeclareLocal " ++ slot.text })

/-- Resolving a fixed label gives its target and changes nothing. -/
theorem resolve_fixed {l : Label} {target : NativeLabel} (h : l.fixed? = some target)
    (s : Lowering) : s.resolve l = (target, s) := by
  simp [resolve, h]

/-- A label that is settled resolves without change. -/
theorem resolve_of_get? {l : Label} {target : NativeLabel} {s : Lowering} (hf : l.fixed? = none)
    (h : s.targets.get? l.id = some target) : s.resolve l = (target, s) := by
  simp [resolve, hf, h]

end Lowering

/-! ### Up from a native stream -/

/-- One pass of lifting: the fixed labels made so far, by native label. -/
structure Lifting where
  supply : LabelSupply := {}
  labels : KeyMap Label := {}
deriving Inhabited

namespace Lifting

/-- The fixed label of a native one, made at its first mention. -/
def label (target : NativeLabel) (s : Lifting) : Label × Lifting :=
  match s.labels.get? target.number with
  | some l => (l, s)
  | none =>
    let (l, supply) := s.supply.fixed target
    (l, { supply := supply, labels := s.labels.insert target.number l })

end Lifting

end MethodWeave
