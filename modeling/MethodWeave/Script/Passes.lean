import MethodWeave.Script.Scope
/-!
Lowering passes side by side, with labels that have names.

The names are common to all passes, but each pass resolves labels for itself.  Native labels become
fixed labels by one lifting pass, so that one of them always gives the same label.
-/

namespace MethodWeave.Script

/-- Several lowering passes and the names of the labels that they work on. -/
structure Passes where
  scope : Scope := {}
  lifting : Lifting := {}
  passes : List Lowering := []
deriving Inhabited

namespace Passes

/-- A pass over a generator that has handed out `count` labels. -/
def start (level : Level) (limit : Option Level) (count : Nat) : Lowering :=
  { generator := (Generator.defineLabels count {}).2, level := level, log := { limit := limit } }

/-- The label of a name, made at its first mention. -/
def label (name : String) : StateM Passes Label := fun s =>
  let (l, scope) := s.scope.label name
  (l, { s with scope := scope })

/-- Let a name stand for a new free label. -/
def nameFree (name : String) : StateM Passes Label := fun s =>
  let (l, supply) := s.scope.supply.free
  (l, { s with scope := { s.scope with supply := supply }.nameLabel name l })

/-- Let a name stand for a new label that is fixed to a native one. -/
def nameFixed (name : String) (target : NativeLabel) : StateM Passes Label := fun s =>
  let (l, scope) := s.scope.nameFixed name target
  (l, { s with scope := scope })

/-- Let a name stand for the lifted form of a native label. -/
def nameLifted (name : String) (target : NativeLabel) : StateM Passes Label := fun s =>
  let (l, lifting) := { s.lifting with supply := s.scope.supply }.label target
  let scope := { s.scope with supply := lifting.supply }.nameLabel name l
  (l, { s with scope := scope, lifting := lifting })

/-- Work in one of the passes; with the answer, the lines that it logged on the way.  There is no
answer if there is no such pass. -/
def within {α : Type} (index : Nat) (work : StateM Lowering α) :
    StateM Passes (Option (α × List String)) := fun s =>
  match s.passes[index]? with
  | none => (none, s)
  | some pass =>
    let (a, pass) := work { pass with log.lines := #[] }
    (some (a, pass.log.texts), { s with passes := s.passes.set index pass })

end Passes

end MethodWeave.Script
