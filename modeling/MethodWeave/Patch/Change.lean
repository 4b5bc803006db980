import MethodWeave.Patch.Registry
/-!
Changes to a pattern as data, each with the answer that it gives.  Patch modules are written as
lists of such changes.
-/

namespace MethodWeave

/-- The lists of a pattern. -/
inductive PatternList where
  | prefixes | suffixes | transpilers | postTranspilers
deriving DecidableEq, Repr

/-- One change to a pattern. -/
inductive PatternChange where
  | addPrefix (hook : MethodRef)
  | addSuffix (hook : MethodRef)
  | addTranspiler (t : Transpiler)
  | addPostTranspiler (t : Transpiler)
  | remove (list : PatternList) (index : Nat)
  /-- Drop the entries that go by a name: the text of a hook, the name of a transpiler. -/
  | dropNamed (list : PatternList) (name : String)
  | clear (list : PatternList)
  | setMode (mode : PrintMode)
  | poll (lower : Bool)

/-- The answer to a change. -/
inductive ChangeAnswer where
  | done
  /-- The name of the entry that was removed, if there was one. -/
  | removed (name? : Option String)
  | dropped (count : Nat)
  | changed (flag : Bool)
deriving DecidableEq, Repr

namespace PatternChange

/-- Remove an entry from a list of named things. -/
def removeFrom {α : Type} (name : α → String) (l : ChangeList α) (index : Nat) :
    ChangeAnswer × ChangeList α :=
  let (item?, l) := l.remove index
  (.removed (item?.map name), l)

/-- Drop the entries of a name from a list of named things. -/
def dropFrom {α : Type} (name : α → String) (l : ChangeList α) (unwanted : String) :
    ChangeAnswer × ChangeList α :=
  let (count, l) := l.retain fun item => name item != unwanted
  (.dropped count, l)

/-- Make a change. -/
def apply (p : Pattern) : PatternChange → ChangeAnswer × Pattern
  | .addPrefix hook => (.done, { p with prefixes := p.prefixes.add hook })
  | .addSuffix hook => (.done, { p with suffixes := p.suffixes.add hook })
  | .addTranspiler t => (.done, { p with transpilers := p.transpilers.add t })
  | .addPostTranspiler t => (.done, { p with postTranspilers := p.postTranspilers.add t })
  | .remove .prefixes i =>
    let (a, l) := removeFrom MethodRef.text p.prefixes i
    (a, { p with prefixes := l })
  | .remove .suffixes i =>
    let (a, l) := removeFrom MethodRef.text p.suffixes i
    (a, { p with suffixes := l })
  | .remove .transpilers i =>
    let (a, l) := removeFrom Transpiler.name p.transpilers i
    (a, { p with transpilers := l })
  | .remove .postTranspilers i =>
    let (a, l) := removeFrom Transpiler.name p.postTranspilers i
    (a, { p with postTranspilers := l })
  | .dropNamed .prefixes n =>
    let (a, l) := dropFrom MethodRef.text p.prefixes n
    (a, { p with prefixes := l })
  | .dropNamed .suffixes n =>
    let (a, l) := dropFrom MethodRef.text p.suffixes n
    (a, { p with suffixes := l })
  | .dropNamed .transpilers n =>
    let (a, l) := dropFrom Transpiler.name p.transpilers n
    (a, { p with transpilers := l })
  | .dropNamed .postTranspilers n =>
    let (a, l) := dropFrom Transpiler.name p.postTranspilers n
    (a, { p with postTranspilers := l })
  | .clear .prefixes => (.done, { p with prefixes := p.prefixes.clear })
  | .clear .suffixes => (.done, { p with suffixes := p.suffixes.clear })
  | .clear .transpilers => (.done, { p with transpilers := p.transpilers.clear })
  | .clear .postTranspilers => (.done, { p with postTranspilers := p.postTranspilers.clear })
  | .setMode mode => (.done, { p with mode := mode })
  | .poll lower =>
    let (flag, p) := p.poll lower
    (.changed flag, p)

end PatternChange

namespace Registry

/-- Change the pattern of a method, decorating it first if need be. -/
def change (r : Registry) (m : MethodRef) (c : PatternChange) (journal : Journal) :
    ChangeAnswer × Registry × Journal :=
  let (d, r, journal) := r.decorate m journal
  let (answer, pattern) := c.apply d.pattern
  (answer, r.setPattern m pattern, journal)

/-- A patch module that takes a note and makes a list of changes; a step without a change only
decorates its method. -/
def moduleOf (note : String) (steps : List (MethodRef × Option PatternChange)) (r : Registry)
    (journal : Journal) : Registry × Journal :=
  steps.foldl
    (fun (r, journal) (m, c?) =>
      match c? with
      | some c => (r.change m c journal).2
      | none => (r.decorate m journal).2)
    (r, journal.note note)

end Registry

end MethodWeave
