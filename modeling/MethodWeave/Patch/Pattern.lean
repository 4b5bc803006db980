import MethodWeave.Patch.ChangeList
import MethodWeave.Patch.Transpiler
/-!
Everything registered against one method: hooks that run before and after it, and transpilers that
rewrite it, in two groups.
-/

namespace MethodWeave

/-- The four lists of one method, and its print mode. -/
structure Pattern where
  prefixes : ChangeList MethodRef := {}
  suffixes : ChangeList MethodRef := {}
  transpilers : ChangeList Transpiler := {}
  /-- Transpilers that run on the result of the others. -/
  postTranspilers : ChangeList Transpiler := {}
  mode : PrintMode := {}
deriving Inhabited

namespace Pattern

/-- The flags of the four lists. -/
def changedFlags (p : Pattern) : List Bool :=
  [p.prefixes.changed, p.suffixes.changed, p.transpilers.changed, p.postTranspilers.changed]

/-- Has any list changed?  With `lower`, the flags of all four are lowered. -/
def poll (p : Pattern) (lower : Bool) : Bool × Pattern :=
  (p.prefixes.changed || p.suffixes.changed || p.transpilers.changed || p.postTranspilers.changed,
    { p with
      prefixes := (p.prefixes.poll lower).2
      suffixes := (p.suffixes.poll lower).2
      transpilers := (p.transpilers.poll lower).2
      postTranspilers := (p.postTranspilers.poll lower).2 })

/-- Is nothing registered? -/
def isEmpty (p : Pattern) : Bool :=
  p.prefixes.items.isEmpty && p.suffixes.items.isEmpty && p.transpilers.items.isEmpty
    && p.postTranspilers.items.isEmpty

/-- Is there any transpiler? -/
def hasRewrite (p : Pattern) : Bool :=
  !p.transpilers.items.isEmpty || !p.postTranspilers.items.isEmpty

/-- The transpilers in the order in which they run. -/
def chain (p : Pattern) : List Transpiler := p.transpilers.items ++ p.postTranspilers.items

end Pattern

end MethodWeave
