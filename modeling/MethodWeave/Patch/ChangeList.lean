/-!
Ordered lists that know whether they changed.

Every operation that alters the items raises a flag; a poll reports the flag and may lower it.  An
operation that finds nothing to alter leaves the flag alone.
-/

namespace MethodWeave

/-- A list of modifications with a flag for changes not yet polled. -/
structure ChangeList (α : Type) where
  items : List α := []
  changed : Bool := false
deriving Repr, Inhabited

namespace ChangeList

variable {α : Type}

/-- Append an item. -/
def add (l : ChangeList α) (item : α) : ChangeList α := ⟨l.items ++ [item], true⟩

/-- Take out the item at an index, if there is one. -/
def remove (l : ChangeList α) (index : Nat) : Option α × ChangeList α :=
  match l.items[index]? with
  | some item => (some item, ⟨l.items.eraseIdx index, true⟩)
  | none => (none, l)

/-- Keep the items that satisfy `keep`, and tell how many went. -/
def retain (l : ChangeList α) (keep : α → Bool) : Nat × ChangeList α :=
  let kept := l.items.filter keep
  let gone := l.items.length - kept.length
  (gone, ⟨kept, l.changed || gone != 0⟩)

/-- Drop all items. -/
def clear (l : ChangeList α) : ChangeList α :=
  if l.items.isEmpty then l else ⟨[], true⟩

/-- Has the list changed since the flag was last lowered?  With `lower` the flag is lowered. -/
def poll (l : ChangeList α) (lower : Bool) : Bool × ChangeList α :=
  (l.changed, if lower then { l with changed := false } else l)

@[simp] theorem poll_fst (l : ChangeList α) (lower : Bool) : (l.poll lower).1 = l.changed := rfl

@[simp] theorem items_poll (l : ChangeList α) (lower : Bool) :
    (l.poll lower).2.items = l.items := by
  cases lower <;> rfl

@[simp] theorem items_add (l : ChangeList α) (item : α) :
    (l.add item).items = l.items ++ [item] := rfl

@[simp] theorem items_clear (l : ChangeList α) : l.clear.items = [] := by
  unfold clear
  split
  · rename_i h; simpa using h
  · rfl

/-- The list with its items in full, for messages about the list itself. -/
def describe (item : α → String) (l : ChangeList α) : String :=
  "ModificationList \x7b items: [" ++ ", ".intercalate (l.items.map item) ++ "], changed: "
    ++ toString l.changed ++ " \x7d"

end ChangeList

end MethodWeave
