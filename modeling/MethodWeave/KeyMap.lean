/-!
Finite maps with numeric keys, listed in increasing order of key.

Tables of a module are keyed by token, labels by position or number; wherever such a table is
walked, it is walked by increasing key.  The view of a map is `get?`, and `get?_insert` is the law
of the one writing operation.
-/

namespace MethodWeave

/-- A finite map from numbers to `α`. -/
structure KeyMap (α : Type) where
  entries : List (Nat × α) := []

namespace KeyMap

variable {α : Type}

instance : Inhabited (KeyMap α) := ⟨{}⟩

/-- The map without entries. -/
def empty : KeyMap α := {}

/-- What is stored under `key`. -/
def get? (m : KeyMap α) (key : Nat) : Option α := m.entries.lookup key

/-- Put an entry in front of the first larger key, replacing an equal one. -/
def insertEntry (key : Nat) (value : α) : List (Nat × α) → List (Nat × α)
  | [] => [(key, value)]
  | (k, v) :: rest =>
    if key < k then (key, value) :: (k, v) :: rest
    else if key = k then (key, value) :: rest
    else (k, v) :: insertEntry key value rest

/-- Store `value` under `key`, replacing what was there. -/
def insert (m : KeyMap α) (key : Nat) (value : α) : KeyMap α :=
  ⟨insertEntry key value m.entries⟩

def contains (m : KeyMap α) (key : Nat) : Bool := (m.get? key).isSome

/-- The stored values by increasing key. -/
def values (m : KeyMap α) : List α := m.entries.map (·.2)

def size (m : KeyMap α) : Nat := m.entries.length

/-- The entry in front hides those with its key behind it, and no other. -/
theorem lookup_cons_eq_ite {κ : Type} [BEq κ] [LawfulBEq κ] [DecidableEq κ] (key k : κ) (value : α)
    (entries : List (κ × α)) :
    ((key, value) :: entries).lookup k = if k = key then some value else entries.lookup k := by
  by_cases h : k = key
  · rw [if_pos h, h, List.lookup_cons_self]
  · rw [if_neg h, List.lookup_cons, beq_eq_false_iff_ne.2 h]

theorem lookup_insertEntry (key k : Nat) (value : α) (entries : List (Nat × α)) :
    (insertEntry key value entries).lookup k
      = if k = key then some value else entries.lookup k := by
  induction entries with
  | nil => exact lookup_cons_eq_ite key k value []
  | cons e rest ih =>
    obtain ⟨k', v'⟩ := e
    unfold insertEntry
    split
    · exact lookup_cons_eq_ite key k value _
    · split
      · next heq =>
        subst heq
        rw [lookup_cons_eq_ite, lookup_cons_eq_ite]
        split <;> rfl
      · next hne =>
        -- the entry that is kept in front has another key than the new one
        rw [lookup_cons_eq_ite, lookup_cons_eq_ite, ih]
        by_cases h : k = key
        · rw [if_pos h, if_pos h, if_neg fun h' => hne (h.symm.trans h')]
        · rw [if_neg h, if_neg h]

/-- After a write the key written holds the value, and every other key what it held. -/
theorem get?_insert (m : KeyMap α) (key k : Nat) (value : α) :
    (m.insert key value).get? k = if k = key then some value else m.get? k :=
  lookup_insertEntry key k value m.entries

@[simp] theorem get?_insert_self (m : KeyMap α) (key : Nat) (value : α) :
    (m.insert key value).get? key = some value := by simp [get?_insert]

@[simp] theorem get?_empty (k : Nat) : (empty : KeyMap α).get? k = none := rfl

theorem mem_entries_of_get? {m : KeyMap α} {k : Nat} {a : α} (h : m.get? k = some a) :
    (k, a) ∈ m.entries := by
  obtain ⟨before, after, hsplit, -⟩ := List.lookup_eq_some_iff.1 h
  rw [hsplit]
  exact List.mem_append_right _ List.mem_cons_self

theorem exists_get?_of_mem {m : KeyMap α} {k : Nat} {a : α} (h : (k, a) ∈ m.entries) :
    ∃ b, m.get? k = some b := by
  cases hget : m.get? k with
  | some b => exact ⟨b, rfl⟩
  | none =>
    have := List.lookup_eq_none_iff.1 hget (k, a) h
    simp at this

/-! ### Writing under a new key -/

section

variable {m : KeyMap α} {k : Nat} {a : α}

/-- What is stored stays stored. -/
theorem get?_insert_of_none (hnone : m.get? k = none) {k' : Nat} {b : α}
    (h : m.get? k' = some b) : (m.insert k a).get? k' = some b := by
  have hne : k' ≠ k := by
    rintro rfl
    rw [hnone] at h
    cases h
  rw [get?_insert, if_neg hne]
  exact h

/-- What holds of all entries and of the new one holds of all entries afterwards. -/
theorem forall_get?_insert {P : Nat → α → Prop} (h : ∀ {k' b}, m.get? k' = some b → P k' b)
    (ha : P k a) {k' : Nat} {b : α} (hget : (m.insert k a).get? k' = some b) : P k' b := by
  rw [get?_insert] at hget
  split at hget
  · next heq =>
    cases hget
    rw [heq]
    exact ha
  · exact h hget

/-- A new value leaves every value with one key. -/
theorem injective_insert
    (h : ∀ {k₁ k₂ b}, m.get? k₁ = some b → m.get? k₂ = some b → k₁ = k₂)
    (hnew : ∀ {k'}, m.get? k' ≠ some a) {k₁ k₂ : Nat} {b : α}
    (h₁ : (m.insert k a).get? k₁ = some b) (h₂ : (m.insert k a).get? k₂ = some b) : k₁ = k₂ := by
  rw [get?_insert] at h₁ h₂
  split at h₁ <;> split at h₂
  · next heq₁ heq₂ => rw [heq₁, heq₂]
  · cases h₁
    exact absurd h₂ hnew
  · cases h₂
    exact absurd h₁ hnew
  · exact h h₁ h₂

end

end KeyMap

end MethodWeave
