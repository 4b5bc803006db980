import MethodWeave.Metadata
/-!
What tokens stand for in tables that their operations have built.

The rows of strings and the map from strings to tokens are changed side by side, so along any calls
they stay inverse to each other (`StringHeap.Inverse.intern` for one call,
`StringHeap.Interned.inverse` for all).

Main results: reachable tables are coherent, that is, what a token stands for has that token
(`MetadataTables.Reachable.coherent`), and the token that a string was given on the way to the
tables stands for it in them (`MetadataTables.keeps_of_length`,
`MetadataTables.keeps_of_userString?`).
-/

namespace MethodWeave

/-- What a token stands for has that token, and interning a string that has one gives it back. -/
structure Metadata.Coherent {μ : Type} [Metadata μ] (metadata : μ) : Prop where
  member : ∀ {t m}, Metadata.member? metadata t = some m → m.token = t
  signature : ∀ {t s}, Metadata.signature? metadata t = some s → s.token = t
  userString : ∀ {t s}, Metadata.userString? metadata t = some s →
    Metadata.intern metadata s = (t, metadata)

theorem Token.key_inj {t u : Token} (h : t.key = u.key) : t = u := by
  cases t; cases u
  exact congrArg Token.mk (UInt32.toNat_inj.1 h)

/-! ### Rows and tokens of strings -/

/-- The rows and the map say the same: a string has the token of the row that it stands in, and the
token that it has is that of a row in which it stands. -/
structure StringHeap.Inverse (heap : StringHeap) : Prop where
  token : ∀ {i s}, heap.strings[i]? = some s →
    heap.tokens.lookup s = some (.ofRow Token.userStringTable (i + 1))
  row : ∀ {s t}, heap.tokens.lookup s = some t →
    ∃ i, heap.strings[i]? = some s ∧ t = .ofRow Token.userStringTable (i + 1)

namespace StringHeap

variable {heap : StringHeap} {s : String} {t : Token}

theorem intern_of_some (h : heap.tokens.lookup s = some t) : heap.intern s = (t, heap) := by
  rw [intern, h]

theorem intern_of_none (h : heap.tokens.lookup s = none) :
    heap.intern s =
      (.ofRow Token.userStringTable (heap.strings.length + 1),
        { strings := heap.strings ++ [s]
          tokens :=
            (s, .ofRow Token.userStringTable (heap.strings.length + 1)) :: heap.tokens }) := by
  simp only [intern, h, List.length_append, List.length_singleton]

/-- A string has a token once it was interned: the one that it was given. -/
theorem lookup_intern (heap : StringHeap) (s : String) :
    (heap.intern s).2.tokens.lookup s = some (heap.intern s).1 := by
  cases h : heap.tokens.lookup s with
  | some t => rw [intern_of_some h, h]
  | none => rw [intern_of_none h, KeyMap.lookup_cons_eq_ite, if_pos rfl]

theorem Inverse.not_mem (h : heap.Inverse) (hnone : heap.tokens.lookup s = none) :
    s ∉ heap.strings := by
  intro hmem
  obtain ⟨i, hi⟩ := List.mem_iff_getElem?.1 hmem
  cases hnone.symm.trans (h.token hi)

/-- **One call.**  Interning keeps rows and map inverse. -/
theorem Inverse.intern (h : heap.Inverse) (s : String) : (heap.intern s).2.Inverse := by
  cases hlookup : heap.tokens.lookup s with
  | some t =>
    rw [intern_of_some hlookup]
    exact h
  | none =>
    -- the string stands in no row, so its entry hides no other
    have hnew := h.not_mem hlookup
    rw [intern_of_none hlookup]
    constructor
    · intro i s' hi
      rw [KeyMap.lookup_cons_eq_ite]
      rcases Nat.lt_or_ge i heap.strings.length with hlt | hge
      · rw [List.getElem?_append_left hlt] at hi
        have hne : s' ≠ s := by
          rintro rfl
          exact hnew (List.mem_of_getElem? hi)
        rw [if_neg hne]
        exact h.token hi
      · rw [List.getElem?_append_right hge, List.getElem?_singleton] at hi
        split at hi
        · next hzero =>
          have hlast : i = heap.strings.length := by omega
          rw [if_pos (Option.some.inj hi).symm, hlast]
        · cases hi
    · intro s' t ht
      rw [KeyMap.lookup_cons_eq_ite] at ht
      by_cases heq : s' = s
      · rw [if_pos heq] at ht
        refine ⟨heap.strings.length, ?_, (Option.some.inj ht).symm⟩
        rw [heq]
        exact List.getElem?_concat_length
      · rw [if_neg heq] at ht
        obtain ⟨i, hi, htoken⟩ := h.row ht
        refine ⟨i, ?_, htoken⟩
        rw [List.getElem?_append_left (List.getElem?_eq_some_iff.1 hi).1]
        exact hi

/-- **All calls.**  Whatever strings are interned, one behind the other, rows and map are
inverse. -/
theorem Interned.inverse (h : heap.Interned) : heap.Inverse := by
  induction h with
  | empty => exact ⟨nofun, nofun⟩
  | intern s _ ih => exact ih.intern s

/-- A row is the row that its token names, if it is not too high for tokens. -/
theorem userString?_ofRow {i : Nat} (h : i + 1 < Token.rowLimit) :
    heap.userString? (.ofRow Token.userStringTable (i + 1)) = heap.strings[i]? := by
  have hrow : (i + 1) % Token.rowLimit = i + 1 := Nat.mod_eq_of_lt h
  simp [userString?, hrow]

/-- A token that resolves to a string is the one that the map has for it. -/
theorem Inverse.lookup_of_userString? (h : heap.Inverse) (hs : heap.userString? t = some s) :
    heap.tokens.lookup s = some t := by
  unfold userString? at hs
  split at hs
  · next ht =>
    obtain ⟨htable, hrow⟩ := ht
    rw [h.token hs, ← htable, Nat.sub_add_cancel (Nat.pos_of_ne_zero hrow), Token.ofRow_table_row]
  · cases hs

/-- As long as tokens can tell the rows apart, a token resolves to a string just if the map has it
for the string. -/
theorem Inverse.lookup_eq_some_iff (h : heap.Inverse)
    (hlength : heap.strings.length < Token.rowLimit) :
    heap.tokens.lookup s = some t ↔ heap.userString? t = some s := by
  refine ⟨fun ht => ?_, h.lookup_of_userString?⟩
  obtain ⟨i, hi, rfl⟩ := h.row ht
  have hlt := (List.getElem?_eq_some_iff.1 hi).1
  rw [userString?_ofRow (by omega)]
  exact hi

end StringHeap

namespace MetadataTables

/-! ### Operations -/

/-- The tables that the operations lead to, beginning with empty ones. -/
inductive Reachable : MetadataTables → Prop
  | empty : Reachable {}
  | register {tables} (m : Member) : Reachable tables → Reachable (tables.register m)
  | addType {tables} (name : String) : Reachable tables → Reachable (tables.addType name).2
  | addMethod {tables} (declaringType : TypeRef) (name : String) (parameters : List TypeRef)
      (returnType : Option TypeRef) (isStatic : Bool) : Reachable tables →
      Reachable (tables.addMethod declaringType name parameters returnType isStatic).2
  | addField {tables} (declaringType : TypeRef) (name : String) (fieldType : TypeRef)
      (isStatic : Bool) : Reachable tables →
      Reachable (tables.addField declaringType name fieldType isStatic).2
  | addSignature {tables} (blob : List UInt8) : Reachable tables →
      Reachable (tables.addSignature blob).2
  | intern {tables} (s : String) : Reachable tables → Reachable (tables.intern s).2

/-- Members and signatures are filed under their own tokens. -/
structure Filed (tables : MetadataTables) : Prop where
  members : ∀ {k m}, tables.members.get? k = some m → m.token.key = k
  signatures : ∀ {k s}, tables.signatures.get? k = some s → s.token.key = k

theorem Filed.register {tables : MetadataTables} (h : tables.Filed) (m : Member) :
    (tables.register m).Filed where
  members := by
    intro k m' hget
    simp only [MetadataTables.register, KeyMap.get?_insert] at hget
    split at hget
    · next hk => cases hget; exact hk.symm
    · exact h.members hget
  signatures := h.signatures

theorem Reachable.filed {tables : MetadataTables} (h : Reachable tables) : tables.Filed := by
  induction h with
  | empty => exact ⟨nofun, nofun⟩
  | register m _ ih => exact ih.register m
  -- adding a member raises a counter and registers the member
  | @addType tables name _ ih =>
    have := ih.register (.type (tables.addType name).1)
    exact ⟨this.members, this.signatures⟩
  | @addMethod tables declaringType name parameters returnType isStatic _ ih =>
    have := ih.register
      (.method (tables.addMethod declaringType name parameters returnType isStatic).1)
    exact ⟨this.members, this.signatures⟩
  | @addField tables declaringType name fieldType isStatic _ ih =>
    have := ih.register (.field (tables.addField declaringType name fieldType isStatic).1)
    exact ⟨this.members, this.signatures⟩
  | addSignature blob _ ih =>
    refine ⟨ih.members, fun {k s} hget => ?_⟩
    simp only [MetadataTables.addSignature, KeyMap.get?_insert] at hget
    split at hget
    · next hk => rw [← Option.some.inj hget, hk]
    · exact ih.signatures hget
  | intern s _ ih => exact ⟨ih.members, ih.signatures⟩

/-- What resolves to a string is found when the string is interned again. -/
theorem intern_of_userString? {tables : MetadataTables} {t : Token} {s : String}
    (hs : tables.userString? t = some s) : tables.intern s = (t, tables) := by
  have hfound := StringHeap.intern_of_some (tables.interned.inverse.lookup_of_userString? hs)
  simp only [MetadataTables.intern, hfound]

/-- **Reachable tables are coherent.** -/
theorem Reachable.coherent {tables : MetadataTables} (h : Reachable tables) :
    Metadata.Coherent tables where
  member hm := Token.key_inj (h.filed.members hm)
  signature hs := Token.key_inj (h.filed.signatures hs)
  userString hs := intern_of_userString? hs

/-! ### What interning leaves alone -/

/-- `after` has the members and signatures of `before`, and its strings with more behind them. -/
structure Extends (after before : MetadataTables) : Prop where
  members : after.members = before.members
  signatures : after.signatures = before.signatures
  strings : before.strings <+: after.strings

theorem Extends.refl (tables : MetadataTables) : tables.Extends tables :=
  ⟨rfl, rfl, List.prefix_rfl⟩

theorem Extends.trans {a b c : MetadataTables} (h : a.Extends b) (h' : b.Extends c) :
    a.Extends c :=
  ⟨h.members.trans h'.members, h.signatures.trans h'.signatures, h'.strings.trans h.strings⟩

/-- `after` has `more` behind the strings of `before`: strings that were not there, each once.  All
else is the same. -/
structure Gains (after before : MetadataTables) (more : List String) : Prop where
  tables : after = { before with
    toStringHeap := after.toStringHeap
    interned := after.interned }
  strings : after.strings = before.strings ++ more
  nodup : more.Nodup
  new : ∀ s ∈ more, s ∉ before.strings

theorem gains_nil (tables : MetadataTables) : tables.Gains tables [] :=
  ⟨rfl, (List.append_nil _).symm, .nil, nofun⟩

theorem Gains.append {a b c : MetadataTables} {more more' : List String} (h : b.Gains a more)
    (h' : c.Gains b more') : c.Gains a (more ++ more') where
  tables := by
    refine h'.tables.trans ?_
    rw [h.tables]
  strings := by rw [h'.strings, h.strings, List.append_assoc]
  nodup := by
    -- what is gained later is neither among the first strings nor among those gained before
    refine List.nodup_append.2 ⟨h.nodup, h'.nodup, fun s hs s' hs' heq => ?_⟩
    apply h'.new s' hs'
    rw [h.strings, ← heq]
    exact List.mem_append_right _ hs
  new := by
    intro s hs
    rcases List.mem_append.1 hs with hs | hs
    · exact h.new s hs
    · intro hmem
      apply h'.new s hs
      rw [h.strings]
      exact List.mem_append_left _ hmem

theorem Gains.extends {after before : MetadataTables} {more : List String}
    (h : after.Gains before more) : after.Extends before where
  members := by rw [h.tables]
  signatures := by rw [h.tables]
  strings := h.strings ▸ List.prefix_append _ _

theorem gains_intern (tables : MetadataTables) (s : String) :
    ∃ more, (tables.intern s).2.Gains tables more := by
  cases h : tables.tokens.lookup s with
  | some t =>
    refine ⟨[], rfl, ?_, .nil, nofun⟩
    simp only [intern, StringHeap.intern_of_some h, List.append_nil]
  | none =>
    refine ⟨[s], rfl, ?_, List.pairwise_singleton _ s, ?_⟩
    · simp only [intern, StringHeap.intern_of_none h]
    · exact List.forall_mem_singleton.2 (tables.interned.inverse.not_mem h)

/-- Strings keep their rows. -/
theorem Extends.getElem?_strings {after before : MetadataTables} (h : after.Extends before)
    {i : Nat} {s : String} (hi : before.strings[i]? = some s) : after.strings[i]? = some s := by
  obtain ⟨more, hmore⟩ := h.strings
  rw [← hmore, List.getElem?_append_left (List.getElem?_eq_some_iff.1 hi).1]
  exact hi

/-- A string has the row that its token names. -/
theorem exists_row_intern (tables : MetadataTables) (s : String) :
    ∃ i, (tables.intern s).1 = .ofRow Token.userStringTable (i + 1) ∧
      (tables.intern s).2.strings[i]? = some s := by
  obtain ⟨i, hi, htoken⟩ :=
    (tables.intern s).2.interned.inverse.row (tables.toStringHeap.lookup_intern s)
  exact ⟨i, htoken, hi⟩

/-- Wherever the string was interned on the way to the tables, its token stands for it in them. -/
def Keeps (tables : MetadataTables) (s : String) : Prop :=
  ∀ before : MetadataTables, tables.Extends (before.intern s).2 →
    tables.userString? (before.intern s).1 = some s

/-- All strings are kept as long as there are fewer than tokens can tell apart. -/
theorem keeps_of_length {tables : MetadataTables} (h : tables.strings.length < Token.rowLimit)
    (s : String) : tables.Keeps s := by
  intro before hextends
  obtain ⟨i, htoken, hi⟩ := before.exists_row_intern s
  have hi' := hextends.getElem?_strings hi
  have hlt := (List.getElem?_eq_some_iff.1 hi').1
  rw [htoken, StringHeap.userString?_ofRow (by omega)]
  exact hi'

/-- A string that has a token is kept under it. -/
theorem keeps_of_userString? {tables : MetadataTables} {t : Token} {s : String}
    (hs : tables.userString? t = some s) : tables.Keeps s := by
  intro before hextends
  obtain ⟨i, htoken, hi⟩ := before.exists_row_intern s
  have hinverse := tables.interned.inverse
  -- both tokens are the one that the map has for the string
  have hmap := hinverse.token (hextends.getElem?_strings hi)
  rw [hinverse.lookup_of_userString? hs] at hmap
  rw [htoken, ← Option.some.inj hmap]
  exact hs

end MetadataTables

end MethodWeave
