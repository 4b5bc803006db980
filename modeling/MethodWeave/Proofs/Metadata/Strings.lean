import MethodWeave.Proofs.Metadata.Rows
/-!
The heap of user strings along the calls that build tables.

Strings are only ever appended, so what stands in the heap stands there from then on in the same
row, and a token that resolves to a string goes on to do so.  Tokens are resolved by the rows and
strings are interned by the map beside them.  As the two are inverse after any calls
(`StringHeap.Interned.inverse`), a token that resolves to a string is the only one for it, and
interning the string again finds it.

Main result: interning and resolving undo each other, whatever calls come in between, as long as
tokens can tell the rows apart (`MetadataTables.stringLaws`).
-/

namespace MethodWeave

namespace MetadataTables

variable {tables before after : MetadataTables} {calls : List Call} {t : Token} {s : String}

/-! ### Strings are appended -/

theorem strings_perform (tables : MetadataTables) (call : Call) :
    tables.strings <+: (tables.perform call).strings := by
  cases call with
  | add addition =>
    have hstrings : (tables.perform (.add addition)).strings = tables.strings :=
      strings_add tables addition
    exact hstrings ▸ List.prefix_rfl
  | intern s =>
    obtain ⟨more, hgains⟩ := tables.gains_intern s
    exact hgains.extends.strings
  | register m => exact List.prefix_rfl

theorem strings_foldl (tables : MetadataTables) (calls : List Call) :
    tables.strings <+: (calls.foldl perform tables).strings := by
  induction calls generalizing tables with
  | nil => exact List.prefix_rfl
  | cons call calls ih => exact (tables.strings_perform call).trans (ih (tables.perform call))

/-- A token resolves to what it resolved to before strings were appended. -/
theorem userString?_of_prefix (h : before.strings <+: after.strings)
    (hs : before.userString? t = some s) : after.userString? t = some s := by
  unfold StringHeap.userString? at hs ⊢
  split at hs
  · next ht =>
    obtain ⟨more, hmore⟩ := h
    rw [if_pos ht, ← hmore, List.getElem?_append_left (List.getElem?_eq_some_iff.1 hs).1]
    exact hs
  · cases hs

/-- The token that a string is given stands for it. -/
theorem userString?_of_intern (h : (tables.intern s).2.strings.length < Token.rowLimit) :
    (tables.intern s).2.userString? (tables.intern s).1 = some s :=
  keeps_of_length h s tables (.refl _)

/-- What resolves to a string is found when the string is interned, and nothing else is. -/
theorem userString?_eq_some_iff (hlength : tables.strings.length < Token.rowLimit) :
    tables.userString? t = some s ↔ tables.intern s = (t, tables) := by
  refine ⟨intern_of_userString?, fun hintern => ?_⟩
  have hresolves : (tables.intern s).2.userString? (tables.intern s).1 = some s :=
    userString?_of_intern (by rwa [hintern])
  rwa [hintern] at hresolves

/-- Interning adds the string, or nothing. -/
theorem mem_strings_intern {s' : String} (h : s' ∈ (tables.intern s).2.strings) :
    s' ∈ tables.strings ∨ s' = s := by
  have hmem : s' ∈ (tables.toStringHeap.intern s).2.strings := h
  cases hlookup : tables.tokens.lookup s with
  | some t =>
    rw [StringHeap.intern_of_some hlookup] at hmem
    exact Or.inl hmem
  | none =>
    rw [StringHeap.intern_of_none hlookup] at hmem
    exact (List.mem_append.1 hmem).imp_right List.mem_singleton.1

/-! ### Runs of calls -/

theorem built_append (earlier later : List Call) :
    built (earlier ++ later) = later.foldl perform (built earlier) :=
  List.foldl_append

theorem strings_built (earlier later : List Call) :
    (built earlier).strings <+: (built (earlier ++ later)).strings :=
  built_append earlier later ▸ strings_foldl (built earlier) later

theorem strings_intern_built (earlier : List Call) (s : String) (later : List Call) :
    ((built earlier).intern s).2.strings <+: (built (earlier ++ .intern s :: later)).strings := by
  rw [built_append]
  exact strings_foldl ((built earlier).intern s).2 later

/-- Among the calls the string was interned, and was given the token. -/
def Issued (calls : List Call) (s : String) (t : Token) : Prop :=
  ∃ earlier later, calls = earlier ++ .intern s :: later ∧ ((built earlier).intern s).1 = t

theorem Issued.concat (h : Issued calls s t) (call : Call) : Issued (calls ++ [call]) s t := by
  obtain ⟨earlier, later, rfl, ht⟩ := h
  exact ⟨earlier, later ++ [call], by rw [List.append_assoc, List.cons_append], ht⟩

/-- What was issued resolves, whatever calls came after it. -/
theorem Issued.resolves (h : Issued calls s t)
    (hlength : (built calls).strings.length < Token.rowLimit) :
    (built calls).userString? t = some s := by
  obtain ⟨earlier, later, rfl, rfl⟩ := h
  have hprefix := strings_intern_built earlier s later
  exact userString?_of_prefix hprefix
    (userString?_of_intern (Nat.lt_of_le_of_lt hprefix.length_le hlength))

/-- Nothing stands in the heap but what was interned. -/
theorem exists_issued_of_mem (h : s ∈ (built calls).strings) : ∃ t, Issued calls s t := by
  induction calls using List.reverseRecOn with
  | nil => cases h
  | append_singleton calls call ih =>
    have hold (hmem : s ∈ (built calls).strings) : ∃ t, Issued (calls ++ [call]) s t :=
      (ih hmem).imp fun t ht => ht.concat call
    rw [built_concat] at h
    cases call with
    | add addition =>
      rw [perform, strings_add] at h
      exact hold h
    | intern s' =>
      rw [perform] at h
      rcases mem_strings_intern h with hmem | rfl
      · exact hold hmem
      · exact ⟨_, calls, [], rfl, rfl⟩
    | register m => exact hold h

/-- A string stands under one token only: the one that the map has for it. -/
theorem token_eq_of_userString? {t' : Token} (ht : tables.userString? t = some s)
    (ht' : tables.userString? t' = some s) : t = t' := by
  have hinverse := tables.interned.inverse
  have hmap := hinverse.lookup_of_userString? ht
  rw [hinverse.lookup_of_userString? ht'] at hmap
  exact (Option.some.inj hmap).symm

/-- Only tokens that were issued resolve. -/
theorem issued_of_userString? (hlength : (built calls).strings.length < Token.rowLimit)
    (ht : (built calls).userString? t = some s) : Issued calls s t := by
  have hmem : s ∈ (built calls).strings := by
    unfold StringHeap.userString? at ht
    split at ht
    · exact List.mem_of_getElem? ht
    · cases ht
  -- the string was interned, and the token that it was given then is the only one it has
  obtain ⟨t', hissued⟩ := exists_issued_of_mem hmem
  rwa [token_eq_of_userString? ht (hissued.resolves hlength)]

/-- The laws of the heap of user strings after some calls. -/
structure StringLaws (calls : List Call) : Prop where
  /-- The rows and the map are inverse: the map has a token for a string just if the token resolves
  to the string. -/
  inverse : ∀ t s, (built calls).tokens.lookup s = some t ↔ (built calls).userString? t = some s
  /-- The token that a string is given resolves to it at once. -/
  resolves : ∀ earlier s later, calls = earlier ++ .intern s :: later →
    ((built earlier).intern s).2.userString? ((built earlier).intern s).1 = some s
  /-- The tokens that were issued resolve to their strings, and no other token resolves. -/
  resolves_iff : ∀ t s, (built calls).userString? t = some s ↔ Issued calls s t
  /-- A token resolves to a string just if interning the string gives the token and leaves the
  tables as they are. -/
  intern_iff : ∀ t s, (built calls).userString? t = some s ↔
    (built calls).intern s = (t, built calls)
  /-- A string is given one token, and different strings different ones. -/
  token_eq_iff : ∀ s s' t t', Issued calls s t → Issued calls s' t' → (t = t' ↔ s = s')
  /-- What resolves goes on to resolve to the same string. -/
  kept : ∀ earlier later, calls = earlier ++ later → ∀ t s,
    (built earlier).userString? t = some s → (built calls).userString? t = some s

/-- **The heap of user strings is an append-only bijection.**  After any calls, as long as tokens
can tell the strings apart, the rows of strings and the map of their tokens are inverse.  A token
resolves to a string just if the string was interned and given that token, and just if interning the
string again gives the token and changes nothing; a string has one token, no two strings share one,
and no call changes what a token resolves to. -/
theorem stringLaws (calls : List Call)
    (hlength : (built calls).strings.length < Token.rowLimit) : StringLaws calls where
  inverse t s := (built calls).interned.inverse.lookup_eq_some_iff hlength
  resolves := by
    rintro earlier s later rfl
    exact userString?_of_intern
      (Nat.lt_of_le_of_lt (strings_intern_built earlier s later).length_le hlength)
  resolves_iff t s := ⟨issued_of_userString? hlength, fun hissued => hissued.resolves hlength⟩
  intern_iff t s := userString?_eq_some_iff hlength
  token_eq_iff := by
    intro s s' t t' hissued hissued'
    have ht := hissued.resolves hlength
    have ht' := hissued'.resolves hlength
    constructor
    · rintro rfl
      exact Option.some.inj (ht.symm.trans ht')
    · rintro rfl
      exact token_eq_of_userString? ht ht'
  kept := by
    rintro earlier later rfl t s ht
    exact userString?_of_prefix (strings_built earlier later) ht

/-- A string is interned before a type is added, and again behind another string. -/
def repeatedString : List Call :=
  [.intern "first", .add (.type "T"), .intern "second", .intern "first"]

theorem stringLaws_repeatedString :
    (built repeatedString).strings.length < Token.rowLimit ∧
      (built repeatedString).strings = ["first", "second"] ∧ StringLaws repeatedString :=
  ⟨by decide, rfl, stringLaws repeatedString (by decide)⟩

end MetadataTables

end MethodWeave
