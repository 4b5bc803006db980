import Mathlib.Data.List.Induction
import MethodWeave.Proofs.Metadata
/-!
Which tokens the rows of a table give to what is added to it.

A member or a signature that is added takes the next row of its table, and only what is added takes
rows: a member that was built elsewhere is registered under the token that it has, even if the table
has not come to its row yet.  So tables are followed along the calls that built them, and whatever
resolves in them is traced to the call that brought it there: an addition, whose row has been
counted, or a registration.

Main result: a token that is handed out is never the one of an earlier addition, it is free unless a
member was registered under it, and if it is free everything resolves as before
(`MetadataTables.newTokenLaws`).  A registration ahead of the rows is overwritten once they get
there (`MetadataTables.overwritten_ahead`).
-/

namespace MethodWeave

namespace MetadataTables

/-! ### Calls -/

/-- Something that takes the next row of its table. -/
inductive Addition where
  | type (name : String)
  | method (declaringType : TypeRef) (name : String) (parameters : List TypeRef)
      (returnType : Option TypeRef) (isStatic : Bool)
  | field (declaringType : TypeRef) (name : String) (fieldType : TypeRef) (isStatic : Bool)
  | signature (blob : List UInt8)

/-- The table that an addition goes to. -/
def Addition.table : Addition → UInt8
  | .type .. => Token.typeDefTable
  | .method .. => Token.methodDefTable
  | .field .. => Token.fieldTable
  | .signature .. => Token.signatureTable

/-- Add something; the answer is its token. -/
def add (tables : MetadataTables) : Addition → Token × MetadataTables
  | .type name => let (t, tables) := tables.addType name; (t.token, tables)
  | .method declaringType name parameters returnType isStatic =>
    let (m, tables) := tables.addMethod declaringType name parameters returnType isStatic
    (m.token, tables)
  | .field declaringType name fieldType isStatic =>
    let (f, tables) := tables.addField declaringType name fieldType isStatic
    (f.token, tables)
  | .signature blob => let (s, tables) := tables.addSignature blob; (s.token, tables)

/-- A call that changes tables. -/
inductive Call where
  | add (addition : Addition)
  | intern (s : String)
  | register (m : Member)

def perform (tables : MetadataTables) : Call → MetadataTables
  | .add addition => (tables.add addition).2
  | .intern s => (tables.intern s).2
  | .register m => tables.register m

/-- The tables that calls build, beginning with empty ones. -/
def built (calls : List Call) : MetadataTables := calls.foldl perform {}

theorem built_concat (calls : List Call) (call : Call) :
    built (calls ++ [call]) = (built calls).perform call := by
  rw [built, List.foldl_append]
  rfl

/-! ### Rows -/

/-- How many rows of a table are taken. -/
def rows (tables : MetadataTables) (table : UInt8) : Nat :=
  if table = Token.typeDefTable then tables.typeRows
  else if table = Token.methodDefTable then tables.methodRows
  else if table = Token.fieldTable then tables.fieldRows
  else if table = Token.signatureTable then tables.signatureRows
  else 0

/-- The token names a row that is taken. -/
def Taken (tables : MetadataTables) (t : Token) : Prop :=
  ∃ row ≤ tables.rows t.table, t = .ofRow t.table row

section

variable {tables : MetadataTables} {calls : List Call} {t : Token}

theorem token_add (tables : MetadataTables) (addition : Addition) :
    (tables.add addition).1 = .ofRow addition.table (tables.rows addition.table + 1) := by
  cases addition <;> rfl

theorem rows_add (tables : MetadataTables) (addition : Addition) (table : UInt8) :
    (tables.add addition).2.rows table =
      tables.rows table + if table = addition.table then 1 else 0 := by
  cases addition <;>
    simp only [rows, add, addType, addMethod, addField, addSignature, register, Addition.table,
      Token.typeDefTable, Token.methodDefTable, Token.fieldTable, Token.signatureTable] <;>
    grind

theorem rows_intern (tables : MetadataTables) (s : String) :
    (tables.intern s).2.rows = tables.rows := rfl

theorem rows_le_perform (tables : MetadataTables) (call : Call) (table : UInt8) :
    tables.rows table ≤ (tables.perform call).rows table := by
  cases call with
  | add addition => exact rows_add tables addition table ▸ Nat.le_add_right _ _
  | intern s => exact Nat.le_of_eq (congrFun (tables.rows_intern s).symm table)
  | register m => exact Nat.le_refl _

/-- A row that is taken stays taken. -/
theorem Taken.perform (h : tables.Taken t) (call : Call) : (tables.perform call).Taken t := by
  obtain ⟨row, hrow, ht⟩ := h
  exact ⟨row, Nat.le_trans hrow (tables.rows_le_perform call t.table), ht⟩

theorem Taken.foldl (h : tables.Taken t) (calls : List Call) :
    (calls.foldl MetadataTables.perform tables).Taken t := by
  induction calls generalizing tables with
  | nil => exact h
  | cons call calls ih => exact ih (h.perform call)

/-- What is added takes its row. -/
theorem taken_add (tables : MetadataTables) (addition : Addition) :
    (tables.add addition).2.Taken (tables.add addition).1 := by
  rw [token_add]
  refine ⟨tables.rows addition.table + 1, Nat.le_of_eq ?_, by rw [Token.table_ofRow]⟩
  rw [Token.table_ofRow, rows_add, if_pos rfl]

/-- The next row is not taken, as long as tokens can tell it apart. -/
theorem not_taken_add {addition : Addition}
    (hrows : tables.rows addition.table + 1 < Token.rowLimit) :
    ¬tables.Taken (tables.add addition).1 := by
  rintro ⟨row, hrow, ht⟩
  rw [token_add, Token.table_ofRow] at hrow ht
  have hmod := congrArg Token.row ht
  rw [Token.row_ofRow, Token.row_ofRow, Nat.mod_eq_of_lt hrows, Nat.mod_eq_of_lt (by omega)] at hmod
  omega

end

/-! ### What resolves -/

section

variable {tables : MetadataTables} {calls : List Call} {t : Token}

theorem member?_register (tables : MetadataTables) (m : Member) (t : Token) :
    (tables.register m).member? t = if t = m.token then some m else tables.member? t := by
  rw [member?, register, KeyMap.get?_insert]
  by_cases h : t = m.token
  · rw [if_pos h, if_pos (congrArg Token.key h)]
  · rw [if_neg h, if_neg fun hkey => h (Token.key_inj hkey)]
    rfl

/-- An addition changes what its own token stands for, and no more. -/
theorem member?_add (tables : MetadataTables) (addition : Addition) (t : Token)
    (hne : t ≠ (tables.add addition).1) :
    (tables.add addition).2.member? t = tables.member? t := by
  cases addition with
  | type name =>
    exact (tables.member?_register (.type (tables.addType name).1) t).trans (if_neg hne)
  | method declaringType name parameters returnType isStatic =>
    exact (tables.member?_register
      (.method (tables.addMethod declaringType name parameters returnType isStatic).1) t).trans
      (if_neg hne)
  | field declaringType name fieldType isStatic =>
    exact (tables.member?_register
      (.field (tables.addField declaringType name fieldType isStatic).1) t).trans (if_neg hne)
  | signature blob => rfl

theorem signature?_add (tables : MetadataTables) (addition : Addition) (t : Token)
    (hne : t ≠ (tables.add addition).1) :
    (tables.add addition).2.signature? t = tables.signature? t := by
  cases addition with
  | type name => rfl
  | method declaringType name parameters returnType isStatic => rfl
  | field declaringType name fieldType isStatic => rfl
  | signature blob =>
    exact (KeyMap.get?_insert _ _ _ _).trans (if_neg fun hkey => hne (Token.key_inj hkey))

theorem strings_add (tables : MetadataTables) (addition : Addition) :
    (tables.add addition).2.strings = tables.strings := by
  cases addition <;> rfl

theorem isSome_member?_register (h : (tables.member? t).isSome) (m : Member) :
    ((tables.register m).member? t).isSome := by
  rw [member?_register]
  split
  · rfl
  · exact h

/-- No call takes a member away. -/
theorem isSome_member?_perform (h : (tables.member? t).isSome) (call : Call) :
    ((tables.perform call).member? t).isSome := by
  cases call with
  | add addition =>
    cases addition with
    | type name => exact isSome_member?_register h (.type (tables.addType name).1)
    | method declaringType name parameters returnType isStatic =>
      exact isSome_member?_register h
        (.method (tables.addMethod declaringType name parameters returnType isStatic).1)
    | field declaringType name fieldType isStatic =>
      exact isSome_member?_register h
        (.field (tables.addField declaringType name fieldType isStatic).1)
    | signature blob => exact h
  | intern s =>
    obtain ⟨more, hgains⟩ := tables.gains_intern s
    have hmembers := hgains.extends.members
    rw [perform, member?, hmembers]
    exact h
  | register m => exact isSome_member?_register h m

/-- Where what resolves in tables comes from, of the calls that built them. -/
structure Traced (tables : MetadataTables) (calls : List Call) : Prop where
  member : ∀ t, (tables.member? t).isSome →
    tables.Taken t ∨ ∃ m, .register m ∈ calls ∧ m.token = t
  signature : ∀ t, (tables.signature? t).isSome → tables.Taken t
  registered : ∀ m, .register m ∈ calls → (tables.member? m.token).isSome

/-- **One call.** -/
theorem Traced.step (h : tables.Traced calls) (call : Call) :
    (tables.perform call).Traced (calls ++ [call]) where
  member := by
    intro t ht
    -- what resolved before the call came from where it came from
    have hold (hsome : (tables.member? t).isSome) : (tables.perform call).Taken t ∨
        ∃ m, .register m ∈ calls ++ [call] ∧ m.token = t :=
      (h.member t hsome).imp (·.perform call)
        fun ⟨m, hm, htoken⟩ => ⟨m, List.mem_append_left _ hm, htoken⟩
    cases call with
    | add addition =>
      by_cases heq : t = (tables.add addition).1
      · exact Or.inl (heq ▸ tables.taken_add addition)
      · exact hold (tables.member?_add addition t heq ▸ ht)
    | intern s =>
      obtain ⟨more, hgains⟩ := tables.gains_intern s
      rw [perform, member?, hgains.extends.members] at ht
      exact hold ht
    | register m =>
      by_cases heq : t = m.token
      · exact Or.inr ⟨m, List.mem_append_right _ List.mem_cons_self, heq.symm⟩
      · rw [perform, member?_register, if_neg heq] at ht
        exact hold ht
  signature := by
    intro t ht
    cases call with
    | add addition =>
      by_cases heq : t = (tables.add addition).1
      · exact heq ▸ tables.taken_add addition
      · exact (h.signature t (tables.signature?_add addition t heq ▸ ht)).perform _
    | intern s =>
      obtain ⟨more, hgains⟩ := tables.gains_intern s
      rw [perform, signature?, hgains.extends.signatures] at ht
      exact (h.signature t ht).perform (.intern s)
    | register m => exact (h.signature t ht).perform (.register m)
  registered := by
    intro m hm
    rcases List.mem_append.1 hm with hm | hm
    · exact isSome_member?_perform (h.registered m hm) call
    · obtain rfl := List.mem_singleton.1 hm
      rw [perform, member?_register, if_pos rfl]
      rfl

/-- **A run of calls.** -/
theorem traced_built (calls : List Call) : (built calls).Traced calls := by
  induction calls using List.reverseRecOn with
  | nil => exact ⟨nofun, nofun, nofun⟩
  | append_singleton calls call ih => exact built_concat calls call ▸ ih.step call

end

/-! ### New tokens -/

/-- Nothing is kept under the token. -/
structure Free (tables : MetadataTables) (t : Token) : Prop where
  member : tables.member? t = none
  signature : tables.signature? t = none

/-- Whatever resolves in `before` resolves to the same in `after`. -/
structure Agrees (after before : MetadataTables) : Prop where
  member : ∀ t m, before.member? t = some m → after.member? t = some m
  signature : ∀ t s, before.signature? t = some s → after.signature? t = some s
  userString : ∀ t, after.userString? t = before.userString? t

/-- The laws of the token that an addition is given after some calls. -/
structure NewTokenLaws (calls : List Call) (addition : Addition) : Prop where
  /-- It is none that an earlier addition was given. -/
  apart : ∀ before earlier after, calls = before ++ .add earlier :: after →
    ((built before).add earlier).1 ≠ ((built calls).add addition).1
  /-- It is free just if no member was registered under it. -/
  free_iff : (built calls).Free ((built calls).add addition).1 ↔
    ∀ m, .register m ∈ calls → m.token ≠ ((built calls).add addition).1
  /-- If it is free, the addition changes nothing that resolved. -/
  agrees : (built calls).Free ((built calls).add addition).1 →
    ((built calls).add addition).2.Agrees (built calls)

/-- **New tokens are free unless a registration was ahead of them.**  Whatever calls built the
tables, as long as tokens can tell the rows apart: the token of an addition is not the token of an
earlier one, it is free just if no member was registered under it, and then whatever resolved before
the addition resolves to the same after it. -/
theorem newTokenLaws (calls : List Call) (addition : Addition)
    (hrows : (built calls).rows addition.table + 1 < Token.rowLimit) :
    NewTokenLaws calls addition where
  apart := by
    rintro before earlier after rfl heq
    refine not_taken_add hrows (heq ▸ ?_)
    rw [built, List.foldl_append]
    exact ((built before).taken_add earlier).foldl after
  free_iff := by
    have htraced := traced_built calls
    constructor
    · -- a registered member resolves, also when another one has taken its place
      intro hfree m hm htoken
      have hsome := htraced.registered m hm
      rw [htoken, hfree.member] at hsome
      cases hsome
    · intro hnone
      -- what resolves was taken by an addition or put there by a registration
      refine ⟨Option.not_isSome_iff_eq_none.1 fun hsome => ?_,
        Option.not_isSome_iff_eq_none.1 fun hsome => ?_⟩
      · rcases htraced.member _ hsome with htaken | ⟨m, hm, htoken⟩
        · exact not_taken_add hrows htaken
        · exact hnone m hm htoken
      · exact not_taken_add hrows (htraced.signature _ hsome)
  agrees := by
    intro hfree
    refine ⟨fun t m hm => ?_, fun t s hs => ?_, fun t => ?_⟩
    · rw [member?_add _ _ t, hm]
      rintro rfl
      cases hfree.member.symm.trans hm
    · rw [signature?_add _ _ t, hs]
      rintro rfl
      cases hfree.signature.symm.trans hs
    · rw [StringHeap.userString?, strings_add, StringHeap.userString?]

/-- A type and a method of it are added, a string is interned, and a second type is registered that
the rows have not come to; the method is registered once more. -/
def someCalls : List Call :=
  let t : TypeRef := ⟨.ofRow Token.typeDefTable 1, "T"⟩
  [.add (.type "T"), .add (.method t "f" [] none true), .intern "s",
    .register (.type ⟨.ofRow Token.typeDefTable 3, "U"⟩),
    .register (.method ⟨.ofRow Token.methodDefTable 1, t, "f", [], none, true⟩)]

theorem newTokenLaws_someCalls :
    (built someCalls).rows Token.typeDefTable + 1 < Token.rowLimit ∧
      ((built someCalls).add (.type "V")).1 = .ofRow Token.typeDefTable 2 ∧
      NewTokenLaws someCalls (.type "V") :=
  ⟨by decide, rfl, newTokenLaws someCalls (.type "V") (by decide)⟩

/-- **A registration ahead of the rows is overwritten.**  A type is registered in the first row; the
first type that is added is given that row as well, and replaces it. -/
theorem overwritten_ahead :
    let early : TypeRef := ⟨.ofRow Token.typeDefTable 1, "A"⟩
    let tables := built [.register (.type early)]
    let late : TypeRef := ⟨early.token, "B"⟩
    tables.rows Token.typeDefTable + 1 < Token.rowLimit ∧
      (tables.add (.type "B")).1 = early.token ∧
      tables.member? early.token = some (.type early) ∧
      (tables.add (.type "B")).2.member? early.token = some (.type late) ∧
      late.name ≠ early.name :=
  ⟨by decide, rfl, rfl, rfl, by decide⟩

end MetadataTables

end MethodWeave
