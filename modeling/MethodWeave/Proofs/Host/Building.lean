import MethodWeave.Proofs.Host.Wrapping
import MethodWeave.Proofs.Instruction.Lifting
/-!
How the host builds a wrapped body.

A body is read, lowered, wrapped and encoded.  Whatever it refers to is there under its own name,
and so is whatever the calls of hooks refer to.  Main results: `known_hooked`, which says this of a
wrapped stream; `readsAs_of_known`, so the metadata stays as it was and the body is read as the
stream; and `build_steps`, the steps of a build that succeeds.
-/

namespace MethodWeave

/-! ### Operands that are known -/

/-- What the operand refers to is registered, and its string has a token. -/
def Payload.Known {τ : Type} (tables : MetadataTables) (locals : List TypeRef) (p : Payload τ) :
    Prop :=
  p.Registered tables locals ∧ ∀ s, p = .string s → ∃ t, tables.userString? t = some s

section

variable {tables : MetadataTables} {locals : List TypeRef}

theorem Payload.Known.of_related {τ υ : Type} {R : τ → υ → Prop} {p : Payload τ} {q : Payload υ}
    (h : Related R p q) (hq : q.Known tables locals) : p.Known tables locals := by
  refine ⟨h.registered.2 hq.1, fun s hs => ?_⟩
  subst hs
  cases h
  exact hq.2 s rfl

/-- Further locals hide nothing. -/
theorem Payload.Known.append {τ : Type} {p : Payload τ} (h : p.Known tables locals)
    (more : List TypeRef) : p.Known tables (locals ++ more) := by
  refine ⟨?_, h.2⟩
  have hregistered := h.1
  cases p with
  | «local» l =>
    have hl : locals[l.index.toNat]? = some l.type := hregistered
    show (locals ++ more)[l.index.toNat]? = some l.type
    rw [List.getElem?_append_left (List.getElem?_eq_some_iff.1 hl).1, hl]
  | _ => exact hregistered

/-- What a code spells is known. -/
theorem Payload.Spelled.known (htables : tables.Reachable) {info : Opcode.Info} {stop : Nat}
    {q : Payload Int} {bytes : List UInt8} (h : q.Spelled tables locals info stop bytes) :
    q.Known tables locals := by
  have hcoherent := htables.coherent
  cases h with
  | member t m _ hm _ =>
    refine ⟨?_, nofun⟩
    show Metadata.member? tables m.token = some m
    rw [hcoherent.member hm]
    exact hm
  | signature t s _ hs =>
    refine ⟨?_, nofun⟩
    show Metadata.signature? tables s.token = some s
    rw [hcoherent.signature hs]
    exact hs
  | string t s _ hs => exact ⟨trivial, fun s' heq => by cases heq; exact ⟨t, hs⟩⟩
  | shortLocal i type _ _ hl => exact ⟨hl, nofun⟩
  | «local» i type _ _ hl => exact ⟨hl, nofun⟩
  | _ => exact ⟨trivial, nofun⟩

/-- What a body was lowered to refers to nothing but what the body refers to. -/
theorem known_of_decode (htables : tables.Reachable) {body : Body} {supply : LabelSupply}
    {code : List Instruction} {labels : PositionLabels} {pass : Lowering}
    {stream : List NativeInstruction} (hread : body.decode tables supply = (.ok code, labels))
    (hlower : List.Forall₂ (Instruction.LowersTo pass) code stream) :
    ∀ n ∈ stream, n.operand.Known tables body.locals := by
  obtain ⟨ss, hss, -, -, hnatives⟩ := natives_of_decode hread hlower
  intro n hn
  obtain ⟨s, hs, hnative⟩ := exists_of_mem_right hnatives hn
  obtain ⟨bytes, -, operand, -, hspelled⟩ := hss.exists_spelled s hs
  exact .of_related hnative.operand (hspelled.known htables)

/-- The tables stay as they are while known strings are written. -/
theorem writeFrom_known {bound : List (NativeLabel × Nat)} {count index : Nat}
    {placed : List Placed} (h : ∀ p ∈ placed, p.insn.operand.Known tables locals) :
    (writeFrom bound count index tables placed).2 = tables := by
  induction placed generalizing index with
  | nil => rfl
  | cons p rest ih =>
    obtain ⟨hp, hrest⟩ := List.forall_mem_cons.1 h
    have hintern : (p.internString tables).2 = tables := by
      unfold Placed.internString
      split
      · next s hs =>
        obtain ⟨t, ht⟩ := hp.2 s hs
        show (tables.intern s).2 = tables
        rw [MetadataTables.intern_of_userString? ht]
      · rfl
    simp only [writeFrom, hintern]
    split
    · rfl
    · exact ih hrest

/-! ### Wrapped streams -/

/-- The code of hooks refers to the hooks and to the slot of the result. -/
theorem Hooks.InCode.known {hooks : List MethodRef} {result? : Option Local} {n : NativeInstruction}
    (h : InCode hooks result? n)
    (hhooks : ∀ hook ∈ hooks, tables.member? hook.token = some (.method hook))
    (hresult : ∀ slot, result? = some slot → locals[slot.index.toNat]? = some slot.type) :
    n.operand.Known tables locals := by
  cases h with
  | loadArgument i => exact ⟨trivial, nofun⟩
  | loadResult hslot => exact ⟨hresult _ hslot, nofun⟩
  | call hhook => exact ⟨hhooks _ hhook, nofun⟩
  | drop => exact ⟨trivial, nofun⟩
  | saveResult hslot => exact ⟨hresult _ hslot, nofun⟩
  | ret => exact ⟨trivial, nofun⟩

/-- A wrapped stream refers to what the stream refers to, the hooks and the slot of the result. -/
theorem known_hooked {method : MethodRef} {request : PatchRequest}
    {stream wrapped : List NativeInstruction} {g g' : Generator}
    (h : Host.hooked method request stream g = .ok (wrapped, g'))
    (hhooks : ∀ hook ∈ request.prefixes ++ request.suffixes,
      tables.member? hook.token = some (.method hook))
    (hroom : g.locals.length < 65536) (hstream : ∀ n ∈ stream, n.operand.Known tables g.locals) :
    ∀ n ∈ wrapped, n.operand.Known tables g'.locals := by
  obtain ⟨hprefixes, hsuffixes⟩ := List.forall_mem_append.1 hhooks
  obtain ⟨front, hfront, hcases⟩ := hooked_cases h
  have hknown : ∀ n ∈ front, n.operand.Known tables g'.locals := fun n hn =>
    (Hooks.inCode_before hfront n hn).known hprefixes nofun
  obtain ⟨-, rfl, hg⟩ | ⟨-, hg, back, hback, rfl⟩ := hcases
  · rw [hg] at hknown ⊢
    exact List.forall_mem_append.2 ⟨hknown, hstream⟩
  · rw [hg] at hknown ⊢
    refine List.forall_mem_append.2 ⟨List.forall_mem_append.2 ⟨hknown, ?_⟩, ?_⟩
    · -- a return becomes a branch, which refers to nothing
      intro n hn
      obtain ⟨m, hm, rfl⟩ := List.mem_map.1 hn
      unfold Hooks.redirect
      split
      · exact ⟨trivial, nofun⟩
      · exact (hstream m hm).append _
    · -- markers and labels of the first instruction do not matter
      have hknown' : ∀ n ∈ back, n.operand.Known tables (g.locals ++ method.returnType.toList) :=
        fun n hn => (Hooks.inCode_epilogue hback n hn).known hsuffixes
          fun _ => Hooks.resultSlot?_declared hroom
      cases back with
      | nil => exact List.forall_mem_nil _
      | cons first rest => exact List.forall_mem_cons.2 (List.forall_mem_cons.1 hknown')

end

/-! ### Building -/

/-- Encoding a stream all of whose operands are known leaves the metadata alone, and gives a body
that is read as the stream, if its layout is within reach. -/
theorem readsAs_of_known {tables tables' : MetadataTables} {stream : List NativeInstruction}
    {g : Generator} {body : Body}
    (hknown : ∀ n ∈ stream, n.operand.Known tables g.locals)
    (hencode : g.encode stream tables = (.ok body, tables'))
    (hreach : WithinReach (settle stream)) :
    tables' = tables ∧ body.locals = g.locals ∧ body.ReadsAs tables stream ∧
      (stream.flatMap (·.labels)).Nodup := by
  obtain ⟨-, -, hwrite, -, hlocals⟩ := Generator.encode_eq_ok_iff.1 hencode
  have hinsns : ∀ p ∈ settle stream, p.insn.operand.Known tables g.locals := by
    intro p hp
    refine hknown _ ?_
    rw [← map_insn_settle stream]
    exact List.mem_map_of_mem hp
  -- all strings have tokens already, so nothing is interned
  have htables' : tables' = tables :=
    (congrArg (·.2) hwrite).symm.trans (writeFrom_known hinsns)
  subst htables'
  obtain ⟨ss, hencoded⟩ := encodedAs_settle (fun n hn => (hknown n hn).1) hencode
    (fun n hn s hs => by
      obtain ⟨t, ht⟩ := (hknown n hn).2 s hs
      exact MetadataTables.keeps_of_userString? ht) hreach
  refine ⟨rfl, hlocals, readsAs_of_encode hencoded (codeSize_of_encode hencode ▸ hreach.size), ?_⟩
  have hnodup := hencoded.nodup
  rwa [← hencoded.insns, List.flatMap_map]

/-- The native form of a body that was read can be lifted, and its labels stand in order. -/
theorem liftable_of_decode {μ : Type} [Metadata μ] {metadata : μ} {body : Body}
    {supply : LabelSupply} {code : List Instruction} {labels : PositionLabels} {pass : Lowering}
    {stream : List NativeInstruction} (hread : body.decode metadata supply = (.ok code, labels))
    (hlower : List.Forall₂ (Instruction.LowersTo pass) code stream) :
    ∀ n ∈ stream, Instruction.Liftable n ∧ n.labels.Pairwise (·.number < ·.number) := by
  obtain ⟨ss, hss, -, -, hreadAs⟩ := readAs_of_decode hread
  intro n hn
  obtain ⟨s, hs, i, hi, hlowersTo⟩ := exists_of_mem_right (forall₂_comp hreadAs hlower) hn
  obtain ⟨hrow, hsuits⟩ := hss.suits s hs
  have hnative := native_of_lowersTo hi hlowersTo
  refine ⟨⟨s.info, by rw [hnative.opcode]; exact hrow, (hnative.operand.suits _).trans hsuits⟩, ?_⟩
  obtain ⟨ts, hts, hsort⟩ := hlowersTo.labels
  -- an instruction that was read has one label or none
  rw [hi.labels] at hts
  rw [hsort]
  generalize labels.labels.get? s.offset = mark at hts
  cases mark with
  | none =>
    cases hts
    exact .nil
  | some l =>
    obtain ⟨t, _, -, hrest, rfl⟩ := List.forall₂_cons_left_iff.1 hts
    cases hrest
    exact List.pairwise_singleton _ t

/-- The native form of a body is what is read from it, lowered in a pass of its own. -/
theorem nativeForm_eq_ok_iff {tables : MetadataTables} {base : Body} {journal journal' : Journal}
    {stream : List NativeInstruction} {g : Generator} :
    Host.nativeForm tables base journal = (.ok (stream, g), journal') ↔
      ∃ code labels pass, base.decode tables journal.supply = (.ok code, labels) ∧
        (Instruction.lowerAll code).run
          { generator := .withLocals base.locals, log := journal.log } = (.ok stream, pass) ∧
        g = pass.generator ∧
        journal' = { journal with supply := labels.supply, log := pass.log } := by
  unfold Host.nativeForm
  generalize base.decode tables journal.supply = outcome
  obtain ⟨decoded, labels⟩ := outcome
  cases decoded with
  | error e =>
    constructor
    · intro h
      cases h
    · rintro ⟨_, _, _, h, -⟩
      cases h
  | ok code =>
    simp only
    -- the pass is handed on whether lowering succeeds or not
    generalize hlower : (Instruction.lowerAll code).run
      { generator := .withLocals base.locals, log := journal.log } = lowered
    obtain ⟨lowered, pass⟩ := lowered
    rw [Prod.mk.injEq, map_eq_ok_iff]
    simp only [mapError_eq_ok_iff]
    constructor
    · rintro ⟨⟨_, rfl, heq⟩, rfl⟩
      cases heq
      exact ⟨code, labels, pass, rfl, hlower, rfl, rfl⟩
    · rintro ⟨_, _, _, heq, hrun, rfl, rfl⟩
      cases heq
      cases hlower.symm.trans hrun
      exact ⟨⟨stream, rfl, rfl⟩, rfl⟩

/-- The steps of building a body. -/
theorem build_steps {tables tables' : MetadataTables} {method : MethodRef} {base built : Body}
    {request : PatchRequest} {journal journal' : Journal}
    (h : Host.build tables method base request journal = (.ok built, tables', journal')) :
    ∃ code labels pass stream journal₁ out g wrapped g',
      base.decode tables journal.supply = (.ok code, labels) ∧ pass.Sound ∧
      pass.generator.locals = base.locals ∧
      List.Forall₂ (Instruction.LowersTo pass) code stream ∧
      Host.rewritten method request stream pass.generator journal₁ = (.ok (out, g), journal') ∧
      Host.hooked method request out g = .ok (wrapped, g') ∧
      g'.encode wrapped tables = (.ok built, tables') := by
  unfold Host.build at h
  split at h
  · cases h
  · next stream g₀ journal₁ hnative =>
    obtain ⟨code, labels, pass, hread, hlower, rfl, rfl⟩ := nativeForm_eq_ok_iff.1 hnative
    obtain ⟨hsound, hlocals, hlowersTo⟩ := Instruction.lowersTo_of_lowerAll hlower
    split at h
    · cases h
    · next out g journal₂ hrewritten =>
      split at h
      · cases h
      · next wrapped g' hhooked =>
        simp only [Prod.mk.injEq, mapError_eq_ok_iff] at h
        obtain ⟨hbody, htables, rfl⟩ := h
        exact ⟨code, labels, pass, stream, _, out, g, wrapped, g', hread,
          hsound (Lowering.sound_fresh _ _), hlocals, hlowersTo, hrewritten, hhooked,
          Prod.ext hbody htables⟩

/-- The steps of building a body without a rewrite stage. -/
theorem build_cases {tables tables' : MetadataTables} {method : MethodRef} {base built : Body}
    {request : PatchRequest} {journal journal' : Journal}
    (h : Host.build tables method base request journal = (.ok built, tables', journal'))
    (hrewrite : request.rewrite? = none) :
    ∃ code labels pass stream wrapped g', base.decode tables journal.supply = (.ok code, labels) ∧
      pass.Sound ∧ pass.generator.locals = base.locals ∧
      List.Forall₂ (Instruction.LowersTo pass) code stream ∧
      Host.hooked method request stream pass.generator = .ok (wrapped, g') ∧
      g'.encode wrapped tables = (.ok built, tables') := by
  obtain ⟨code, labels, pass, stream, journal₁, out, g, wrapped, g', hread, hsound, hlocals, hlower,
    hrewritten, hhooked, hencode⟩ := build_steps h
  simp only [Host.rewritten, hrewrite] at hrewritten
  cases hrewritten
  exact ⟨code, labels, pass, stream, wrapped, g', hread, hsound, hlocals, hlower, hhooked, hencode⟩

end MethodWeave
