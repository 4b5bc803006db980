import MethodWeave.Proofs.Instruction.Decoding
import MethodWeave.Proofs.Native.Encodable
/-!
One stream encoded into two heaps of strings.

The tokens of the strings that a stream loads depend on what else is in the heap, and nothing else
of the body does.  So two bodies that encode the same stream have the same locals, the same
exception table and codes of the same length (`encode_shape`), and they are read alike, each in its
own tables (`decode_alike`): to the same instructions with the same labels, or to the same failure.
-/

namespace MethodWeave

/-! ### Tables that differ in their strings -/

namespace MetadataTables

/-- The tables have the same members and the same signatures. -/
structure SameMembers (tables tables' : MetadataTables) : Prop where
  members : tables'.members = tables.members
  signatures : tables'.signatures = tables.signatures

variable {tables tables' : MetadataTables}

theorem SameMembers.member? (h : tables.SameMembers tables') (t : Token) :
    Metadata.member? tables' t = Metadata.member? tables t :=
  congrArg (·.get? t.key) h.members

theorem SameMembers.signature? (h : tables.SameMembers tables') (t : Token) :
    Metadata.signature? tables' t = Metadata.signature? tables t :=
  congrArg (·.get? t.key) h.signatures

theorem Extends.sameMembers {before : MetadataTables} (h : tables.Extends before)
    (h' : tables'.Extends before) : tables.SameMembers tables' :=
  ⟨h'.members.trans h.members.symm, h'.signatures.trans h.signatures.symm⟩

theorem Extends.sameMembers_self {before : MetadataTables} (h : tables.Extends before) :
    before.SameMembers tables :=
  ⟨h.members, h.signatures⟩

/-- A token that stands for a string stands for it in all larger tables. -/
theorem Extends.userString? {before : MetadataTables} (h : tables.Extends before) {t : Token}
    {s : String} (hs : before.userString? t = some s) : tables.userString? t = some s := by
  unfold StringHeap.userString? at hs ⊢
  split at hs
  · next ht =>
    rw [if_pos ht]
    exact h.getElem?_strings hs
  · cases hs

end MetadataTables

section

variable {tables tables' : MetadataTables} {locals : List TypeRef} {info : Opcode.Info} {stop : Nat}

/-- What bytes spell apart from strings, they spell in both tables. -/
theorem Payload.Spelled.of_sameMembers {q : Payload Int} {bytes : List UInt8}
    (h : q.Spelled tables locals info stop bytes) (hsame : tables.SameMembers tables')
    (hstring : info.operand ≠ .string) : q.Spelled tables' locals info stop bytes := by
  cases h with
  | string t s hc hs => exact absurd hc hstring
  | member t m hc hm hsuits => exact .member t m hc ((hsame.member? t).trans hm) hsuits
  | signature t s hc hs => exact .signature t s hc ((hsame.signature? t).trans hs)
  | none hc => exact .none hc
  | shortBranch d hc => exact .shortBranch d hc
  | branch d hc => exact .branch d hc
  | shortInt v hc => exact .shortInt v hc
  | int v hc => exact .int v hc
  | int8 v hc => exact .int8 v hc
  | shortReal v hc => exact .shortReal v hc
  | real v hc => exact .real v hc
  | shortLocal i type hc hl htype => exact .shortLocal i type hc hl htype
  | «local» i type hc hl htype => exact .local i type hc hl htype
  | shortArgument i hc hl => exact .shortArgument i hc hl
  | argument i hc hl => exact .argument i hc hl
  | switch count ds hc hlen => exact .switch count ds hc hlen

/-- What bytes spell, they spell in all larger tables. -/
theorem Payload.Spelled.of_extends {q : Payload Int} {bytes : List UInt8}
    (h : q.Spelled tables locals info stop bytes) (hextends : tables'.Extends tables) :
    q.Spelled tables' locals info stop bytes := by
  by_cases hstring : info.operand = .string
  · cases h with
    | string t s hc hs => exact .string t s hc (hextends.userString? hs)
    | member t m hc _ _ => simp [hstring, OperandClass.isMember] at hc
    | _ => simp_all
  · exact h.of_sameMembers (hextends.sameMembers_self) hstring

theorem Spelling.of_extends {position : Nat} {ss : List Scanned} {code : List UInt8}
    (h : Spelling tables locals position ss code) (hextends : tables'.Extends tables) :
    Spelling tables' locals position ss code := by
  induction h with
  | nil position => exact .nil position
  | cons hoffset hspelled _ ih =>
    obtain ⟨hrow, operand, hbytes, hoperand⟩ := hspelled
    exact .cons hoffset ⟨hrow, operand, hbytes, hoperand.of_extends hextends⟩ ih

/-- A body that is read is read to the same instructions in all larger tables. -/
theorem Body.decode_of_extends {body : Body} {supply : LabelSupply} {out : List Instruction}
    {labels : PositionLabels} (h : body.decode tables supply = (.ok out, labels))
    (hextends : tables'.Extends tables) : body.decode tables' supply = (.ok out, labels) := by
  obtain ⟨ss, is, hss, his⟩ := Body.decode_eq_ok_iff.1 h
  exact Body.decode_eq_ok_iff.2 ⟨ss, is, hss.of_extends hextends, his⟩

/-! ### One operand -/

namespace Placed

variable {p : Placed} {index localCount : Nat} {bound : List (NativeLabel × Nat)}

/-- The token only matters to an instruction that loads a string. -/
theorem operandBytes_of_not_string (h : ∀ s, p.insn.operand ≠ .string s) (token token' : Token) :
    p.operandBytes index bound localCount token' = p.operandBytes index bound localCount token := by
  unfold operandBytes
  cases hop : p.insn.operand with
  | string s => exact absurd hop (h s)
  | _ => rcases p.form.operandClass? with _ | c <;> first | rfl | cases c <;> rfl

end Placed

/-- How two readers read a payload of one kind: both give the same, or fail alike. -/
def Reader.PayloadAlike (tables tables' : MetadataTables) (locals : List TypeRef)
    (info : Opcode.Info) (r₁ r₁' r₂ r₂' : Reader) : Prop :=
  ∀ offset, ∃ outcome : Except InstructionError (Payload Int),
    r₁.payload tables locals offset info = outcome.map (·, r₁') ∧
      r₂.payload tables' locals offset info = outcome.map (·, r₂')

variable {r₁ r₁' r₂ r₂' : Reader} {bytes₁ bytes₂ : List UInt8}

theorem Reader.payloadAlike_of_spelled {q : Payload Int} (hpass₁ : r₁.Passes bytes₁ r₁')
    (hpass₂ : r₂.Passes bytes₂ r₂') (h₁ : q.Spelled tables locals info r₁'.position bytes₁)
    (h₂ : q.Spelled tables' locals info r₂'.position bytes₂) :
    Reader.PayloadAlike tables tables' locals info r₁ r₁' r₂ r₂' :=
  fun _ => ⟨.ok q, Reader.payload_of_spelled hpass₁ h₁, Reader.payload_of_spelled hpass₂ h₂⟩

theorem Reader.payload_member {r r' : Reader} {t : Token} (hc : info.operand.isMember = true)
    (hpass : r.Passes (Bytes.ofUInt32 t.value) r') (offset : Nat) :
    r.payload tables locals offset info =
      (resolveToken offset t (Metadata.member? tables t) >>= fun m =>
        if info.suits (.member m : Payload Int) then .ok (.member m)
        else .error (.unresolvedToken offset t)).map (·, r') := by
  rw [Reader.payload_of_isMember hc, Reader.u32_iff.2 hpass]
  cases hm : Metadata.member? tables t with
  | none => simp only [InstructionError.ofRead, Except.mapError, bind, Except.bind, hm]; rfl
  | some m =>
    simp only [InstructionError.ofRead, Except.mapError, bind, Except.bind, hm, resolveToken]
    split <;> rfl

theorem Reader.payload_signature {r r' : Reader} {t : Token} (hc : info.operand = .signature)
    (hpass : r.Passes (Bytes.ofUInt32 t.value) r') (offset : Nat) :
    r.payload tables locals offset info =
      ((resolveToken offset t (Metadata.signature? tables t)).map .signature).map (·, r') := by
  simp only [Reader.payload, hc, Reader.u32_iff.2 hpass]
  cases hs : Metadata.signature? tables t <;>
    simp only [InstructionError.ofRead, Except.mapError, bind, Except.bind, hs] <;> rfl

/-- **What is written for one operand is read alike.**  The two readers stand in front of the bytes
that are written for one operand with two tokens, each of which stands for the string that is
loaded, if one is. -/
theorem Placed.payloadAlike {p : Placed} {index : Nat} {bound : List (NativeLabel × Nat)}
    {token₁ token₂ : Token} (hinfo : p.form.info? = some info)
    (hsuits : info.suits p.insn.operand = true) (hstrays : p.strays bound = false)
    (hsame : tables.SameMembers tables')
    (hstring : ∀ s, p.insn.operand = .string s → Metadata.userString? tables token₁ = some s ∧
      Metadata.userString? tables' token₂ = some s)
    (h₁ : p.operandBytes index bound locals.length token₁ = .ok bytes₁)
    (h₂ : p.operandBytes index bound locals.length token₂ = .ok bytes₂)
    (hsmall : bytes₁.length < 0x100000000) (hpass₁ : r₁.Passes bytes₁ r₁')
    (hpass₂ : r₂.Passes bytes₂ r₂') (hstop₁ : r₁'.position = p.stop)
    (hstop₂ : r₂'.position = p.stop) :
    Reader.PayloadAlike tables tables' locals info r₁ r₁' r₂ r₂' := by
  have hwrites₁ := p.writesOperand_of_operandBytes hinfo hsuits h₁
  by_cases hloads : ∃ s, p.insn.operand = .string s
  · -- the bytes are two tokens of the string
    obtain ⟨s, hop⟩ := hloads
    obtain ⟨hs₁, hs₂⟩ := hstring s hop
    have hwrites₂ := p.writesOperand_of_operandBytes hinfo hsuits h₂
    rw [hop] at hwrites₁ hwrites₂
    cases hwrites₁ with
    | string _ hc =>
      cases hwrites₂
      exact Reader.payloadAlike_of_spelled hpass₁ hpass₂ (.string token₁ s hc hs₁)
        (.string token₂ s hc hs₂)
  · -- the bytes are the same
    obtain rfl : bytes₁ = bytes₂ := by
      rw [Placed.operandBytes_of_not_string (not_exists.1 hloads) token₁] at h₂
      exact Except.ok.inj (h₁.symm.trans h₂)
    have hc : info.operand ≠ .string := by
      intro hc
      cases hop : p.insn.operand with
      | string s => exact hloads ⟨s, hop⟩
      | _ => simp [Opcode.Info.suits, hc, hop] at hsuits
    have halike {q : Payload Int} (hq : q.Spelled tables locals info p.stop bytes₁) :
        Reader.PayloadAlike tables tables' locals info r₁ r₁' r₂ r₂' :=
      Reader.payloadAlike_of_spelled hpass₁ hpass₂ (hstop₁.symm ▸ hq)
        (hstop₂.symm ▸ hq.of_sameMembers hsame hc)
    cases hop : p.insn.operand with
    | member m =>
      -- the token may not resolve, or to a member that the opcode does not take
      rw [hop] at hwrites₁
      cases hwrites₁ with
      | member _ hmember _ =>
        refine fun offset => ⟨_, Reader.payload_member hmember hpass₁ offset, ?_⟩
        rw [Reader.payload_member hmember hpass₂ offset, hsame.member?]
    | signature v =>
      rw [hop] at hwrites₁
      cases hwrites₁ with
      | signature _ hsignature =>
        refine fun offset => ⟨_, Reader.payload_signature hsignature hpass₁ offset, ?_⟩
        rw [Reader.payload_signature hsignature hpass₂ offset, hsame.signature?]
    | «local» l =>
      -- the slot is declared, though perhaps with another type
      rw [hop] at hwrites₁
      have hlt : l.index.toNat < locals.length := by cases hwrites₁ <;> assumption
      exact halike (hwrites₁.spelled_local tables (List.getElem?_eq_getElem hlt))
    | _ =>
      obtain ⟨q, -, hq⟩ := p.spelled_of_operandBytes tables hinfo h₁ hsuits hstrays
        (by rw [hop]; trivial) (fun s hs => (hstring s hs).1) hsmall
      exact halike hq

/-! ### Whole codes -/

/-- A reader passes over the bytes of an opcode, and then over those of an operand. -/
theorem Reader.exists_passes {r : Reader} {opcode operand more : List UInt8}
    (h : r.rest = opcode ++ operand ++ more) :
    ∃ r' r'', r.mark.Passes opcode r' ∧ r'.Passes operand r'' ∧ r''.rest = more ∧
      r''.position = r.position + (opcode ++ operand).length := by
  have hpass : r.mark.Passes (opcode ++ operand) (r.mark.skip (opcode ++ operand).length) :=
    Reader.passes_of_rest h
  obtain ⟨r', hopcode, hoperand⟩ := Reader.passes_append_iff.1 hpass
  exact ⟨r', _, hopcode, hoperand, Reader.rest_skip h, hpass.position⟩

/-- A reader in front of an opcode is not at its end. -/
theorem Reader.isEmpty_eq_false {r : Reader} {form : Opcode} {operand more : List UInt8}
    (h : r.rest = form.bytes ++ operand ++ more) : r.isEmpty = false := by
  have hpos := form.length_bytes_pos
  rw [isEmpty, h, List.isEmpty_eq_false_iff_exists_mem]
  obtain ⟨b, hb⟩ := List.exists_mem_of_length_pos hpos
  exact ⟨b, List.mem_append_left _ (List.mem_append_left _ hb)⟩

/-- An instruction whose payloads are read alike is read alike. -/
theorem Reader.instruction_alike {form : Opcode} (hinfo : form.info? = some info)
    (hpass₁ : r₁.mark.Passes form.bytes r₁') (hpass₂ : r₂.mark.Passes form.bytes r₂')
    {r₁'' r₂'' : Reader} (hposition : r₂.position = r₁.position)
    (h : Reader.PayloadAlike tables tables' locals info r₁' r₁'' r₂' r₂'') :
    ∃ outcome : Except InstructionError Scanned,
      r₁.instruction tables locals = outcome.map (·, r₁'') ∧
        r₂.instruction tables' locals = outcome.map (·, r₂'') := by
  have hopcode := Opcode.opcode_of_info? hinfo
  have hread₁ : r₁.opcode = .ok (info, r₁') :=
    Reader.opcode_iff.2 (hopcode ▸ ⟨hinfo, hpass₁⟩)
  have hread₂ : r₂.opcode = .ok (info, r₂') :=
    Reader.opcode_iff.2 (hopcode ▸ ⟨hinfo, hpass₂⟩)
  obtain ⟨outcome, h₁, h₂⟩ := h r₁.position
  refine ⟨outcome.map fun payload => ⟨r₁.position, info, payload⟩, ?_, ?_⟩
  · simp only [Reader.instruction, hread₁, InstructionError.ofRead, Except.mapError, bind,
      Except.bind, h₁]
    cases outcome <;> rfl
  · simp only [Reader.instruction, hread₂, InstructionError.ofRead, Except.mapError, bind,
      Except.bind, hposition, h₂]
    cases outcome <;> rfl

/-- What is written for a layout with two heaps of strings is read alike. -/
theorem Reader.instructions_alike {bound : List (NativeLabel × Nat)}
    {pairs : List (NativeInstruction × Opcode)}
    (hforms : ∀ pair ∈ pairs, ∃ info, pair.2.info? = some info ∧ info.suits pair.1.operand = true)
    {position : Nat} (hstrays : ∀ p ∈ place position pairs, p.strays bound = false)
    (hsame : tables.SameMembers tables')
    (hkeeps : ∀ pair ∈ pairs, ∀ s, pair.1.operand = .string s → tables.Keeps s ∧ tables'.Keeps s)
    {index : Nat} {before₁ before₂ after₁ after₂ : MetadataTables} {code₁ code₂ : List UInt8}
    (h₁ : writeFrom bound locals.length index before₁ (place position pairs) = (.ok code₁, after₁))
    (h₂ : writeFrom bound locals.length index before₂ (place position pairs) = (.ok code₂, after₂))
    (hafter₁ : tables.Extends after₁) (hafter₂ : tables'.Extends after₂)
    (hsmall : code₁.length < 0x100000000) (hrest₁ : r₁.rest = code₁) (hrest₂ : r₂.rest = code₂)
    (hposition₁ : r₁.position = position) (hposition₂ : r₂.position = position) (limit : Nat) :
    r₁.instructions tables locals limit = r₂.instructions tables' locals limit := by
  -- the induction is on the layout; writings, readers and positions move on together
  induction pairs generalizing position index before₁ before₂ code₁ code₂ r₁ r₂ limit with
  | nil =>
    cases h₁
    cases h₂
    cases limit <;> simp only [Reader.instructions, Reader.isEmpty, hrest₁, hrest₂]
    rfl
  | cons pair rest ih =>
    cases limit with
    | zero => rfl
    | succ limit =>
      obtain ⟨insn, form⟩ := pair
      simp only [place] at h₁ h₂ hstrays
      generalize hp : (⟨insn, form, position, position + insn.sizeAs form⟩ : Placed) = p
        at h₁ h₂ hstrays
      have hinsn : p.insn = insn := by rw [← hp]
      have hform : p.form = form := by rw [← hp]
      obtain ⟨⟨info, hinfo, hsuits⟩, hforms⟩ := List.forall_mem_cons.1 hforms
      obtain ⟨hstrays₁, hstrays⟩ := List.forall_mem_cons.1 hstrays
      obtain ⟨hkeeps₁, hkeeps⟩ := List.forall_mem_cons.1 hkeeps
      simp only [← hform, ← hinsn] at hinfo hsuits hkeeps₁
      obtain ⟨operand₁, more₁, hoperand₁, hmore₁, rfl⟩ := writeFrom_cons_eq_ok_iff.1 h₁
      obtain ⟨operand₂, more₂, hoperand₂, hmore₂, rfl⟩ := writeFrom_cons_eq_ok_iff.1 h₂
      -- both readers come to the end of the first instruction together
      obtain ⟨m₁, e₁, hopcode₁, hpass₁, hrest₁', hposition₁'⟩ := Reader.exists_passes hrest₁
      obtain ⟨m₂, e₂, hopcode₂, hpass₂, hrest₂', hposition₂'⟩ := Reader.exists_passes hrest₂
      have hsize₁ := p.length_of_operandBytes hinfo hsuits hoperand₁
      have hsize₂ := p.length_of_operandBytes hinfo hsuits hoperand₂
      have hstop : p.stop = position + p.insn.sizeAs p.form := by rw [hinsn, hform, ← hp]
      simp only [List.length_append, Opcode.length_bytes] at hposition₁' hposition₂' hsmall
      have hafter : ∀ s, p.insn.operand = .string s →
          Metadata.userString? tables (p.internString before₁).1 = some s ∧
            Metadata.userString? tables' (p.internString before₂).1 = some s := fun s hs =>
        ⟨p.userString?_internString (hafter₁.trans (extends_of_writeFrom hmore₁)) (hkeeps₁ s hs).1 hs,
          p.userString?_internString (hafter₂.trans (extends_of_writeFrom hmore₂)) (hkeeps₁ s hs).2 hs⟩
      obtain ⟨outcome, hread₁, hread₂⟩ := Reader.instruction_alike hinfo hopcode₁ hopcode₂
        (hposition₂.trans hposition₁.symm)
        (p.payloadAlike hinfo hsuits hstrays₁ hsame hafter hoperand₁ hoperand₂ (by omega) hpass₁
          hpass₂ (by omega) (by omega))
      simp only [Reader.instructions, Reader.isEmpty_eq_false hrest₁, Reader.isEmpty_eq_false hrest₂,
        hread₁, hread₂, Bool.false_eq_true, if_false]
      cases outcome with
      | error e => rfl
      | ok s =>
        -- and they go on in front of what is written for the rest
        simp only [Except.map]
        rw [ih hforms hstrays hkeeps hmore₁ hmore₂ (by omega) hrest₁' hrest₂' ?_ ?_ limit]
        · rw [← hform, ← hinsn]; omega
        · rw [← hform, ← hinsn]; omega

end

/-! ### Whole bodies -/

section

variable {g : Generator} {stream : List NativeInstruction}
  {before₁ before₂ after₁ after₂ : MetadataTables} {body₁ body₂ : Body}

/-- Encoding adds strings, and nothing else, to the tables; also when it fails. -/
theorem gains_encode {tables tables' : MetadataTables} {result : Except EncodeError Body}
    (h : g.encode stream tables = (result, tables')) : ∃ more, tables'.Gains tables more := by
  unfold Generator.encode at h
  split at h
  · cases h
    exact ⟨[], tables.gains_nil⟩
  · cases h
    exact gains_writeFrom

theorem extends_encode {tables tables' : MetadataTables} {result : Except EncodeError Body}
    (h : g.encode stream tables = (result, tables')) : tables'.Extends tables := by
  obtain ⟨more, hmore⟩ := gains_encode h
  exact hmore.extends

/-- Everything of a body but the bytes of its code is the stream's own. -/
theorem encode_shape (h₁ : g.encode stream before₁ = (.ok body₁, after₁))
    (h₂ : g.encode stream before₂ = (.ok body₂, after₂)) :
    body₁.locals = body₂.locals ∧ body₁.clauses = body₂.clauses ∧
      body₁.code.length = body₂.code.length := by
  obtain ⟨-, -, -, hclauses₁, hlocals₁⟩ := Generator.encode_eq_ok_iff.1 h₁
  obtain ⟨-, -, -, hclauses₂, hlocals₂⟩ := Generator.encode_eq_ok_iff.1 h₂
  exact ⟨hlocals₁.trans hlocals₂.symm, Except.ok.inj (hclauses₁.symm.trans hclauses₂),
    (codeSize_of_encode h₁).symm.trans (codeSize_of_encode h₂)⟩

/-- **Two bodies that encode one stream are read alike**, each in the tables that encoding it led
to, if the tables have the same members and keep the strings that the stream loads. -/
theorem decode_alike (h₁ : g.encode stream before₁ = (.ok body₁, after₁))
    (h₂ : g.encode stream before₂ = (.ok body₂, after₂)) (hsame : after₁.SameMembers after₂)
    (hkeeps : ∀ n ∈ stream, ∀ s, n.operand = .string s → after₁.Keeps s ∧ after₂.Keeps s)
    (hsize : body₁.code.length < 0x100000000) (supply : LabelSupply) :
    body₁.decode after₁ supply = body₂.decode after₂ supply := by
  obtain ⟨hlocals, hclauses, hlength⟩ := encode_shape h₁ h₂
  obtain ⟨hcheck, -, hwrite₁, -, hlocals₁⟩ := Generator.encode_eq_ok_iff.1 h₁
  obtain ⟨-, -, hwrite₂, -, -⟩ := Generator.encode_eq_ok_iff.1 h₂
  obtain ⟨settled, hsettle, hinsns, hforms, hstrays⟩ := settle_settled stream
  rw [hsettle, ← hlocals₁] at hwrite₁ hwrite₂
  have hmem (pair : NativeInstruction × Opcode) (hpair : pair ∈ settled) : pair.1 ∈ stream := by
    rw [← hinsns]
    exact List.mem_map_of_mem hpair
  have hscan : body₁.scan after₁ = body₂.scan after₂ := by
    unfold Body.scan
    rw [← hlocals, ← hlength]
    refine Reader.instructions_alike (fun pair hpair => ?_) hstrays hsame
      (fun pair hpair => hkeeps _ (hmem pair hpair)) hwrite₁ hwrite₂ (.refl _) (.refl _) hsize rfl rfl
      rfl rfl _
    obtain ⟨info, hinfo, hsuits⟩ := checkFrom_iff.1 hcheck _ (hmem pair hpair)
    exact (hforms pair hpair).suits hinfo hsuits
  simp only [Body.decode, Body.instructions, hscan, hclauses, hlength]

end

/-- **An encoded body is read**, if what its stream refers to is registered. -/
theorem exists_decode_of_encode {g : Generator} {stream : List NativeInstruction}
    {tables tables' : MetadataTables} {body : Body}
    (h : g.encode stream tables = (.ok body, tables'))
    (hregistered : ∀ n ∈ stream, n.operand.Registered tables g.locals)
    (hsize : body.code.length < 0x80000000) (hrows : tables'.strings.length < Token.rowLimit)
    (supply : LabelSupply) : ∃ out labels, body.decode tables' supply = (.ok out, labels) := by
  obtain ⟨ss, hencoded⟩ := encodedAs_settle hregistered h
    (fun _ _ s _ => MetadataTables.keeps_of_length hrows s) (withinReach_of_encode h hsize)
  exact exists_decode supply hencoded.spelled (hencoded.targets (by omega)) hencoded.regions

/-- The bodies, each with the tables of its module, differ in nothing but the tokens of strings.
They are read alike as long as positions have 32 bits and strings fit the rows that tokens can name.
-/
structure Body.SameUpToStrings (tables₁ tables₂ : MetadataTables) (body₁ body₂ : Body) : Prop where
  locals : body₁.locals = body₂.locals
  clauses : body₁.clauses = body₂.clauses
  length : body₁.code.length = body₂.code.length
  decode : body₁.code.length < 0x100000000 → tables₁.strings.length < Token.rowLimit →
    tables₂.strings.length < Token.rowLimit →
    ∀ supply, body₁.decode tables₁ supply = body₂.decode tables₂ supply

/-- Two bodies that encode one stream differ in nothing but the tokens of strings. -/
theorem sameUpToStrings_of_encode {g : Generator} {stream : List NativeInstruction}
    {before₁ before₂ after₁ after₂ : MetadataTables} {body₁ body₂ : Body}
    (h₁ : g.encode stream before₁ = (.ok body₁, after₁))
    (h₂ : g.encode stream before₂ = (.ok body₂, after₂)) (hsame : after₁.SameMembers after₂) :
    body₁.SameUpToStrings after₁ after₂ body₂ := by
  obtain ⟨hlocals, hclauses, hlength⟩ := encode_shape h₁ h₂
  refine ⟨hlocals, hclauses, hlength, fun hsize hrows₁ hrows₂ supply => ?_⟩
  refine decode_alike h₁ h₂ hsame (fun _ _ s _ => ?_) hsize supply
  exact ⟨MetadataTables.keeps_of_length hrows₁ s, MetadataTables.keeps_of_length hrows₂ s⟩

end MethodWeave
