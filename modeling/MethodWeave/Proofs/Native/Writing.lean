import MethodWeave.Proofs.Native.Operands
/-!
Writing a layout, held against the format of code bytes.

A placed instruction and a scanned one correspond when they begin at one offset with one opcode and
their payloads agree, the targets of the scanned one being the offsets of the labels
(`Placed.WrittenAs`).  Main results: what is written spells the instructions that correspond to the
layout (`spelling_of_writeFrom`), and bytes that spell instructions corresponding to a layout are
what is written for it (`writeFrom_of_spelling`).
-/

namespace MethodWeave

/-- A scanned instruction is what a placed one is written as, with targets related by `R`. -/
structure Placed.WrittenAs (R : NativeLabel → Int → Prop) (p : Placed) (s : Scanned) : Prop where
  offset : s.offset = p.start
  row : p.form.info? = some s.info
  payload : Payload.Related R p.insn.operand s.payload

/-! ### Sizes -/

section

variable {μ : Type} [Metadata μ] {metadata : μ} {locals : List TypeRef} {info : Opcode.Info}
  {stop : Nat}

/-- The bytes of a payload are as many as its class says. -/
theorem Payload.Spelled.length_eq {q : Payload Int} {bytes : List UInt8}
    (h : q.Spelled metadata locals info stop bytes) :
    bytes.length = info.operand.size q.targets.length := by
  cases h with
  | member t m hc _ _ =>
    rw [OperandClass.size_of_isMember hc]
    rfl
  | switch count ds hc hlen =>
    rw [hc, List.length_append, Bytes.length_ofUInt32, length_flatMap_ofUInt32, Payload.targets,
      List.length_map]
    rfl
  | _ => simp only [*]; rfl

/-- A layout leaves as many bytes for an instruction as are written for it. -/
theorem Placed.sizeAs_of_spelled {R : NativeLabel → Int → Prop} {p : Placed} {q : Payload Int}
    {bytes : List UInt8} (hinfo : p.form.info? = some info)
    (hrelated : Payload.Related R p.insn.operand q)
    (h : q.Spelled metadata locals info stop bytes) :
    p.insn.sizeAs p.form = (p.form.bytes ++ bytes).length := by
  rw [NativeInstruction.sizeAs_eq hinfo, List.length_append, Opcode.length_bytes, h.length_eq,
    hrelated.targets.length_eq]

end

/-! ### Whole layouts -/

theorem Placed.gains_internString (p : Placed) (tables : MetadataTables) :
    ∃ more, (p.internString tables).2.Gains tables more := by
  unfold Placed.internString
  split
  · exact MetadataTables.gains_intern tables _
  · exact ⟨[], MetadataTables.gains_nil tables⟩

theorem Placed.extends_internString (p : Placed) (tables : MetadataTables) :
    (p.internString tables).2.Extends tables := by
  obtain ⟨more, hmore⟩ := p.gains_internString tables
  exact hmore.extends

/-- Writing adds strings, and nothing else, to the tables; also when it fails on the way. -/
theorem gains_writeFrom {bound : List (NativeLabel × Nat)} {count index : Nat}
    {tables : MetadataTables} {placed : List Placed} :
    ∃ more, (writeFrom bound count index tables placed).2.Gains tables more := by
  induction placed generalizing index tables with
  | nil => exact ⟨[], MetadataTables.gains_nil tables⟩
  | cons p rest ih =>
    obtain ⟨first, hfirst⟩ := p.gains_internString tables
    simp only [writeFrom]
    split
    · exact ⟨first, hfirst⟩
    · obtain ⟨more, hmore⟩ := ih
      exact ⟨first ++ more, hfirst.append hmore⟩

theorem extends_of_writeFrom {bound : List (NativeLabel × Nat)} {count index : Nat}
    {tables tables' : MetadataTables} {placed : List Placed}
    {result : Except EncodeError (List UInt8)}
    (h : writeFrom bound count index tables placed = (result, tables')) :
    tables'.Extends tables := by
  have hgains : ∃ more, (writeFrom bound count index tables placed).2.Gains tables more :=
    gains_writeFrom
  rw [h] at hgains
  obtain ⟨more, hmore⟩ := hgains
  exact hmore.extends

/-- What it takes to write a layout that begins with an instruction. -/
theorem writeFrom_cons_eq_ok_iff {μ : Type} [Metadata μ] {bound : List (NativeLabel × Nat)}
    {count index : Nat} {metadata metadata' : μ} {p : Placed} {rest : List Placed}
    {code : List UInt8} :
    writeFrom bound count index metadata (p :: rest) = (.ok code, metadata') ↔
      ∃ operand more, p.operandBytes index bound count (p.internString metadata).1 = .ok operand ∧
        writeFrom bound count (index + 1) (p.internString metadata).2 rest = (.ok more, metadata') ∧
        code = p.form.bytes ++ operand ++ more := by
  simp only [writeFrom]
  cases p.operandBytes index bound count (p.internString metadata).1 with
  | error e => simp
  | ok operand =>
    simp only [Prod.mk.injEq, map_eq_ok_iff, Except.ok.injEq]
    constructor
    · rintro ⟨⟨more, hmore, rfl⟩, rfl⟩
      exact ⟨operand, more, rfl, Prod.ext hmore rfl, rfl⟩
    · rintro ⟨_, more, rfl, hmore, rfl⟩
      rw [hmore]
      exact ⟨⟨more, rfl, rfl⟩, rfl⟩

/-- What is written is as long as its layout. -/
theorem layoutEnd_of_writeFrom {μ : Type} [Metadata μ] {bound : List (NativeLabel × Nat)}
    {count index position : Nat} {metadata metadata' : μ}
    {pairs : List (NativeInstruction × Opcode)} {code : List UInt8}
    (hsuits : ∀ pair ∈ pairs, ∃ info, pair.2.info? = some info ∧ info.suits pair.1.operand = true)
    (h : writeFrom bound count index metadata (place position pairs) = (.ok code, metadata')) :
    layoutEnd position (place position pairs) = position + code.length := by
  induction pairs generalizing position index metadata code with
  | nil => cases h; rfl
  | cons pair rest ih =>
    obtain ⟨insn, form⟩ := pair
    obtain ⟨⟨info, hinfo, hinsn⟩, hrest⟩ := List.forall_mem_cons.1 hsuits
    obtain ⟨operand, more, hoperand, hmore, rfl⟩ := writeFrom_cons_eq_ok_iff.1 h
    have hlength := Placed.length_of_operandBytes hinfo hinsn hoperand
    rw [layoutEnd_place_cons, ih hrest hmore, List.length_append, List.length_append,
      Opcode.length_bytes]
    simp only at hlength ⊢
    omega

/-- The token that an instruction writes stands for the string that it loads. -/
theorem Placed.userString?_internString {p : Placed} {tables final : MetadataTables}
    (hfinal : final.Extends (p.internString tables).2) {s : String} (hkeeps : final.Keeps s)
    (hs : p.insn.operand = .string s) :
    Metadata.userString? final (p.internString tables).1 = some s := by
  have hintern : p.internString tables = tables.intern s := by
    simp only [Placed.internString, hs]; rfl
  rw [hintern] at hfinal ⊢
  exact hkeeps tables hfinal

theorem Payload.Registered.of_extends {τ : Type} {payload : Payload τ}
    {tables final : MetadataTables} {locals : List TypeRef} (hfinal : final.Extends tables)
    (h : payload.Registered tables locals) : payload.Registered final locals := by
  cases payload with
  | member m =>
    show final.member? m.token = some m
    rw [MetadataTables.member?, hfinal.members]
    exact h
  | signature s =>
    show final.signature? s.token = some s
    rw [MetadataTables.signature?, hfinal.signatures]
    exact h
  | _ => exact h

/-- What is written for a layout spells instructions that correspond to it, in the tables that the
writing leads to and in all that extend them, as long as strings are kept. -/
theorem spelling_of_writeFrom {bound : List (NativeLabel × Nat)} {locals : List TypeRef}
    {pairs : List (NativeInstruction × Opcode)} {position index : Nat}
    {tables tables' final : MetadataTables} {code : List UInt8}
    (hforms : ∀ pair ∈ pairs, ∃ info, pair.2.info? = some info ∧ info.suits pair.1.operand = true)
    (hregistered : ∀ pair ∈ pairs, pair.1.operand.Registered tables locals)
    (hstrays : ∀ p ∈ place position pairs, p.strays bound = false)
    (h : writeFrom bound locals.length index tables (place position pairs) = (.ok code, tables'))
    (hfinal : final.Extends tables')
    (hkeeps : ∀ pair ∈ pairs, ∀ s, pair.1.operand = .string s → final.Keeps s)
    (hsmall : code.length < 0x100000000) :
    ∃ ss, Spelling final locals position ss code ∧
      List.Forall₂ (fun p s => p.WrittenAs (p.Reaches bound) s) (place position pairs) ss := by
  induction pairs generalizing position index tables code with
  | nil =>
    cases h
    exact ⟨[], .nil position, .nil⟩
  | cons pair rest ih =>
    obtain ⟨insn, form⟩ := pair
    simp only [place] at h hstrays ⊢
    generalize hp : (⟨insn, form, position, position + insn.sizeAs form⟩ : Placed) = p
      at h hstrays ⊢
    have hinsn : p.insn = insn := by rw [← hp]
    have hform : p.form = form := by rw [← hp]
    obtain ⟨⟨info, hinfo, hsuits⟩, hforms⟩ := List.forall_mem_cons.1 hforms
    obtain ⟨hregistered₁, hregistered⟩ := List.forall_mem_cons.1 hregistered
    obtain ⟨hstrays₁, hstrays⟩ := List.forall_mem_cons.1 hstrays
    obtain ⟨hkeeps₁, hkeeps⟩ := List.forall_mem_cons.1 hkeeps
    obtain ⟨operand, more, hoperand, hmore, rfl⟩ := writeFrom_cons_eq_ok_iff.1 h
    have hintern := p.extends_internString tables
    have hrest : final.Extends (p.internString tables).2 :=
      hfinal.trans (extends_of_writeFrom hmore)
    rw [List.append_assoc, List.length_append, List.length_append] at hsmall
    have hrow : p.form.info? = some info := by rw [hform]; exact hinfo
    have hregistered' : p.insn.operand.Registered final locals := by
      rw [hinsn]
      exact hregistered₁.of_extends (hrest.trans hintern)
    -- the first instruction is spelled, and by induction the rest is
    obtain ⟨q, hrelated, hspelled⟩ := p.spelled_of_operandBytes final hrow hoperand
      (by rw [hinsn]; exact hsuits) hstrays₁ hregistered'
      (fun s hs => p.userString?_internString hrest (hkeeps₁ s (hinsn ▸ hs)) hs) (by omega)
    obtain ⟨ss, hss, hwritten⟩ := ih hforms
      (fun pair hpair => (hregistered pair hpair).of_extends hintern) hstrays hmore hkeeps (by omega)
    have hopcode : info.opcode = p.form := Opcode.opcode_of_info? hrow
    have hsize : p.insn.sizeAs p.form = (p.form.bytes ++ operand).length :=
      Placed.sizeAs_of_spelled hrow hrelated hspelled
    have hstop : p.stop = position + (p.form.bytes ++ operand).length := by
      rw [← hsize, ← hp]
    refine ⟨⟨position, info, q⟩ :: ss, ?_, .cons ⟨by rw [← hp], hrow, hrelated⟩ hwritten⟩
    refine .cons rfl ⟨hopcode ▸ hrow, operand, by rw [hopcode], ?_⟩ ?_
    · rw [← hstop]
      exact hspelled
    · rw [← hsize, hinsn, hform]
      exact hss

section

variable {μ : Type} [Metadata μ] {metadata : μ} {locals : List TypeRef}

/-- The bytes of an instruction are as many as the layout leaves for it. -/
theorem Placed.WrittenAs.length_eq {R : NativeLabel → Int → Prop} {p : Placed} {s : Scanned}
    {bytes : List UInt8} (h : p.WrittenAs R s) (hs : s.Spelled metadata locals bytes) :
    bytes.length = p.insn.sizeAs p.form := by
  obtain ⟨-, operand, rfl, hspelled⟩ := hs
  rw [Placed.sizeAs_of_spelled h.row h.payload hspelled, Opcode.opcode_of_info? h.row]

theorem Placed.WrittenAs.imp {R S : NativeLabel → Int → Prop} {p : Placed} {s : Scanned}
    (h : p.WrittenAs R s) (hRS : ∀ l t, R l t → S l t) : p.WrittenAs S s :=
  ⟨h.offset, h.row, h.payload.imp hRS⟩

/-- A layout ends where the code ends. -/
theorem layoutEnd_of_spelling {R : NativeLabel → Int → Prop}
    {pairs : List (NativeInstruction × Opcode)} {position : Nat} {ss : List Scanned}
    {code : List UInt8} (hss : Spelling metadata locals position ss code)
    (hwritten : List.Forall₂ (Placed.WrittenAs R) (place position pairs) ss) :
    layoutEnd position (place position pairs) = position + code.length := by
  induction pairs generalizing position ss code with
  | nil =>
    cases hwritten
    cases hss
    rfl
  | cons pair rest ih =>
    rw [layoutEnd_place_cons]
    simp only [place] at hwritten
    cases hwritten with
    | cons hfirst hrest =>
      cases hss with
      | cons hoffset hspelled htail =>
        have hlength := hfirst.length_eq hspelled
        simp only at hlength
        rw [hlength] at htail
        rw [ih htail hrest, List.length_append, hlength]
        omega

/-- Instructions that correspond to scanned ones in everything but their places are laid out where
the scanned ones stand. -/
theorem writtenAs_place {R : NativeLabel → Int → Prop} {stream : List NativeInstruction}
    {position : Nat} {ss : List Scanned} {code : List UInt8}
    (hss : Spelling metadata locals position ss code)
    (h : List.Forall₂ (fun (i : NativeInstruction) s =>
      i.opcode = s.info.opcode ∧ Payload.Related R i.operand s.payload) stream ss) :
    List.Forall₂ (Placed.WrittenAs R) (place position (stream.map fun i => (i, i.opcode))) ss := by
  induction h generalizing position code with
  | nil => exact .nil
  | @cons i s _ _ hfirst _ ih =>
    cases hss with
    | cons hoffset hspelled htail =>
      obtain ⟨hopcode, hpayload⟩ := hfirst
      have hrow := hspelled.1
      rw [← hopcode] at hrow
      have hwritten : Placed.WrittenAs R ⟨i, i.opcode, position, position + i.sizeAs i.opcode⟩ s :=
        ⟨hoffset, hrow, hpayload⟩
      refine .cons hwritten ?_
      rw [hwritten.length_eq hspelled] at htail
      exact ih htail

/-- A branch that is spelled in short form has its target within its reach. -/
theorem Placed.WrittenAs.not_strays {bound : List (NativeLabel × Nat)} {p : Placed} {s : Scanned}
    {bytes : List UInt8} (h : p.WrittenAs (LiesAt bound) s) (hs : s.Spelled metadata locals bytes)
    (hstop : p.stop = p.start + p.insn.sizeAs p.form) : p.strays bound = false := by
  rw [← h.length_eq hs, ← h.offset] at hstop
  obtain ⟨-, operand, -, hspelled⟩ := hs
  rw [← hstop] at hspelled
  have hrelated := h.payload
  unfold Placed.strays
  cases hop : p.insn.operand with
  | label l =>
    cases hlong : p.form.longForm? with
    | none => rfl
    | some long =>
      have hc := (Opcode.operand_of_longForm? h.row hlong).1
      rw [hop] at hrelated
      generalize s.payload = q at hrelated hspelled
      cases hrelated with
      | label hl =>
        cases hspelled with
        | shortBranch d _ =>
          have := d.toInt_lt
          have := d.le_toInt
          simp only [Placed.displacement?_of_liesAt hl, Option.isSome_some, Option.map_some,
            Option.getD_some, Placed.inShortRange, Bool.true_and, Bool.not_eq_false',
            Bool.and_eq_true, decide_eq_true_eq]
          omega
        | branch d hb =>
          -- an opcode with a long form is no branch of 32 bits
          rw [hc] at hb
          cases hb
  | _ => rfl

/-- A stream is laid out in its own forms if the code that they lead to is spelled in them. -/
theorem settle_of_writtenAs {stream : List NativeInstruction} {placed : List Placed}
    {ss : List Scanned} {code : List UInt8}
    (hplaced : placed = place 0 (stream.map fun i => (i, i.opcode)))
    (hss : Spelling metadata locals 0 ss code)
    (h : List.Forall₂ (Placed.WrittenAs (LiesAt (bindings placed))) placed ss) :
    settle stream = placed := by
  subst hplaced
  refine settle_of_not_strays fun p hp => ?_
  obtain ⟨s, hs, hwritten⟩ := exists_of_mem_left h hp
  obtain ⟨bytes, hspelled⟩ := hss.exists_spelled s hs
  exact hwritten.not_strays hspelled (stop_of_mem_place hp)

/-- Bytes that spell instructions corresponding to a layout are what is written for it, and writing
them adds nothing to the metadata. -/
theorem writeFrom_of_spelling {bound : List (NativeLabel × Nat)}
    {pairs : List (NativeInstruction × Opcode)} {position index : Nat} {ss : List Scanned}
    {code : List UInt8} (hcoherent : Metadata.Coherent metadata)
    (hss : Spelling metadata locals position ss code)
    (hwritten : List.Forall₂ (Placed.WrittenAs (LiesAt bound)) (place position pairs) ss) :
    writeFrom bound locals.length index metadata (place position pairs) = (.ok code, metadata) := by
  induction pairs generalizing position index ss code with
  | nil =>
    cases hwritten
    cases hss
    rfl
  | cons pair rest ih =>
    simp only [place] at hwritten ⊢
    cases hwritten with
    | cons hfirst hrest =>
      cases hss with
      | cons hoffset hspelled htail =>
        have hlength := hfirst.length_eq hspelled
        simp only at hlength
        obtain ⟨-, operand, rfl, hoperand⟩ := hspelled
        rw [hlength, hoffset] at hoperand
        rw [hlength] at htail
        -- nothing is interned here, so the rest is written into the same tables
        obtain ⟨token, hintern, hbytes⟩ :=
          Placed.operandBytes_of_spelled index hcoherent hfirst.row hfirst.payload hoperand
        rw [Opcode.opcode_of_info? hfirst.row]
        refine writeFrom_cons_eq_ok_iff.2 ⟨operand, _, ?_, ?_, rfl⟩
        · rw [hintern]
          exact hbytes
        · rw [hintern]
          exact ih htail hrest

end

/-! ### Reach -/

/-- Positions in the layout have 32 bits, and so have the displacements of its jumps. -/
structure WithinReach (placed : List Placed) : Prop where
  size : codeSize placed < 0x100000000
  displacements : ∀ p ∈ placed, ∀ l ∈ p.insn.operand.targets, ∀ d,
    p.displacement? (bindings placed) l = some d → -0x80000000 ≤ d ∧ d < 0x80000000

/-- In a layout of less than 2^31 bytes no displacement is longer. -/
theorem withinReach_place {pairs : List (NativeInstruction × Opcode)}
    (hsize : codeSize (place 0 pairs) < 0x80000000) : WithinReach (place 0 pairs) where
  size := by omega
  displacements p hp l _ d hd := by
    obtain ⟨k, hk, hdk⟩ := Placed.displacement?_eq_some.1 hd
    obtain ⟨target, htarget, -, hstart⟩ := mem_of_lookup_bindings hk
    have hstop : ∀ q ∈ place 0 pairs, q.stop < 0x80000000 := fun q hq =>
      Nat.lt_of_le_of_lt ((stop_le_layoutEnd 0 pairs).2 q hq) hsize
    have := hstop p hp
    have := hstop target htarget
    have := stop_of_mem_place htarget
    omega

/-- Within reach, a target lies where its label does. -/
theorem Placed.WrittenAs.liesAt {placed : List Placed} {p : Placed} {s : Scanned}
    (hreach : WithinReach placed) (hp : p ∈ placed)
    (h : p.WrittenAs (p.Reaches (bindings placed)) s) :
    p.WrittenAs (LiesAt (bindings placed)) s := by
  refine ⟨h.offset, h.row, h.payload.imp_of_mem fun l t hl _ ⟨d, hd, ht⟩ => ?_⟩
  obtain ⟨hlow, hhigh⟩ := hreach.displacements p hp l hl d hd
  obtain ⟨k, hk, hdk⟩ := Placed.displacement?_eq_some.1 hd
  refine ⟨k, hk, ?_⟩
  rw [ht hlow hhigh, hdk]
  omega

end MethodWeave
