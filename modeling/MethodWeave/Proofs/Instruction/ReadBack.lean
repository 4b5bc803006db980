import MethodWeave.Proofs.Instruction.Decoding
import MethodWeave.Proofs.Instruction.Lowering
import MethodWeave.Proofs.Native.Encoding
/-!
Encoding a list of instructions and decoding the body gives the instructions back.

Labels and offsets change on the way, and short branches may be widened; what stays is which
instruction a jump goes to.  A label is followed from the instruction that it marks to the native
label, to the offset in the settled layout, and to the label that decoding makes for that offset;
each of these marks one instruction only, and all mark the one at the same place in the list.
-/

namespace MethodWeave

/-! ### What is preserved -/

/-- The label marks the instruction at an index of the list, and no other. -/
def MarksOnly (instructions : List Instruction) (l : Label) (index : Nat) : Prop :=
  (∃ i, instructions[index]? = some i ∧ l ∈ i.labels) ∧
    ∀ k i, instructions[k]? = some i → l ∈ i.labels → k = index

/-- Two labels mark just the instructions at one index, each in its own list. -/
def SameTarget (instructions others : List Instruction) (l l' : Label) : Prop :=
  ∃ index, MarksOnly instructions l index ∧ MarksOnly others l' index

/-- What an instruction is read back as: its own opcode or the long form of it, and the same
operand with related labels. -/
structure Instruction.ReadBackAs (R : Label → Label → Prop) (i o : Instruction) : Prop where
  opcode : o.opcode = i.opcode ∨ i.opcode.longForm? = some o.opcode
  operand : ∃ p q, i.operand.payload? = some p ∧ o.operand.payload? = some q ∧
    Payload.Related R p q

/-- All labels of the instruction, those that mark it and those of its operand, are free. -/
structure Instruction.IsFree (i : Instruction) : Prop where
  labels : ∀ l ∈ i.labels, l.fixed? = none
  targets : ∀ p, i.operand.payload? = some p → ∀ l ∈ p.targets, l.fixed? = none

/-! ### Following a label -/

section

variable {pass : Lowering} {placed : List Placed} {instructions : List Instruction}

/-- A free label marks just the instruction that lies where its native label does. -/
theorem marksOnly_of_liesAt (hfree : ∀ i ∈ instructions, i.IsFree) (hpass : pass.Sound)
    (hlower : List.Forall₂ (fun i p => Instruction.LowersTo pass i p.insn) instructions placed)
    (hnodup : (placed.flatMap (·.insn.labels)).Nodup)
    (hstarts : placed.Pairwise fun a b => a.start < b.start) {l : Label} {t : NativeLabel} {k : Int}
    (hl : l.fixed? = none) (hresolved : pass.Resolved l t) (hlies : LiesAt (bindings placed) t k) :
    ∃ index p, placed[index]? = some p ∧ k = p.start ∧ MarksOnly instructions l index := by
  obtain ⟨start, hlookup, rfl⟩ := hlies
  obtain ⟨p, hp, hmark, rfl⟩ := mem_of_lookup_bindings hlookup
  obtain ⟨index, hindex⟩ := List.mem_iff_getElem?.1 hp
  refine ⟨index, p, hindex, rfl, ?_, ?_⟩
  · -- the instruction has a label that resolves to the native one, and that is `l`
    obtain ⟨i, hi, hlow⟩ := exists_getElem?_right hlower hindex
    obtain ⟨ts, hts, hsort⟩ := hlow.labels
    rw [hsort, (NativeLabel.perm_sort ts).mem_iff] at hmark
    obtain ⟨l', hl', hresolved'⟩ := exists_of_mem_right hts hmark
    have hfree' := (hfree i (List.mem_of_getElem? hi)).labels l' hl'
    rw [hpass.eq_of_resolved hl hfree' hresolved hresolved']
    exact ⟨i, hi, hl'⟩
  · -- whatever the label marks starts where the native label lies
    intro k i hi hmem
    obtain ⟨p', hp', hlow⟩ := exists_getElem?_left hlower hi
    obtain ⟨ts, hts, hsort⟩ := hlow.labels
    obtain ⟨t', ht', hresolved'⟩ := exists_of_mem_left hts hmem
    rw [pass.resolved_unique hresolved' hresolved] at ht'
    have hmark' : t ∈ p'.insn.labels := by
      rw [hsort, (NativeLabel.perm_sort ts).mem_iff]
      exact ht'
    have := lookup_bindings hnodup (List.mem_of_getElem? hp') hmark'
    rw [hlookup, Option.some.injEq] at this
    exact index_eq_of_pairwise_lt hstarts hp' hindex this.symm

/-- The label of a position marks just the instruction that was read there. -/
theorem marksOnly_of_named {clauses : List Clause} {labels : PositionLabels} {ss : List Scanned}
    {out : List Instruction} (hlabels : labels.Sound)
    (hread : List.Forall₂ (Instruction.ReadAs clauses labels) ss out)
    (hoffsets : ss.Pairwise fun a b => a.offset < b.offset) {index : Nat} {s : Scanned} {l : Label}
    (hs : ss[index]? = some s) (hnamed : labels.Named s.offset l) : MarksOnly out l index := by
  obtain ⟨-, -, hl⟩ := hnamed
  rw [Int.toNat_natCast] at hl
  constructor
  · obtain ⟨o, ho, hreadAs⟩ := exists_getElem?_left hread hs
    refine ⟨o, ho, ?_⟩
    rw [hreadAs.labels, hl]
    exact List.mem_singleton.2 rfl
  · intro k o ho hmem
    obtain ⟨s', hs', hreadAs⟩ := exists_getElem?_right hread ho
    rw [hreadAs.labels, Option.mem_toList] at hmem
    exact index_eq_of_pairwise_lt hoffsets hs' hs (hlabels.injective hmem hl)

end

/-! ### Decoding what was encoded -/

/-- **Decoding undoes encoding.**  If a list of instructions with free labels is lowered and
encoded, the body is read, and the list that is read has the same instructions at the same places:
the same opcodes up to widened branches, the same operands, and jumps to instructions at the same
places. -/
theorem decode_encode {instructions : List Instruction} {locals : List TypeRef}
    {tables tables' : MetadataTables} {stream : List NativeInstruction} {g : Generator}
    {body : Body} (hfree : ∀ i ∈ instructions, i.IsFree)
    (hregistered : ∀ i ∈ instructions, ∀ p, i.operand.payload? = some p →
      p.Registered tables locals)
    (hlower : Instruction.lowerWith (.withLocals locals) instructions = (.ok stream, g))
    (hencode : g.encode stream tables = (.ok body, tables'))
    (hstrings : tables'.strings.length < Token.rowLimit) (hsize : body.code.length < 0x80000000)
    (supply : LabelSupply) :
    ∃ out labels, body.decode tables' supply = (.ok out, labels) ∧
      List.Forall₂ (Instruction.ReadBackAs (SameTarget instructions out)) instructions out := by
  obtain ⟨pass, hpass, hlocals, hlowersTo⟩ := Instruction.lowersTo_of_lowerWith hlower
  obtain ⟨ss, hencoded⟩ := encodedAs_settle (fun n hn => by
    obtain ⟨i, hi, hlow⟩ := exists_of_mem_right hlowersTo hn
    obtain ⟨p, hp, hrelated⟩ := hlow.operand
    rw [hlocals, ← hrelated.registered]
    exact hregistered i hi p hp) hencode (fun _ _ s _ => MetadataTables.keeps_of_length hstrings s)
    (withinReach_of_encode hencode hsize)
  -- what was written is read
  obtain ⟨out, labels, hread⟩ := exists_decode supply hencoded.spelled
    (hencoded.targets (by omega)) hencoded.regions
  refine ⟨out, labels, hread, ?_⟩
  obtain ⟨ss', hss', hsound, -, hreadAs⟩ := readAs_of_decode hread
  obtain rfl := hss'.unique hencoded.spelled
  rw [← hencoded.insns, List.forall₂_map_right_iff] at hlowersTo
  have hoffsets := hss'.pairwise_offset
  -- line up each instruction, its place in the layout, what was scanned there and what was read
  have hchain := forall₂_comp (forall₂_and_mem hlowersTo)
    (forall₂_comp hencoded.written (forall₂_and_mem hreadAs))
  refine hchain.imp ?_
  rintro i o ⟨p, ⟨hi, hp, hlow⟩, s, hwritten, hs, ho, hread⟩
  have hform : o.opcode = p.form := hread.opcode.trans (Opcode.opcode_of_info? hwritten.row)
  refine ⟨?_, ?_⟩
  · rw [hform, ← hlow.opcode]
    exact hencoded.forms p hp
  · obtain ⟨q, hq, hresolved⟩ := hlow.operand
    obtain ⟨r, hr, hnamed⟩ := hread.operand
    refine ⟨q, r, hq, hr, ?_⟩
    refine ((hresolved.comp hwritten.payload).comp hnamed).imp_of_mem ?_
    rintro l l' hl - ⟨k, ⟨t, hlt, htk⟩, hkl'⟩
    -- follow the label of the operand through the native label and the offset to the label read
    obtain ⟨index, p', hp', rfl, hmarks⟩ := marksOnly_of_liesAt hfree hpass hlowersTo hencoded.nodup
      hencoded.pairwise_start ((hfree i hi).targets q hq l hl) hlt htk
    obtain ⟨s', hs', hwritten'⟩ := exists_getElem?_left hencoded.written hp'
    rw [← hwritten'.offset] at hkl'
    exact ⟨index, hmarks, marksOnly_of_named hsound hreadAs hoffsets hs' hkl'⟩

/-- A loop that keeps a string in a local: the branch at the end goes back to the beginning. -/
def loopOf (type : TypeRef) : List Instruction :=
  [{ opcode := ⟨0x72⟩, operand := .string (some "again"), labels := [{ id := 5 }] },
    { opcode := ⟨0x13⟩, operand := .local (some ⟨0, type⟩) },
    { opcode := ⟨0x2b⟩, operand := .branchTarget (some { id := 5 }) }]

theorem isFree_loopOf (type : TypeRef) : ∀ i ∈ loopOf type, i.IsFree := by
  simp only [loopOf, List.forall_mem_cons]
  refine ⟨⟨by simp, ?_⟩, ⟨by simp, ?_⟩, ⟨by simp, ?_⟩, nofun⟩ <;>
    simp [Operand.payload?, Payload.targets]

/-- The loop is read back. -/
theorem decode_encode_loopOf :
    ∃ stream g body tables out labels,
      Instruction.lowerWith (.withLocals [default]) (loopOf default) = (.ok stream, g) ∧
        g.encode stream ({} : MetadataTables) = (.ok body, tables) ∧
          body.decode tables {} = (.ok out, labels) ∧
            List.Forall₂ (Instruction.ReadBackAs (SameTarget (loopOf default) out))
              (loopOf default) out := by
  obtain ⟨stream, g, hlower, body, tables, hencode, hstrings, hsize⟩ :
      ∃ stream g, Instruction.lowerWith (.withLocals [default]) (loopOf default) = (.ok stream, g) ∧
        ∃ body tables, g.encode stream ({} : MetadataTables) = (.ok body, tables) ∧
          tables.strings.length < Token.rowLimit ∧ body.code.length < 0x80000000 :=
    ⟨_, _, rfl, _, _, rfl, by decide, by decide⟩
  obtain ⟨out, labels, hread, hback⟩ := decode_encode (isFree_loopOf default) (by
    simp only [loopOf, List.forall_mem_cons]
    exact ⟨by simp [Operand.payload?, Payload.Registered],
      by simp [Operand.payload?, Payload.Registered],
      by simp [Operand.payload?, Payload.Registered],
      List.forall_mem_nil _⟩) hlower hencode hstrings hsize {}
  exact ⟨stream, g, body, tables, out, labels, hlower, hencode, hread, hback⟩
end MethodWeave
