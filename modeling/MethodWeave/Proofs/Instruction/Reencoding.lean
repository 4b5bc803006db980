import MethodWeave.Proofs.Instruction.Decoding
import MethodWeave.Proofs.Instruction.Lowering
import MethodWeave.Proofs.Native.Encoding
/-!
Decoding a body and encoding what was read gives the body back.

The labels that decoding makes are resolved to native labels, one for each position that is a jump
target.  In the layout in which every instruction keeps its form, each of them lies at its position
again; so no branch strays, that layout is the settled one, and the bytes written for it are those
that were read, whatever the exception table (`reencode_of_coherent`).  Main result: without one the
whole body comes back (`encode_decode`).
-/

namespace MethodWeave

/-! ### Native forms of what was read -/

/-- The native label stands for the label of a position. -/
def StandsFor (labels : PositionLabels) (pass : Lowering) (t : NativeLabel) (k : Int) : Prop :=
  ∃ l, labels.Named k l ∧ pass.Resolved l t

/-- What the native form of a scanned instruction is: its own opcode and payload, marked with the
native label of its offset if that has a label, behind the region markers at its offset. -/
structure Scanned.Native (clauses : List Clause) (labels : PositionLabels) (pass : Lowering)
    (s : Scanned) (n : NativeInstruction) : Prop where
  opcode : n.opcode = s.info.opcode
  operand : Payload.Related (StandsFor labels pass) n.operand s.payload
  nodup : n.labels.Nodup
  mem_labels : ∀ t, t ∈ n.labels ↔ ∃ l, labels.labels.get? s.offset = some l ∧ pass.Resolved l t
  markers : n.markers = PlacedMarker.at? s.offset (PlacedMarker.ofClauses clauses)

section

variable {clauses : List Clause} {labels : PositionLabels} {pass : Lowering}

/-- An instruction that was read is lowered to the native form of what it was read from. -/
theorem native_of_lowersTo {s : Scanned} {i : Instruction} {n : NativeInstruction}
    (hread : i.ReadAs clauses labels s) (hlower : i.LowersTo pass n) :
    s.Native clauses labels pass n where
  opcode := hlower.opcode.trans hread.opcode
  operand := by
    obtain ⟨p, hp, hnamed⟩ := hread.operand
    obtain ⟨p', hp', hresolved⟩ := hlower.operand
    rw [hp, Option.some.injEq] at hp'
    subst hp'
    exact (hnamed.comp hresolved).flip.imp fun t k ⟨l, hk, hl⟩ => ⟨l, hk, hl⟩
  nodup := by
    obtain ⟨ts, hts, hsort⟩ := hlower.labels
    -- what is read has one label at most, so the native form has
    rw [hsort, (NativeLabel.perm_sort ts).nodup_iff]
    rw [hread.labels] at hts
    cases hget : labels.labels.get? s.offset with
    | none => rw [hget] at hts; cases hts; exact .nil
    | some l =>
      rw [hget] at hts
      cases hts with
      | cons _ hrest => cases hrest; simp
  mem_labels := by
    intro t
    obtain ⟨ts, hts, hsort⟩ := hlower.labels
    rw [hsort, (NativeLabel.perm_sort ts).mem_iff]
    rw [hread.labels] at hts
    cases hget : labels.labels.get? s.offset with
    | none => rw [hget] at hts; cases hts; simp
    | some l =>
      rw [hget] at hts
      cases hts with
      | @cons _ t' _ _ ht' hrest =>
        cases hrest
        rw [List.mem_singleton]
        constructor
        · rintro rfl; exact ⟨l, rfl, ht'⟩
        · rintro ⟨l', heq, ht⟩
          cases heq
          exact pass.resolved_unique ht ht'
  markers := hlower.markers.trans hread.markers

/-- No label marks two native forms: they belong to different positions. -/
theorem nodup_labels (hlabels : labels.Sound) (hpass : pass.Sound) {ss : List Scanned}
    {stream : List NativeInstruction} (hoffsets : ss.Pairwise fun a b => a.offset < b.offset)
    (h : List.Forall₂ (Scanned.Native clauses labels pass) ss stream) :
    (stream.flatMap (·.labels)).Nodup := by
  induction h with
  | nil => exact .nil
  | @cons s n ss stream hn hrest ih =>
    obtain ⟨hfirst, hoffsets⟩ := List.pairwise_cons.1 hoffsets
    rw [List.flatMap_cons, List.nodup_append]
    refine ⟨hn.nodup, ih hoffsets, ?_⟩
    rintro t ht t' ht' rfl
    obtain ⟨n', hn', htn'⟩ := List.mem_flatMap.1 ht'
    obtain ⟨s', hs', hnative⟩ := exists_of_mem_right hrest hn'
    obtain ⟨l, hl, hresolved⟩ := (hn.mem_labels t).1 ht
    obtain ⟨l', hl', hresolved'⟩ := (hnative.mem_labels t).1 htn'
    -- one native label comes from one label, and that belongs to one position
    have hsame := hpass.eq_of_resolved (hlabels.handedOut hl).1 (hlabels.handedOut hl').1
      hresolved hresolved'
    subst hsame
    have := hlabels.injective hl hl'
    have := hfirst s' hs'
    omega

/-- In a layout on the offsets that were read, the native label of a position lies there. -/
theorem StandsFor.liesAt {ss : List Scanned} {placed : List Placed}
    (hnative : List.Forall₂ (fun p s => s.Native clauses labels pass p.insn ∧ s.offset = p.start)
      placed ss)
    (hnodup : (placed.flatMap (·.insn.labels)).Nodup)
    (hattached : ∀ k l, labels.labels.get? k = some l → k ∈ ss.map (·.offset))
    {t : NativeLabel} {k : Int} (h : StandsFor labels pass t k) : LiesAt (bindings placed) t k := by
  obtain ⟨l, ⟨hk, -, hl⟩, hresolved⟩ := h
  obtain ⟨s, hs, hoffset⟩ := List.mem_map.1 (hattached _ _ hl)
  obtain ⟨p, hp, hnat, hstart⟩ := exists_of_mem_right hnative hs
  have hmark : t ∈ p.insn.labels := (hnat.mem_labels t).2 ⟨l, by rw [hoffset]; exact hl, hresolved⟩
  refine ⟨p.start, lookup_bindings hnodup hp hmark, ?_⟩
  rw [← hstart, hoffset]
  omega

/-- In their own forms the native instructions are laid out as they were read. -/
theorem writtenAs_of_native (hlabels : labels.Sound) (hpass : pass.Sound) {ss : List Scanned}
    {stream : List NativeInstruction} {μ : Type} [Metadata μ] {metadata : μ}
    {locals : List TypeRef} {code : List UInt8} {placed : List Placed}
    (hplaced : placed = place 0 (stream.map fun n => (n, n.opcode)))
    (hss : Spelling metadata locals 0 ss code)
    (hattached : ∀ k l, labels.labels.get? k = some l → k ∈ ss.map (·.offset))
    (h : List.Forall₂ (Scanned.Native clauses labels pass) ss stream) :
    List.Forall₂ (Placed.WrittenAs (LiesAt (bindings placed))) placed ss := by
  have hwritten := writtenAs_place (R := StandsFor labels pass) hss
    (h.flip.imp fun n s hn => ⟨hn.opcode, hn.operand⟩)
  rw [← hplaced] at hwritten
  have hinsns : placed.map (·.insn) = stream := by
    rw [hplaced, map_insn_place, List.map_map]
    exact List.map_id _
  have hnodup : (placed.flatMap (·.insn.labels)).Nodup := by
    have := nodup_labels hlabels hpass hss.pairwise_offset h
    rwa [← hinsns, List.flatMap_map] at this
  -- so far targets are what labels stand for; these positions are where the labels now lie
  rw [← hinsns, List.forall₂_map_right_iff] at h
  have hlies := (forall₂_and hwritten h.flip).imp fun p s hps => And.intro hps.2 hps.1.offset
  exact hwritten.imp fun p s hps =>
    hps.imp fun t k => StandsFor.liesAt hlies hnodup hattached

/-- Every native form passes the checks before layout. -/
theorem check_of_native {ss : List Scanned} {stream : List NativeInstruction} {μ : Type}
    [Metadata μ] {metadata : μ} {locals : List TypeRef} {position : Nat} {code : List UInt8}
    (hss : Spelling metadata locals position ss code)
    (h : List.Forall₂ (Scanned.Native clauses labels pass) ss stream) :
    checkFrom 0 stream = .ok () := by
  refine checkFrom_iff.2 fun n hn => ?_
  obtain ⟨s, hs, hnative⟩ := exists_of_mem_right h hn
  obtain ⟨hrow, hsuits⟩ := hss.suits s hs
  exact ⟨s.info, by rw [hnative.opcode]; exact hrow, (hnative.operand.suits _).trans hsuits⟩

end

/-! ### Bodies that were read -/

section

variable {μ : Type} [Metadata μ] {metadata : μ} {body : Body} {supply : LabelSupply}
  {instructions : List Instruction} {labels : PositionLabels}

/-- What was read from a body can be lowered. -/
theorem exists_lowerWith_of_decode
    (hread : body.decode metadata supply = (.ok instructions, labels)) (g : Generator) :
    ∃ stream g', Instruction.lowerWith g instructions = (.ok stream, g') := by
  obtain ⟨ss, -, -, -, hreadAs⟩ := readAs_of_decode hread
  refine Instruction.exists_lowerWith fun i hi => ?_
  obtain ⟨s, -, hs⟩ := exists_of_mem_right hreadAs hi
  obtain ⟨p, hp, -⟩ := hs.operand
  exact ⟨p, hp⟩

/-- What was read from a body and then lowered are the native forms of what its code spells. -/
theorem natives_of_decode (hread : body.decode metadata supply = (.ok instructions, labels))
    {pass : Lowering} {stream : List NativeInstruction}
    (hlower : List.Forall₂ (Instruction.LowersTo pass) instructions stream) :
    ∃ ss, Spelling metadata body.locals 0 ss body.code ∧ labels.Sound ∧
      (∀ k l, labels.labels.get? k = some l → k ∈ ss.map (·.offset)) ∧
      List.Forall₂ (Scanned.Native body.clauses labels pass) ss stream := by
  obtain ⟨ss, hss, hsound, hattached, hreadAs⟩ := readAs_of_decode hread
  refine ⟨ss, hss, hsound, hattached, (forall₂_comp hreadAs hlower).imp ?_⟩
  rintro s n ⟨i, hi, hn⟩
  exact native_of_lowersTo hi hn

/-! ### Encoding them again -/

/-- The markers of a table in front of the instructions of a body. -/
def markedOffsets (clauses : List Clause) (ss : List Scanned) : List (Nat × List Marker) :=
  (ss.map (·.offset)).map fun offset =>
    (offset, PlacedMarker.at? offset (PlacedMarker.ofClauses clauses))

/-- Native instructions that are laid out as they were read have the markers of the table in front
of them. -/
theorem markers_of_native {clauses : List Clause} {pass : Lowering} {R : NativeLabel → Int → Prop}
    {placed : List Placed} {ss : List Scanned}
    (hwritten : List.Forall₂ (Placed.WrittenAs R) placed ss)
    (hnative : List.Forall₂ (Scanned.Native clauses labels pass) ss (placed.map (·.insn))) :
    placed.map (fun p => (p.start, p.insn.markers)) = markedOffsets clauses ss := by
  rw [List.forall₂_map_right_iff] at hnative
  rw [markedOffsets, List.map_map, ← List.forall₂_eq_eq_eq, List.forall₂_map_left_iff,
    List.forall₂_map_right_iff]
  refine (forall₂_and hwritten hnative.flip).imp fun p s h => ?_
  exact Prod.ext h.1.offset.symm (by rw [h.2.markers]; rfl)

/-- **Encoding what was read from a body gives its code and locals back**, and the table that its
markers build, if they build one; all that is asked of the metadata is that they are coherent. -/
theorem reencode_of_coherent (hmetadata : Metadata.Coherent metadata)
    (hread : body.decode metadata supply = (.ok instructions, labels)) :
    ∃ ss stream g, Spelling metadata body.locals 0 ss body.code ∧
      Instruction.lowerWith (.withLocals body.locals) instructions = (.ok stream, g) ∧
      ∀ again metadata', g.encode stream metadata = (.ok again, metadata') ↔
        again.code = body.code ∧ again.locals = body.locals ∧ metadata' = metadata ∧
          clausesFrom body.code.length 0 {} (markedOffsets body.clauses ss) =
            .ok again.clauses := by
  obtain ⟨stream, g, hlower⟩ := exists_lowerWith_of_decode hread (.withLocals body.locals)
  obtain ⟨pass, hpass, hlocals, hlowersTo⟩ := Instruction.lowersTo_of_lowerWith hlower
  obtain ⟨ss, hss, hsound, hattached, hnative⟩ := natives_of_decode hread hlowersTo
  -- in their own forms they lie where they were read, so settling stops at once
  obtain ⟨placed, hplaced⟩ : ∃ placed, placed = place 0 (stream.map fun n => (n, n.opcode)) :=
    ⟨_, rfl⟩
  have hwritten := writtenAs_of_native hsound hpass hplaced hss hattached hnative
  have hsettle : settle stream = placed := settle_of_writtenAs hplaced hss hwritten
  have hwrite : writeFrom (bindings placed) g.locals.length 0 metadata placed =
      (.ok body.code, metadata) := by
    rw [show g.locals = body.locals from hlocals]
    rw [hplaced] at hwritten ⊢
    exact writeFrom_of_spelling hmetadata hss hwritten
  have hend : codeSize placed = body.code.length := by
    rw [hplaced] at hwritten ⊢
    exact (layoutEnd_of_spelling hss hwritten).trans (Nat.zero_add _)
  have hinsns : placed.map (·.insn) = stream := by
    rw [hplaced, map_insn_place, List.map_map]
    exact List.map_id _
  have hmarkers := markers_of_native hwritten (hinsns.symm ▸ hnative)
  have hunique := nodup_labels hsound hpass hss.pairwise_offset hnative
  refine ⟨ss, stream, g, hss, hlower, fun again metadata' => ?_⟩
  rw [Generator.encode_eq_ok_iff, hsettle, hwrite, hend, hmarkers, hlocals, Prod.mk.injEq,
    Except.ok.injEq]
  constructor
  · rintro ⟨-, -, ⟨hcode, rfl⟩, hclauses, hsame⟩
    exact ⟨hcode.symm, hsame, rfl, hclauses⟩
  · rintro ⟨hcode, hsame, rfl, hclauses⟩
    exact ⟨check_of_native hss hnative,
      checkLabelsFrom_iff.2 ⟨hunique, fun _ _ => List.not_mem_nil⟩, ⟨hcode.symm, rfl⟩, hclauses,
      hsame⟩

/-- A stream without markers has an empty exception table. -/
theorem clausesFrom_of_unmarked {stop index : Nat} {entries : List (Nat × List Marker)}
    (h : ∀ entry ∈ entries, entry.2 = []) : clausesFrom stop index {} entries = .ok [] := by
  induction entries generalizing index with
  | nil => rfl
  | cons entry rest ih =>
    obtain ⟨position, markers⟩ := entry
    obtain ⟨rfl, hrest⟩ := List.forall_mem_cons.1 h
    exact ih hrest

/-- What was read from a body without exception table is encoded to the body. -/
theorem encode_of_coherent (hmetadata : Metadata.Coherent metadata) (hclauses : body.clauses = [])
    (hread : body.decode metadata supply = (.ok instructions, labels)) :
    ∃ stream g, Instruction.lowerWith (.withLocals body.locals) instructions = (.ok stream, g) ∧
      g.encode stream metadata = (.ok body, metadata) := by
  obtain ⟨ss, stream, g, -, hlower, hiff⟩ := reencode_of_coherent hmetadata hread
  refine ⟨stream, g, hlower, (hiff _ _).2 ⟨rfl, rfl, rfl, ?_⟩⟩
  -- no clause, so no markers
  rw [hclauses]
  refine clausesFrom_of_unmarked fun entry hentry => ?_
  obtain ⟨offset, -, rfl⟩ := List.mem_map.1 hentry
  rfl

end

/-! ### Bodies without exception table -/

/-- **Encoding undoes decoding.**  What was read from a body without exception table is lowered and
encoded without failure, and gives the body back: the same bytes, the same locals, no exception
table.  No string is interned that was not there. -/
theorem encode_decode {tables : MetadataTables} (htables : tables.Reachable) {body : Body}
    (hclauses : body.clauses = []) {supply : LabelSupply} {instructions : List Instruction}
    {labels : PositionLabels} (hread : body.decode tables supply = (.ok instructions, labels)) :
    ∃ stream g, Instruction.lowerWith (.withLocals body.locals) instructions = (.ok stream, g) ∧
      g.encode stream tables = (.ok body, tables) :=
  encode_of_coherent htables.coherent hclauses hread

/-- A loop that loads a string: the branch at the end goes back to the beginning. -/
def loopBody : Body := { code := [0x72, 0x01, 0x00, 0x00, 0x70, 0x26, 0x2b, 0xf8] }

/-- The loop is encoded to the bytes it was read from. -/
theorem encode_decode_loopBody :
    ∃ instructions labels stream g,
      loopBody.decode (MetadataTables.intern {} "again").2 {} = (.ok instructions, labels) ∧
        Instruction.lowerWith (.withLocals []) instructions = (.ok stream, g) ∧
          g.encode stream (MetadataTables.intern {} "again").2 =
            (.ok loopBody, (MetadataTables.intern {} "again").2) := by
  obtain ⟨instructions, labels, hread⟩ : ∃ instructions labels,
      loopBody.decode (MetadataTables.intern {} "again").2 {} = (.ok instructions, labels) :=
    ⟨_, _, rfl⟩
  obtain ⟨stream, g, hlower, hencode⟩ := encode_decode (.intern "again" .empty) rfl hread
  exact ⟨instructions, labels, stream, g, hread, hlower, hencode⟩

end MethodWeave
