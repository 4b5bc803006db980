import MethodWeave.Proofs.Native.Regions
import MethodWeave.Proofs.Native.Writing
/-!
What a body that was encoded from a stream is.

The settled layout lies the stream end to end, and the code spells instructions that begin where the
layout puts them, with jumps to where their labels lie (`EncodedAs`).  Main result:
`encodedAs_settle`.
-/

namespace MethodWeave

/-- A body encodes a stream in a layout, as the given instructions. -/
structure EncodedAs (tables : MetadataTables) (stream : List NativeInstruction) (body : Body)
    (placed : List Placed) (ss : List Scanned) : Prop where
  insns : placed.map (·.insn) = stream
  forms : ∀ p ∈ placed, p.insn.TakesForm p.form
  nodup : (placed.flatMap (·.insn.labels)).Nodup
  spelled : Spelling tables body.locals 0 ss body.code
  written : List.Forall₂ (Placed.WrittenAs (LiesAt (bindings placed))) placed ss
  regions : PlacedMarker.firstMisplaced? body.code.length (ss.map (·.offset))
    (PlacedMarker.ofClauses body.clauses) = none

/-- A layout begins its instructions where the spelled ones begin. -/
theorem map_start_of_writtenAs {R : Placed → NativeLabel → Int → Prop} {placed : List Placed}
    {ss : List Scanned} (h : List.Forall₂ (fun p s => p.WrittenAs (R p) s) placed ss) :
    placed.map (·.start) = ss.map (·.offset) := by
  induction h with
  | nil => rfl
  | cons h _ ih => rw [List.map_cons, List.map_cons, ih, h.offset]

section

variable {tables : MetadataTables} {stream : List NativeInstruction} {body : Body}
  {placed : List Placed} {ss : List Scanned}

/-- A table built from the markers of a layout has no marker between two instructions. -/
theorem firstMisplaced?_of_clausesFrom {R : Placed → NativeLabel → Int → Prop}
    {metadata : MetadataTables} {locals : List TypeRef} {code : List UInt8} {clauses : List Clause}
    (hss : Spelling metadata locals 0 ss code)
    (hwritten : List.Forall₂ (fun p s => p.WrittenAs (R p) s) placed ss)
    (hsize : code.length < 0x100000000)
    (h : clausesFrom code.length 0 {} (placed.map fun p => (p.start, p.insn.markers)) =
      .ok clauses) :
    PlacedMarker.firstMisplaced? code.length (ss.map (·.offset))
      (PlacedMarker.ofClauses clauses) = none := by
  have hstarts := map_start_of_writtenAs hwritten
  have hoffsets (k : Nat) (hk : k ∈ ss.map (·.offset)) : k < code.length := by
    obtain ⟨s, hs, rfl⟩ := List.mem_map.1 hk
    have := (hss.offset_bounds s hs).2
    omega
  have hsorted : placed.Pairwise fun p q => p.start ≤ q.start := by
    rw [← List.pairwise_map (f := fun p : Placed => p.start) (R := (· ≤ ·)), hstarts,
      List.pairwise_map]
    exact hss.pairwise_offset.imp Nat.le_of_lt
  refine PlacedMarker.firstMisplaced?_of_fits hoffsets ?_
  have hfresh : RegionScan.Fits (ss.map (·.offset)) code.length 0 {} := ⟨nofun, nofun⟩
  refine fits_of_clausesFrom (fun k hk => Nat.le_of_lt (hoffsets k hk)) hsize hfresh
    (Nat.zero_le _) ?_ (List.pairwise_map.2 hsorted) h
  intro entry hentry
  obtain ⟨p, hp, rfl⟩ := List.mem_map.1 hentry
  refine ⟨?_, Nat.zero_le _⟩
  rw [← hstarts]
  exact List.mem_map_of_mem hp

/-- Instructions of the layout begin one after the other. -/
theorem EncodedAs.pairwise_start (h : EncodedAs tables stream body placed ss) :
    placed.Pairwise fun p q => p.start < q.start := by
  have hstarts := map_start_of_writtenAs h.written
  rw [← List.pairwise_map (f := fun p : Placed => p.start) (R := (· < ·)), hstarts,
    List.pairwise_map]
  exact h.spelled.pairwise_offset

/-- Every jump goes to an instruction. -/
theorem EncodedAs.targets (h : EncodedAs tables stream body placed ss)
    (hsize : body.code.length < 0x100000000) : ∀ s ∈ ss, ∀ t ∈ s.payload.targets,
      0 ≤ t ∧ t < 0x100000000 ∧ t.toNat ∈ ss.map (·.offset) := by
  intro s hs t ht
  obtain ⟨p, -, hwritten⟩ := exists_of_mem_right h.written hs
  obtain ⟨l, -, k, hk, rfl⟩ := exists_of_mem_right hwritten.payload.targets ht
  obtain ⟨p', hp', -, rfl⟩ := mem_of_lookup_bindings hk
  obtain ⟨s', hs', hwritten'⟩ := exists_of_mem_left h.written hp'
  have hbound := (h.spelled.offset_bounds s' hs').2
  rw [← hwritten'.offset, Int.toNat_natCast]
  exact ⟨by omega, by omega, List.mem_map_of_mem hs'⟩

end

/-- A long form suits what its short form does. -/
theorem NativeInstruction.TakesForm.suits {i : NativeInstruction} {form : Opcode}
    (h : i.TakesForm form) {info : Opcode.Info} (hinfo : i.opcode.info? = some info)
    (hsuits : info.suits i.operand = true) :
    ∃ info', form.info? = some info' ∧ info'.suits i.operand = true := by
  rcases h with rfl | hlong
  · exact ⟨info, hinfo, hsuits⟩
  · obtain ⟨hshort, info', hinfo', hbranch⟩ := Opcode.operand_of_longForm? hinfo hlong
    refine ⟨info', hinfo', ?_⟩
    unfold Opcode.Info.suits at hsuits ⊢
    cases hop : i.operand <;> simp [hop, hshort, hbranch] at hsuits ⊢

/-- What it takes to encode a stream. -/
theorem Generator.encode_eq_ok_iff {μ : Type} [Metadata μ] {g : Generator}
    {stream : List NativeInstruction} {tables tables' : μ} {body : Body} :
    g.encode stream tables = (.ok body, tables') ↔
      checkFrom 0 stream = .ok () ∧ checkLabelsFrom 0 [] stream = .ok () ∧
      writeFrom (bindings (settle stream)) g.locals.length 0 tables (settle stream) =
        (.ok body.code, tables') ∧
      clausesFrom (codeSize (settle stream)) 0 {}
        ((settle stream).map fun p => (p.start, p.insn.markers)) = .ok body.clauses ∧
      body.locals = g.locals := by
  unfold Generator.encode
  -- one step after the other, in the order in which the encoder takes them
  cases hcheck : checkFrom 0 stream with
  | error e => simp [bind, Except.bind]
  | ok _ =>
    cases hlabels : checkLabelsFrom 0 [] stream with
    | error e => simp [bind, Except.bind]
    | ok _ =>
      simp only [bind, Except.bind, true_and, Prod.mk.injEq]
      generalize hwrite : writeFrom (bindings (settle stream)) g.locals.length 0 tables
        (settle stream) = written
      obtain ⟨code, tables₁⟩ := written
      cases code with
      | error e => simp
      | ok code =>
        cases hclauses : clausesFrom (codeSize (settle stream)) 0 {}
            ((settle stream).map fun p => (p.start, p.insn.markers)) with
        | error index => simp
        | ok clauses =>
          obtain ⟨code', locals', clauses'⟩ := body
          simp only [Except.ok.injEq, Body.mk.injEq, Prod.mk.injEq]
          grind

/-- **The code of an encoded stream is as long as its layout.** -/
theorem codeSize_of_encode {μ : Type} [Metadata μ] {g : Generator}
    {stream : List NativeInstruction} {metadata metadata' : μ} {body : Body}
    (h : g.encode stream metadata = (.ok body, metadata')) :
    codeSize (settle stream) = body.code.length := by
  obtain ⟨hcheck, -, hwrite, -⟩ := Generator.encode_eq_ok_iff.1 h
  obtain ⟨settled, hsettle, hinsns, hforms, -⟩ := settle_settled stream
  rw [hsettle] at hwrite ⊢
  refine (layoutEnd_of_writeFrom (fun pair hpair => ?_) hwrite).trans (Nat.zero_add _)
  obtain ⟨info, hinfo, hsuits⟩ :=
    checkFrom_iff.1 hcheck pair.1 (hinsns ▸ List.mem_map_of_mem hpair)
  exact (hforms pair hpair).suits hinfo hsuits

/-- A stream whose code has less than 2^31 bytes is laid out within reach. -/
theorem withinReach_of_encode {μ : Type} [Metadata μ] {g : Generator}
    {stream : List NativeInstruction} {metadata metadata' : μ} {body : Body}
    (h : g.encode stream metadata = (.ok body, metadata'))
    (hsize : body.code.length < 0x80000000) : WithinReach (settle stream) := by
  obtain ⟨settled, hsettle, -, -, -⟩ := settle_settled stream
  rw [← codeSize_of_encode h, hsettle] at hsize
  rw [hsettle]
  exact withinReach_place hsize

/-- The layout of a stream is within reach, whichever stream the body encodes. -/
def Body.WithinReach {μ : Type} [Metadata μ] (metadata : μ) (body : Body) : Prop :=
  ∀ {g : Generator} {stream : List NativeInstruction} {metadata' : μ},
    g.encode stream metadata = (.ok body, metadata') → MethodWeave.WithinReach (settle stream)

theorem Body.withinReach_of_length {μ : Type} [Metadata μ] (metadata : μ) {body : Body}
    (hsize : body.code.length < 0x80000000) : body.WithinReach metadata :=
  fun h => withinReach_of_encode h hsize

/-- **What is encoded is spelled.**  The code of an encoded body spells the settled layout of the
stream, as long as that lies within the reach of its jumps and its strings are kept. -/
theorem encodedAs_settle {g : Generator} {stream : List NativeInstruction}
    {tables tables' : MetadataTables} {body : Body}
    (hregistered : ∀ n ∈ stream, n.operand.Registered tables g.locals)
    (h : g.encode stream tables = (.ok body, tables'))
    (hkeeps : ∀ n ∈ stream, ∀ s, n.operand = .string s → tables'.Keeps s)
    (hreach : WithinReach (settle stream)) :
    ∃ ss, EncodedAs tables' stream body (settle stream) ss := by
  have hlength := codeSize_of_encode h
  have hsize : body.code.length < 0x100000000 := hlength ▸ hreach.size
  obtain ⟨hcheck, hlabels, hwrite, hclauses, hlocals⟩ := Generator.encode_eq_ok_iff.1 h
  rw [hlength] at hclauses
  obtain ⟨settled, hsettle, hinsns, hforms, hstrays⟩ := settle_settled stream
  rw [hsettle] at hwrite hclauses hreach ⊢
  have hplaced : (place 0 settled).map (·.insn) = stream := (map_insn_place 0 settled).trans hinsns
  have hmem (pair : NativeInstruction × Opcode) (hpair : pair ∈ settled) : pair.1 ∈ stream := by
    rw [← hinsns]
    exact List.mem_map_of_mem hpair
  -- the code spells the layout, with jumps to where displacements of 32 bits lead
  obtain ⟨ss, hss, hwritten⟩ := spelling_of_writeFrom
    (fun pair hpair => by
      obtain ⟨info, hinfo, hsuits⟩ := checkFrom_iff.1 hcheck _ (hmem pair hpair)
      exact (hforms pair hpair).suits hinfo hsuits)
    (fun pair hpair => hregistered _ (hmem pair hpair)) hstrays hwrite (.refl tables')
    (fun pair hpair => hkeeps _ (hmem pair hpair)) hsize
  rw [← hlocals] at hss
  refine ⟨ss, hplaced, fun p hp => hforms _ (mem_of_mem_place hp), ?_, hss, ?_,
    firstMisplaced?_of_clausesFrom hss hwritten hsize hclauses⟩
  · have hnodup := (checkLabelsFrom_iff.1 hlabels).1
    rwa [← hplaced, List.flatMap_map] at hnodup
  · exact (forall₂_and_mem hwritten).imp fun p s ⟨hp, _, h⟩ => h.liesAt hreach hp

end MethodWeave
