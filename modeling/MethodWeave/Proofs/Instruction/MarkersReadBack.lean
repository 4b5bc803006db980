import MethodWeave.Proofs.Instruction.Regions
import MethodWeave.Proofs.Native.Retyping
/-!
The region markers of a stream that is encoded are read back.

If every try block and every handler covers an instruction, the markers in front of one instruction
can stand in one order only, ends first and beginnings last (`pairwise_phase_of_partsCover`).  This
is the order in which decoding puts them, and the regions it finds are those of the stream.  Main
result: `decode_encode_markers`.
-/

namespace MethodWeave

/-! ### Parts that cover instructions -/

/-- Pass a marker in front of the instruction at `index`.  For each open region, innermost first,
there is the index of the instruction at which its part in progress began; `none` if the marker
ends a part that covers no instruction, or belongs to no region. -/
def Marker.passAt (index : Nat) (parts : List Nat) (m : Marker) : Option (List Nat) :=
  match m, parts with
  | .beginTry, parts => some (index :: parts)
  | _, [] => none
  | m, start :: outer =>
    if start < index then some (if m.handler?.isSome then index :: outer else outer) else none

/-- Pass the markers of a stream. -/
def passMarkers (index : Nat) (parts : List Nat) : List (List Marker) → Option (List Nat)
  | [] => some parts
  | markers :: rest =>
    (markers.foldlM (Marker.passAt index) parts).bind fun parts => passMarkers (index + 1) parts rest

/-- Every try block and every handler of the stream covers at least one instruction.  Regions may be
open at the end. -/
def PartsCover (stream : List NativeInstruction) : Prop :=
  (passMarkers 0 [] (stream.map (·.markers))).isSome = true

instance (stream : List NativeInstruction) : Decidable (PartsCover stream) :=
  inferInstanceAs (Decidable (_ = true))

/-- Right behind a beginning no part can end. -/
theorem eq_beginTry_of_passAt {index : Nat} {outer parts : List Nat} {m : Marker}
    (h : m.passAt index (index :: outer) = some parts) : m = .beginTry := by
  cases m with
  | beginTry => rfl
  | _ => simp [Marker.passAt] at h

theorem forall_eq_beginTry {index : Nat} {outer parts : List Nat} {markers : List Marker}
    (h : markers.foldlM (Marker.passAt index) (index :: outer) = some parts) :
    ∀ m ∈ markers, m = .beginTry := by
  induction markers generalizing outer with
  | nil => exact nofun
  | cons m rest ih =>
    rw [List.foldlM_cons, Option.bind_eq_bind, Option.bind_eq_some_iff] at h
    obtain ⟨parts₁, hm, hrest⟩ := h
    obtain rfl := eq_beginTry_of_passAt hm
    cases hm
    exact List.forall_mem_cons.2 ⟨rfl, ih hrest⟩

/-- What begins a part leaves it in progress. -/
theorem exists_of_passAt {index : Nat} {parts parts' : List Nat} {m : Marker}
    (h : m.passAt index parts = some parts') (hm : m.phase ≠ 0) :
    ∃ outer, parts' = index :: outer := by
  cases m with
  | beginTry => cases h; exact ⟨parts, rfl⟩
  | endTry => exact absurd rfl hm
  | beginCatch | beginFinally | beginFault =>
    cases parts with
    | nil => cases h
    | cons start outer =>
      simp only [Marker.passAt] at h
      split at h
      · cases h; exact ⟨outer, rfl⟩
      · cases h

/-- In front of one instruction: ends, then at most one handler, then beginnings. -/
theorem pairwise_phase_of_foldlM {index : Nat} {parts parts' : List Nat} {markers : List Marker}
    (h : markers.foldlM (Marker.passAt index) parts = some parts') :
    markers.Pairwise fun a b => a.phase ≤ b.phase := by
  induction markers generalizing parts with
  | nil => exact .nil
  | cons m rest ih =>
    rw [List.foldlM_cons, Option.bind_eq_bind, Option.bind_eq_some_iff] at h
    obtain ⟨parts₁, hm, hrest⟩ := h
    refine List.Pairwise.cons (fun m' hm' => ?_) (ih hrest)
    by_cases hphase : m.phase = 0
    · rw [hphase]
      exact Nat.zero_le _
    · -- a part has begun here, so the rest of the markers can only begin regions in it
      obtain ⟨outer, rfl⟩ := exists_of_passAt hm hphase
      rw [forall_eq_beginTry hrest m' hm']
      cases m <;> simp [Marker.phase]

theorem pairwise_phase_of_partsCover {stream : List NativeInstruction} (h : PartsCover stream) :
    ∀ n ∈ stream, n.markers.Pairwise fun a b => a.phase ≤ b.phase := by
  obtain ⟨parts, hpass⟩ := Option.isSome_iff_exists.1 h
  have hall (index : Nat) (parts parts' : List Nat) (all : List (List Marker))
      (hpass : passMarkers index parts all = some parts') :
      ∀ markers ∈ all, markers.Pairwise fun a b => a.phase ≤ b.phase := by
    induction all generalizing index parts with
    | nil => exact nofun
    | cons markers rest ih =>
      obtain ⟨parts₁, hmarkers, hrest⟩ := Option.bind_eq_some_iff.1 hpass
      exact List.forall_mem_cons.2 ⟨pairwise_phase_of_foldlM hmarkers, ih _ _ hrest⟩
  exact fun n hn => hall 0 [] parts _ hpass _ (List.mem_map_of_mem hn)

/-! ### Reading the markers back -/

/-- Writing leads from tables that operations have built to such tables. -/
theorem reachable_writeFrom {bound : List (NativeLabel × Nat)} {localCount index : Nat}
    {tables : MetadataTables} (h : tables.Reachable) {placed : List Placed} :
    (writeFrom bound localCount index tables placed).2.Reachable := by
  induction placed generalizing index tables with
  | nil => exact h
  | cons p rest ih =>
    have hintern : (p.internString tables).2.Reachable := by
      unfold Placed.internString
      split
      · exact .intern _ h
      · exact h
    simp only [writeFrom]
    split
    · exact hintern
    · exact ih hintern

/-- Members and signatures are known to the module under their own tokens. -/
def Payload.Resolves {τ : Type} (tables : MetadataTables) : Payload τ → Prop
  | .member m => tables.member? m.token = some m
  | .signature s => tables.signature? s.token = some s
  | _ => True

theorem registered_retyped {tables : MetadataTables} {locals : List TypeRef}
    {p : Payload NativeLabel} (h : p.Resolves tables)
    (hlocal : ∀ l, p = .local l → l.index.toNat < locals.length) :
    (p.retyped locals).Registered tables locals := by
  cases p with
  | member m => exact h
  | signature s => exact h
  | «local» l =>
    have hlt := hlocal l rfl
    simp only [Payload.retyped, Payload.Registered, List.getElem?_eq_getElem hlt,
      Option.getD_some]
  | _ => trivial

/-- A stream whose operands resolve is encoded as one with the same markers, local operands having
the types that their slots are declared with. -/
theorem exists_encodedAs {tables tables' : MetadataTables} {g : Generator}
    {stream : List NativeInstruction} {body : Body}
    (hresolves : ∀ n ∈ stream, n.operand.Resolves tables)
    (hencode : g.encode stream tables = (.ok body, tables'))
    (hkeeps : ∀ n ∈ stream, ∀ s, n.operand = .string s → tables'.Keeps s)
    (hreach : WithinReach (settle stream)) :
    ∃ retyped ss, retyped.map (·.markers) = stream.map (·.markers) ∧
      g.encode retyped tables = (.ok body, tables') ∧
      EncodedAs tables' retyped body (settle retyped) ss := by
  obtain ⟨-, -, hwrite, -, -⟩ := Generator.encode_eq_ok_iff.1 hencode
  -- encoding writes no slot that is not declared
  have hlocals : ∀ n ∈ stream, ∀ l, n.operand = .local l → l.index.toNat < g.locals.length := by
    intro n hn
    rw [← map_insn_settle stream] at hn
    obtain ⟨p, hp, rfl⟩ := List.mem_map.1 hn
    exact local_lt_of_writeFrom hwrite p hp
  have hregistered : ∀ n ∈ stream.map (·.retyped g.locals), n.operand.Registered tables g.locals :=
    List.forall_mem_map.2 fun n hn => registered_retyped (hresolves n hn) (hlocals n hn)
  have hkeeps' : ∀ n ∈ stream.map (·.retyped g.locals), ∀ s, n.operand = .string s →
      tables'.Keeps s :=
    List.forall_mem_map.2 fun n hn s hs => hkeeps n hn s (Payload.string_of_retyped hs)
  -- the types of locals are not written
  rw [← encode_retyped g g.locals] at hencode
  have hreach' : WithinReach (settle (stream.map (·.retyped g.locals))) := by
    rw [settle_retyped]
    exact hreach.retyped g.locals
  obtain ⟨ss, hencoded⟩ := encodedAs_settle hregistered hencode hkeeps' hreach'
  refine ⟨stream.map (·.retyped g.locals), ss, ?_, hencode, hencoded⟩
  rw [List.map_map]
  rfl

/-- The table is built from the markers of the stream, so these are the markers of the table. -/
theorem markers_of_encodedAs {tables : MetadataTables} {stream : List NativeInstruction}
    {body : Body} {placed : List Placed} {ss : List Scanned}
    (hencoded : EncodedAs tables stream body placed ss)
    (hclauses : clausesFrom body.code.length 0 {} (placed.map fun p => (p.start, p.insn.markers)) =
      .ok body.clauses)
    (hphases : ∀ n ∈ stream, n.markers.Pairwise fun a b => a.phase ≤ b.phase)
    (hsize : body.code.length < 0x100000000) :
    List.Forall₂ (fun (p : Placed) s => p.start = s.offset ∧
      p.insn.markers = PlacedMarker.at? s.offset (PlacedMarker.ofClauses body.clauses))
      placed ss := by
  have hstarts := map_start_of_writtenAs hencoded.written
  have hbelow : ∀ p ∈ placed, p.start < body.code.length := by
    intro p hp
    obtain ⟨s, hs, hoffset⟩ := List.mem_map.1 (hstarts ▸ List.mem_map_of_mem hp)
    have := (hencoded.spelled.offset_bounds s hs).2
    omega
  have hordered : ∀ p ∈ placed, p.insn.markers.Pairwise fun a b => a.phase ≤ b.phase := by
    intro p hp
    refine hphases p.insn ?_
    rw [← hencoded.insns]
    exact List.mem_map_of_mem hp
  have hmarked := at?_ofClauses (List.pairwise_map.2 hencoded.pairwise_start)
    (List.forall_mem_map.2 hbelow) hsize (List.forall_mem_map.2 hordered) hclauses
  refine (forall₂_and_mem hencoded.written).imp ?_
  rintro p s ⟨hp, -, hwritten⟩
  exact ⟨hwritten.offset.symm, hwritten.offset ▸ (hmarked _ (List.mem_map_of_mem hp)).symm⟩

/-! ### A stream and what is read of it -/

/-- **Exception regions survive encoding and decoding.**  If every try block and every handler of a
stream covers an instruction, and its members, signatures and strings resolve, the body that it is
encoded to is read, every instruction has the markers that it had in the stream, and encoding what
was read gives the body again.  Positions and displacements have to have 32 bits, in which they are
written. -/
theorem decode_encode_markers {tables tables' : MetadataTables} (htables : tables.Reachable)
    {g : Generator} {stream : List NativeInstruction} {body : Body} (hcover : PartsCover stream)
    (hresolves : ∀ n ∈ stream, n.operand.Resolves tables)
    (hencode : g.encode stream tables = (.ok body, tables'))
    (hkeeps : ∀ n ∈ stream, ∀ s, n.operand = .string s → tables'.Keeps s)
    (hreach : WithinReach (settle stream)) (supply : LabelSupply) :
    ∃ out labels, body.decode tables' supply = (.ok out, labels) ∧
      out.map (·.markers) = stream.map (·.markers) ∧
      ∃ stream' g', Instruction.lowerWith (.withLocals body.locals) out = (.ok stream', g') ∧
        g'.encode stream' tables' = (.ok body, tables') := by
  have hsize : body.code.length < 0x100000000 := codeSize_of_encode hencode ▸ hreach.size
  obtain ⟨retyped, ss, hmarkers, hencode', hencoded⟩ :=
    exists_encodedAs hresolves hencode hkeeps hreach
  obtain ⟨-, -, hwrite, hclauses, -⟩ := Generator.encode_eq_ok_iff.1 hencode'
  rw [codeSize_of_encode hencode'] at hclauses
  have hphases : ∀ n ∈ retyped, n.markers.Pairwise fun a b => a.phase ≤ b.phase := by
    rw [← List.forall_mem_map (f := fun n : NativeInstruction => n.markers), hmarkers,
      List.forall_mem_map]
    exact pairwise_phase_of_partsCover hcover
  have hplaced := markers_of_encodedAs hencoded hclauses hphases hsize
  -- what was written is read
  obtain ⟨out, labels, hread⟩ := exists_decode supply hencoded.spelled (hencoded.targets hsize)
    hencoded.regions
  refine ⟨out, labels, hread, ?_, ?_⟩
  · obtain ⟨ss', hss', -, -, hreadAs⟩ := readAs_of_decode hread
    obtain rfl := hss'.unique hencoded.spelled
    rw [← hmarkers, ← hencoded.insns, List.map_map, ← List.forall₂_eq_eq_eq,
      List.forall₂_map_left_iff, List.forall₂_map_right_iff]
    refine (forall₂_comp hplaced hreadAs).flip.imp ?_
    rintro i p ⟨s, hp, hi⟩
    exact hi.markers.trans hp.2.symm
  · -- and encoding it builds the table from the same markers
    have hreachable : tables'.Reachable := by
      have hwritten : (writeFrom (bindings (settle retyped)) g.locals.length 0 tables
          (settle retyped)).2.Reachable := reachable_writeFrom htables
      rwa [hwrite] at hwritten
    obtain ⟨ss', stream', g', hss', hlower, hiff⟩ :=
      reencode_of_coherent hreachable.coherent hread
    obtain rfl := hss'.unique hencoded.spelled
    refine ⟨stream', g', hlower, (hiff body tables').2 ⟨rfl, rfl, rfl, ?_⟩⟩
    rw [← hclauses, markedOffsets, List.map_map]
    refine congrArg _ ?_
    rw [← List.forall₂_eq_eq_eq, List.forall₂_map_left_iff, List.forall₂_map_right_iff]
    exact hplaced.flip.imp fun s p h => Prod.ext h.1.symm h.2.symm

/-- A region in the `try` block of another, which has two handlers and is open at the end. -/
def openStream : List NativeInstruction :=
  [{ opcode := ⟨0x00⟩, markers := [.beginTry, .beginTry] },
    { opcode := ⟨0x72⟩, operand := .string "inner", markers := [.beginFault] },
    { opcode := ⟨0x26⟩, markers := [.endTry, .beginCatch none] },
    { opcode := ⟨0x00⟩, markers := [.beginFinally] }]

/-- The markers of the stream are read back. -/
theorem decode_encode_openStream :
    ∃ body tables out labels, Generator.encode {} openStream ({} : MetadataTables) =
        (.ok body, tables) ∧
      body.clauses.length = 3 ∧ body.decode tables {} = (.ok out, labels) ∧
        out.map (·.markers) = openStream.map (·.markers) := by
  obtain ⟨body, tables, hencode, hclauses, hstrings, hsize⟩ : ∃ body tables,
      Generator.encode {} openStream ({} : MetadataTables) = (.ok body, tables) ∧
        body.clauses.length = 3 ∧ tables.strings.length < Token.rowLimit ∧
          body.code.length < 0x80000000 := ⟨_, _, rfl, rfl, by decide, by decide⟩
  obtain ⟨out, labels, hread, hmarkers, -⟩ := decode_encode_markers .empty (by decide)
    (by simp [openStream, Payload.Resolves]) hencode
    (fun _ _ s _ => MetadataTables.keeps_of_length hstrings s)
    (withinReach_of_encode hencode hsize) {}
  exact ⟨body, tables, out, labels, hencode, hclauses, hread, hmarkers⟩

end MethodWeave
