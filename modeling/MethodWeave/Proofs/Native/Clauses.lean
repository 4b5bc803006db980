import MethodWeave.Proofs.Native.Covering
/-!
The exception table of a stream that was encoded.

The markers of a stream bracket regions, some of them with empty parts; ends that are missing lie at
the end of the code.  What the table has to say about a region is read off its parts: the try block,
and then one handler behind the other.

Main result: `clauses_of_encode`, the table holds the rows of the regions that are bracketed, inner
ones first, and each of these is well formed.
-/

namespace MethodWeave

namespace Clause

/-- The try block, from its first offset up to the one behind it. -/
def trySpan (c : Clause) : Nat × Nat := (c.tryOffset.toNat, c.tryOffset.toNat + c.tryLength.toNat)

/-- The handler, from its first offset up to the one behind it. -/
def handlerSpan (c : Clause) : Nat × Nat :=
  (c.handlerOffset.toNat, c.handlerOffset.toNat + c.handlerLength.toNat)

end Clause

namespace CodeRegion

/-! ### Parts of a region -/

/-- Handlers that follow each other, each up to where the next one begins and the last one up to
`stop`. -/
def spans (stop : Nat) : List (ClauseKind × Nat) → List (Nat × Nat)
  | [] => []
  | (_, start) :: rest => (start, nextStart stop rest) :: spans stop rest

/-- The try block and the handlers of a region, each from its first offset up to the one behind it.
-/
def parts (r : CodeRegion) : List (Nat × Nat) :=
  (r.tryStart, r.tryStart + r.tryLength) :: spans r.stop r.handlers

/-- The region `r` lies in one part of `outer`. -/
def LiesIn (r outer : CodeRegion) : Prop :=
  ∃ part ∈ outer.parts, part.1 ≤ r.tryStart ∧ r.stop ≤ part.2

/-- Parts begin where handlers do, and end there or where the last handler does. -/
theorem of_mem_spans {stop : Nat} {handlers : List (ClauseKind × Nat)} {part : Nat × Nat}
    (h : part ∈ spans stop handlers) :
    (∃ a ∈ handlers, a.2 = part.1) ∧ ((∃ a ∈ handlers, a.2 = part.2) ∨ part.2 = stop) := by
  induction handlers with
  | nil => cases h
  | cons a rest ih =>
    rcases List.mem_cons.1 h with rfl | h
    · refine ⟨⟨a, List.mem_cons_self, rfl⟩, ?_⟩
      cases rest with
      | nil => exact Or.inr rfl
      | cons b rest => exact Or.inl ⟨b, List.mem_cons_of_mem _ List.mem_cons_self, rfl⟩
    · obtain ⟨⟨b, hb, hstart⟩, hstop⟩ := ih h
      refine ⟨⟨b, List.mem_cons_of_mem _ hb, hstart⟩, hstop.imp_left ?_⟩
      rintro ⟨b, hb, hstop⟩
      exact ⟨b, List.mem_cons_of_mem _ hb, hstop⟩

theorem le_of_mem_spans {stop : Nat} {handlers : List (ClauseKind × Nat)}
    (hordered : handlers.Pairwise fun a b => a.2 ≤ b.2) (hstop : ∀ a ∈ handlers, a.2 ≤ stop)
    {part : Nat × Nat} (h : part ∈ spans stop handlers) : part.1 ≤ part.2 := by
  induction handlers with
  | nil => cases h
  | cons a rest ih =>
    obtain ⟨hfirst, hordered⟩ := List.pairwise_cons.1 hordered
    obtain ⟨ha, hstop⟩ := List.forall_mem_cons.1 hstop
    rcases List.mem_cons.1 h with rfl | h
    · exact le_nextStart ha hfirst
    · exact ih hordered hstop h

/-- Each part begins where the one in front of it ends. -/
theorem isChain_spans (start stop : Nat) (handlers : List (ClauseKind × Nat)) :
    ((start, nextStart stop handlers) :: spans stop handlers).IsChain fun a b => a.2 = b.1 := by
  induction handlers generalizing start with
  | nil => exact List.IsChain.singleton _
  | cons a rest ih => exact List.IsChain.cons_cons rfl (ih a.2)

/-- What lies between the beginning of a part and `stop`, and does not reach across the beginning of
a handler, lies in one part. -/
theorem exists_mem_spans {start stop : Nat} {handlers : List (ClauseKind × Nat)} {r : CodeRegion}
    (hstart : start ≤ r.tryStart) (hstop : r.stop ≤ stop)
    (h : ∀ a ∈ handlers, a.2 ≤ r.tryStart ∨ r.stop ≤ a.2) :
    ∃ part ∈ (start, nextStart stop handlers) :: spans stop handlers,
      part.1 ≤ r.tryStart ∧ r.stop ≤ part.2 := by
  induction handlers generalizing start with
  | nil => exact ⟨_, List.mem_cons_self, hstart, hstop⟩
  | cons a rest ih =>
    obtain ⟨ha, hrest⟩ := List.forall_mem_cons.1 h
    rcases ha with hbehind | hfront
    · obtain ⟨part, hpart, hin⟩ := ih hbehind hrest
      exact ⟨part, List.mem_cons_of_mem _ hpart, hin⟩
    · exact ⟨_, List.mem_cons_self, hstart, hfront⟩

theorem Joined.nextStart_eq {r : CodeRegion} (h : r.Joined) :
    nextStart r.stop r.handlers = r.tryStart + r.tryLength := by
  rw [nextStart, h.tryEnd]
  rfl

theorem Around.liesIn {r outer : CodeRegion} (houter : outer.Joined) (h : Around outer r) :
    r.LiesIn outer := by
  obtain ⟨hstart, hstop, hhandlers⟩ := h
  rw [LiesIn, parts, ← houter.nextStart_eq]
  exact exists_mem_spans hstart hstop hhandlers

/-! ### Rows of a region -/

/-- The rows of a region name its handlers. -/
theorem Chained.map_handlerSpan {r : CodeRegion} (h : r.Chained) :
    r.clauses.map Clause.handlerSpan = spans r.stop r.handlers := by
  obtain ⟨tryStart, tryLength, handlers, stop⟩ := r
  obtain ⟨-, hordered, hle, -, -, hstop⟩ := h
  simp only [clauses] at *
  induction handlers with
  | nil => rfl
  | cons a rest ih =>
    obtain ⟨hfirst, hordered⟩ := List.pairwise_cons.1 hordered
    obtain ⟨ha, hle⟩ := List.forall_mem_cons.1 hle
    have hnext : a.2 ≤ nextStart stop rest := le_nextStart ha hfirst
    have hlast : nextStart stop rest ≤ stop := nextStart_le hle
    have hstart : (UInt32.ofNat a.2).toNat = a.2 := toNat_ofNat (by omega)
    have hlength : (UInt32.ofNat (nextStart stop rest - a.2)).toNat = nextStart stop rest - a.2 :=
      toNat_ofNat (by omega)
    rw [rows, List.map_cons, ih hordered hle, spans]
    congr 1
    ext
    · exact hstart
    · show (UInt32.ofNat a.2).toNat + (UInt32.ofNat (nextStart stop rest - a.2)).toNat =
        nextStart stop rest
      rw [hstart, hlength, Nat.add_sub_of_le hnext]

theorem Chained.trySpan_of_mem {r : CodeRegion} (h : r.Chained) {c : Clause} (hc : c ∈ r.clauses) :
    c.trySpan = (r.tryStart, r.tryStart + r.tryLength) := by
  obtain ⟨hstart, hlength⟩ := Prod.mk.inj (h.tryBlock_of_mem hc)
  rw [Clause.trySpan, hstart, hlength]

/-! ### Well-formed regions -/

/-- A region of code that has `size` bytes and instructions at `offsets`: it has a handler, its
parts follow each other without gap, and they begin and end at instructions or with the code.  Its
rows are those parts, in words that hold them. -/
structure WellFormed (offsets : List Nat) (size : Nat) (r : CodeRegion) : Prop where
  handlers : r.handlers ≠ []
  joined : r.parts.IsChain fun a b => a.2 = b.1
  ordered : ∀ part ∈ r.parts, part.1 ≤ part.2 ∧ part.2 ≤ size
  boundaries : ∀ part ∈ r.parts, IsBoundary offsets size part.1 ∧ IsBoundary offsets size part.2
  rows : size < 0x100000000 → r.clauses.map Clause.handlerSpan = spans r.stop r.handlers ∧
    ∀ c ∈ r.clauses, c.trySpan = (r.tryStart, r.tryStart + r.tryLength)

theorem Joined.wellFormed {offsets : List Nat} {size : Nat} {r : CodeRegion} (h : r.Joined)
    (hevents : ∀ m ∈ r.events, IsBoundary offsets size m.position ∧ m.position ≤ size) :
    r.WellFormed offsets size := by
  obtain ⟨kind, rest, hhandlers⟩ := h.handlers_eq
  -- every part begins and ends at a marker of the region
  have hstart := hevents r.beginning (mem_events.2 (Or.inl rfl))
  have hstop := hevents r.ending (mem_events.2 (Or.inr (Or.inr rfl)))
  have hhandler : ∀ a ∈ r.handlers, IsBoundary offsets size a.2 ∧ a.2 ≤ size := fun a ha =>
    hevents (r.handling a) (mem_events.2 (Or.inr (Or.inl ⟨a, ha, rfl⟩)))
  have htryEnd := hhandler (kind, r.tryStart + r.tryLength) (hhandlers ▸ List.mem_cons_self)
  refine ⟨?_, ?_, ?_, ?_, ?_⟩
  · rw [hhandlers]
    exact List.cons_ne_nil _ _
  · rw [parts, ← h.nextStart_eq]
    exact isChain_spans _ _ _
  · rw [parts, List.forall_mem_cons]
    refine ⟨⟨Nat.le_add_right _ _, htryEnd.2⟩, ?_⟩
    intro part hpart
    refine ⟨le_of_mem_spans h.ordered h.le_stop hpart, ?_⟩
    rcases (of_mem_spans hpart).2 with ⟨a, ha, heq⟩ | heq
    · exact heq ▸ (hhandler a ha).2
    · exact heq ▸ hstop.2
  · rw [parts, List.forall_mem_cons]
    refine ⟨⟨hstart.1, htryEnd.1⟩, ?_⟩
    intro part hpart
    obtain ⟨⟨a, ha, hbegins⟩, hends⟩ := of_mem_spans hpart
    refine ⟨hbegins ▸ (hhandler a ha).1, ?_⟩
    rcases hends with ⟨b, hb, heq⟩ | heq
    · exact heq ▸ (hhandler b hb).1
    · exact heq ▸ hstop.1
  · intro hsize
    have hchained := h.chained (Nat.lt_of_le_of_lt hstop.2 hsize)
    exact ⟨hchained.map_handlerSpan, fun c => hchained.trySpan_of_mem⟩

end CodeRegion

/-! ### The table of a layout -/

/-- The regions that the markers of a layout bracket, in the order of their ends.  What is open
behind the last marker ends with the code. -/
def Brackets (placed : List Placed) (regions : List CodeRegion) : Prop :=
  ∃ ms, Nested ms regions ∧ ms.map PlacedMarker.event =
    markerEvents (placed.map fun p => (p.start, p.insn.markers)) ++
      openEnds (codeSize placed) (markerEvents (placed.map fun p => (p.start, p.insn.markers)))

/-- Markers stand at instructions, or at the end of the code. -/
theorem isBoundary_of_mem_events {placed : List Placed} {e : Nat × Marker}
    (he : e ∈ markerEvents (placed.map fun p => (p.start, p.insn.markers)) ++
      openEnds (codeSize placed) (markerEvents (placed.map fun p => (p.start, p.insn.markers)))) :
    IsBoundary (placed.map (·.start)) (codeSize placed) e.1 := by
  rcases List.mem_append.1 he with he | he
  · obtain ⟨entry, hentry, he⟩ := List.mem_flatMap.1 he
    obtain ⟨p, hp, rfl⟩ := List.mem_map.1 hentry
    obtain ⟨m, -, rfl⟩ := List.mem_map.1 he
    exact Or.inl (List.mem_map_of_mem hp)
  · obtain ⟨-, rfl⟩ := List.mem_replicate.1 he
    exact Or.inr rfl

section

variable {placed : List Placed} {f : Nat → Nat} (hf : Boundaries placed f)
include hf

/-- The instructions of a layout begin one after the other, in front of the end of the code. -/
theorem Boundaries.starts :
    (placed.map (·.start)).Pairwise (· < ·) ∧ ∀ k ∈ placed.map (·.start), k < codeSize placed := by
  constructor
  · rw [List.pairwise_map, List.pairwise_iff_getElem]
    intro i j hi hj hij
    rw [hf.start i _ (List.getElem?_eq_getElem hi), hf.start j _ (List.getElem?_eq_getElem hj)]
    exact hf.strictMono hij
  · intro k hk
    obtain ⟨p, hp, rfl⟩ := List.mem_map.1 hk
    obtain ⟨i, hi⟩ := List.mem_iff_getElem?.1 hp
    rw [hf.start i p hi, hf.size]
    exact hf.strictMono (List.getElem?_eq_some_iff.1 hi).1

/-- Markers, and the ends of what is open behind them, are in the order of the code. -/
theorem Boundaries.pairwise_events :
    (markerEvents (placed.map fun p => (p.start, p.insn.markers)) ++
      openEnds (codeSize placed)
        (markerEvents (placed.map fun p => (p.start, p.insn.markers)))).Pairwise
      fun a b => a.1 ≤ b.1 := by
  obtain ⟨hstarts, hsize⟩ := hf.starts
  apply pairwise_markerEvents
  · exact List.pairwise_map.2 (List.pairwise_map.1 hstarts)
  · intro entry hentry
    obtain ⟨p, hp, rfl⟩ := List.mem_map.1 hentry
    exact hsize _ (List.mem_map_of_mem hp)
  · exact fun _ _ => Nat.le_of_lt
  · exact Nat.le_refl _
  · intro entry _
    exact List.pairwise_map.2 (List.pairwise_of_forall fun _ _ => Nat.le_refl _)

end

/-- **Every table that is written is well formed.**  Its rows are those of the regions that the
markers of the stream bracket.  Each region lies in the code, with a try block and handlers that
follow each other without gap from instruction to instruction.  Of two regions, the one whose rows
stand first in the table ends in front of the other one, or lies in its try block or in one handler
of it. -/
theorem clauses_of_encode {μ : Type} [Metadata μ] {g : Generator} {stream : List NativeInstruction}
    {metadata metadata' : μ} {body : Body}
    (h : g.encode stream metadata = (.ok body, metadata')) :
    ∃ regions : List CodeRegion,
      Brackets (settle stream) regions ∧
      body.clauses = regions.flatMap CodeRegion.clauses ∧
      (∀ r ∈ regions, r.WellFormed ((settle stream).map (·.start)) body.code.length) ∧
      regions.Pairwise fun r r' => r.stop ≤ r'.tryStart ∨ r.LiesIn r' := by
  obtain ⟨-, -, -, hclauses, -⟩ := Generator.encode_eq_ok_iff.1 h
  obtain ⟨f, hf⟩ := exists_boundaries stream
  have hsize := codeSize_of_encode h
  obtain ⟨ms, regions, hnested, hms, hrows⟩ :=
    RegionScan.exists_nested (clausesFrom_eq_ok_iff.1 hclauses) hf.pairwise_events
  have hordered : (ms.map PlacedMarker.event).Pairwise fun a b => a.1 ≤ b.1 := by
    rw [hms]
    exact hf.pairwise_events
  refine ⟨regions, ⟨ms, hnested, hms⟩, hrows.symm, ?_, ?_⟩
  · intro r hr
    apply (hnested.joined r hr).wellFormed
    intro m hm
    -- each marker of a region is one of the stream, in front of an instruction or at the end
    have hmem : m.event ∈ ms.map PlacedMarker.event :=
      List.mem_map_of_mem (hnested.mem_events.2 ⟨r, hr, hm⟩)
    rw [hms] at hmem
    have hboundary := isBoundary_of_mem_events hmem
    rw [hsize] at hboundary
    refine ⟨hboundary, ?_⟩
    rcases hboundary with hin | heq
    · exact Nat.le_of_lt (hsize ▸ hf.starts.2 _ hin)
    · exact Nat.le_of_eq heq
  · have hfollowing := hnested.follows ((List.pairwise_map (f := PlacedMarker.event)).1 hordered)
    apply hfollowing.imp_of_mem
    intro r r' _ hr' hfollows
    exact hfollows.imp_right fun haround => haround.liesIn (hnested.joined r' hr')

/-- A region with an empty try block in the try block of another one, which is open at the end. -/
def bracketedStream : List NativeInstruction :=
  [{ opcode := ⟨0x00⟩, markers := [.beginTry] },
    { opcode := ⟨0x00⟩, markers := [.beginTry, .beginFault] },
    { opcode := ⟨0x00⟩, markers := [.endTry, .beginFinally] }]

theorem clauses_of_encode_bracketedStream : ∃ (body : Body) (regions : List CodeRegion),
    Generator.encode {} bracketedStream ({} : MetadataTables) = (.ok body, {}) ∧
      body.clauses.map (fun c => (c.trySpan, c.handlerSpan)) =
        [((1, 1), (1, 2)), ((0, 2), (2, 3))] ∧
      body.clauses = regions.flatMap CodeRegion.clauses ∧
      ∀ r ∈ regions, r.WellFormed [0, 1, 2] 3 := by
  obtain ⟨body, hencode, hrows, hsize⟩ : ∃ body : Body,
      Generator.encode {} bracketedStream ({} : MetadataTables) = (.ok body, {}) ∧
        body.clauses.map (fun c => (c.trySpan, c.handlerSpan)) =
          [((1, 1), (1, 2)), ((0, 2), (2, 3))] ∧ body.code.length = 3 := ⟨_, rfl, rfl, rfl⟩
  obtain ⟨regions, -, hclauses, hwell, -⟩ := clauses_of_encode hencode
  exact ⟨body, regions, hencode, hrows, hclauses, hsize ▸ hwell⟩

end MethodWeave
