import MethodWeave.Proofs.Host.Wrapping
import MethodWeave.Proofs.Native.Covering
/-!
Exception regions of bodies with hooks around them.

The calls of hooks carry no markers of their own, and the code behind a body begins by ending the
regions that the body leaves open: as many as the scan of its markers has open there
(`openRegions_eq`).  So the scan of the whole meets the markers of the body, at other offsets, and
nothing else (`regionEvents_enclosed`).  Main result: `Hooks.wrapped_keeps_regions`.
-/

namespace MethodWeave

/-! ### Regions that a stream leaves open -/

/-- The markers of a stream by place, and behind them the ends of the regions that it leaves
open. -/
def regionEvents (stream : List NativeInstruction) : List (Nat × Marker) :=
  eventsFrom 0 stream ++ openEnds stream.length (eventsFrom 0 stream)

theorem beginnings_moved (f : Nat → Nat) (events : List (Nat × Marker)) :
    beginnings (events.map (Prod.map f id)) = beginnings events := List.countP_map

theorem endings_moved (f : Nat → Nat) (events : List (Nat × Marker)) :
    endings (events.map (Prod.map f id)) = endings events := List.countP_map

theorem openEnds_moved (f : Nat → Nat) (stop : Nat) (events : List (Nat × Marker)) :
    openEnds (f stop) (events.map (Prod.map f id)) =
      (openEnds stop events).map (Prod.map f id) := by
  rw [openEnds, beginnings_moved, endings_moved, openEnds, List.map_replicate]
  rfl

/-- The table of a stream is built from its markers by place, put where the places lie. -/
theorem clausesFrom_settle_iff {stream : List NativeInstruction} {f : Nat → Nat}
    (hf : Boundaries (settle stream) f) {clauses : List Clause} :
    clausesFrom (codeSize (settle stream)) 0 {}
        ((settle stream).map fun p => (p.start, p.insn.markers)) = .ok clauses ↔
      RegionScan.through {} ((regionEvents stream).map (Prod.map f id)) = some ⟨[], clauses⟩ := by
  rw [clausesFrom_eq_ok_iff, hf.markerEvents_eq, hf.size, length_settle, openEnds_moved,
    ← List.map_append, regionEvents]

theorem foldl_depthAfter_of_through {events : List (Nat × Marker)} {s s' : RegionScan}
    (h : s.through events = some s') :
    (events.map (·.2)).foldl Hooks.depthAfter s.regions.length = s'.regions.length := by
  -- one marker after the other: both count a region up at its beginning and down at its end
  induction events generalizing s with
  | nil => cases h; rfl
  | cons e events ih =>
    obtain ⟨s₁, hfirst, hrest⟩ := RegionScan.through_cons_eq_some.1 h
    have hdepth : Hooks.depthAfter s.regions.length e.2 = s₁.regions.length := by
      have hlength := RegionScan.length_regions_of_mark hfirst
      cases hm : e.2 <;> simp [hm, Marker.phase, Hooks.depthAfter] at hlength ⊢ <;> omega
    rw [List.map_cons, List.foldl_cons, hdepth, ih hrest]

/-- **The regions that the hooks end are those that the scan has open.** -/
theorem openRegions_eq {stream : List NativeInstruction} {f : Nat → Nat} {s : RegionScan}
    (h : RegionScan.through {} ((eventsFrom 0 stream).map (Prod.map f id)) = some s) :
    Hooks.openRegions stream =
      beginnings (eventsFrom 0 stream) - endings (eventsFrom 0 stream) := by
  -- counted by the hooks from the markers, and by the scan from its open regions
  have hdepth := foldl_depthAfter_of_through h
  have hcount := RegionScan.length_regions_of_through h
  rw [beginnings_moved, endings_moved] at hcount
  have hmarkers : ((eventsFrom 0 stream).map (Prod.map f id)).map (·.2) =
      stream.flatMap (·.markers) := by
    rw [List.map_map, ← map_snd_eventsFrom 0 stream]
    rfl
  rw [hmarkers] at hdepth
  rw [Hooks.openRegions]
  simp only [List.length_nil] at hdepth hcount
  omega

/-! ### Code around a body -/

theorem regionEvents_append {front : List NativeInstruction} (hfront : ∀ n ∈ front, n.markers = [])
    (stream : List NativeInstruction) :
    regionEvents (front ++ stream) =
      (regionEvents stream).map (Prod.map (front.length + ·) id) := by
  have hevents : eventsFrom 0 (front ++ stream) =
      (eventsFrom 0 stream).map (Prod.map (front.length + ·) id) := by
    rw [eventsFrom_append, eventsFrom_of_unmarked hfront, List.nil_append, Nat.zero_add,
      ← eventsFrom_add, Nat.add_zero]
  rw [regionEvents, hevents, List.length_append, openEnds_moved (front.length + ·),
    ← List.map_append, regionEvents]

/-- What stands behind a body ends its open regions, and has no other markers. -/
theorem eventsFrom_beginWith {back : List NativeInstruction} (hback : ∀ n ∈ back, n.markers = [])
    (hlength : 0 < back.length) (place : Nat) (label : NativeLabel) (ends : Nat) :
    eventsFrom place (Hooks.beginWith label ends back) = List.replicate ends (place, .endTry) := by
  cases back with
  | nil => cases hlength
  | cons first rest =>
    obtain ⟨hfirst, hrest⟩ := List.forall_mem_cons.1 hback
    rw [Hooks.beginWith, eventsFrom, eventsFrom_of_unmarked hrest, hfirst, List.append_nil,
      List.nil_append, List.map_replicate]

theorem Hooks.markers_redirect (label : NativeLabel) (n : NativeInstruction) :
    (redirect label n).markers = n.markers := by
  unfold redirect
  split <;> rfl

/-- **The markers of an enclosed body are those of the body.** -/
theorem regionEvents_enclosed {front stream back : List NativeInstruction} {label : NativeLabel}
    (hfront : ∀ n ∈ front, n.markers = []) (hback : ∀ n ∈ back, n.markers = [])
    (hlength : 0 < back.length)
    (hopen : Hooks.openRegions stream =
      beginnings (eventsFrom 0 stream) - endings (eventsFrom 0 stream)) :
    regionEvents (Hooks.enclosed front stream label back) =
      (regionEvents stream).map (Prod.map (front.length + ·) id) := by
  rw [Hooks.enclosed, List.append_assoc, regionEvents_append hfront]
  refine congrArg _ ?_
  -- the ends in front of the code behind the body are those that the body leaves to its own end
  have hevents : eventsFrom 0 (stream.map (Hooks.redirect label) ++
      Hooks.beginWith label (Hooks.openRegions stream) back) = regionEvents stream := by
    rw [eventsFrom_append, eventsFrom_map (Hooks.markers_redirect label), List.length_map,
      Nat.zero_add, eventsFrom_beginWith hback hlength, hopen, regionEvents, openEnds]
  -- behind these no region is open
  have hnone : openEnds (stream.map (Hooks.redirect label) ++
      Hooks.beginWith label (Hooks.openRegions stream) back).length (regionEvents stream) = [] := by
    have hbegin : beginnings (openEnds stream.length (eventsFrom 0 stream)) = 0 := by
      simp [beginnings, openEnds, List.countP_replicate]
    have hend : endings (openEnds stream.length (eventsFrom 0 stream)) =
        beginnings (eventsFrom 0 stream) - endings (eventsFrom 0 stream) := by
      simp [endings, openEnds, List.countP_replicate]
    rw [openEnds, regionEvents, List.replicate_eq_nil_iff]
    simp only [beginnings, endings, List.countP_append] at hbegin hend ⊢
    omega
  rw [regionEvents, hevents, hnone, List.append_nil]

/-! ### The instructions of hooks -/

/-- An instruction that is written whatever stands around it, and that no label or marker stands in
front of. -/
structure NativeInstruction.Plain (localCount : Nat) (n : NativeInstruction) : Prop where
  writable : n.Writable localCount
  labels : n.labels = []
  markers : n.markers = []
  targets : n.operand.targets = []

namespace Hooks

variable {localCount : Nat}

theorem InCode.plain {hooks : List MethodRef} {result? : Option Local} {n : NativeInstruction}
    (h : InCode hooks result? n)
    (hresult : ∀ slot, result? = some slot → slot.index.toNat < localCount) :
    n.Plain localCount := by
  cases h with
  | loadArgument i => exact ⟨⟨_, rfl, rfl, nofun⟩, rfl, rfl, rfl⟩
  | loadResult hslot => exact ⟨⟨_, rfl, rfl, hresult _ hslot, nofun⟩, rfl, rfl, rfl⟩
  | call => exact ⟨⟨_, rfl, rfl, trivial⟩, rfl, rfl, rfl⟩
  | drop => exact ⟨⟨_, rfl, rfl, trivial⟩, rfl, rfl, rfl⟩
  | saveResult hslot => exact ⟨⟨_, rfl, rfl, hresult _ hslot, nofun⟩, rfl, rfl, rfl⟩
  | ret => exact ⟨⟨_, rfl, rfl, trivial⟩, rfl, rfl, rfl⟩

theorem plain_before {method : MethodRef} {hooks : List MethodRef} {front : List NativeInstruction}
    (h : before method hooks = .ok front) : ∀ n ∈ front, n.Plain localCount :=
  fun n hn => (inCode_before h n hn).plain nofun

theorem plain_epilogue {method : MethodRef} {hooks : List MethodRef} {result? : Option Local}
    {back : List NativeInstruction}
    (hresult : ∀ slot, result? = some slot → slot.index.toNat < localCount)
    (h : epilogue method hooks result? = .ok back) : ∀ n ∈ back, n.Plain localCount :=
  fun n hn => (inCode_epilogue h n hn).plain hresult

theorem resultSlot?_lt {method : MethodRef} {g : Generator} (hroom : g.locals.length < 65536)
    {slot : Local} (h : resultSlot? method g = some slot) :
    slot.index.toNat < (g.locals ++ method.returnType.toList).length :=
  (List.getElem?_eq_some_iff.1 (resultSlot?_declared hroom h)).1

/-! ### Encoding with hooks -/

/-- The instructions of a body in the stream with hooks around it. -/
def image (request : PatchRequest) (g : Generator) (stream : List NativeInstruction) :
    List NativeInstruction :=
  if request.suffixes.isEmpty then stream else stream.map (redirect ⟨g.nextLabel⟩)

theorem labels_redirect (label : NativeLabel) (n : NativeInstruction) :
    (redirect label n).labels = n.labels := by
  unfold redirect
  split <;> rfl

theorem writable_redirect {n : NativeInstruction} (label : NativeLabel)
    (h : n.Writable localCount) : (redirect label n).Writable localCount := by
  unfold redirect
  split
  · exact ⟨_, rfl, rfl, trivial⟩
  · exact h

theorem targets_redirect {label l : NativeLabel} {n : NativeInstruction}
    (h : l ∈ (redirect label n).operand.targets) : l = label ∨ l ∈ n.operand.targets := by
  unfold redirect at h
  split at h
  · exact .inl (List.mem_singleton.1 h)
  · exact .inr h

/-! ### Labels and operands of wrapped streams -/

theorem flatMap_labels_of_plain {code : List NativeInstruction}
    (h : ∀ n ∈ code, n.Plain localCount) : code.flatMap (·.labels) = [] := by
  rw [List.flatMap_eq_nil_iff]
  exact fun n hn => (h n hn).labels

/-- An enclosed body has the labels of the body and the one that its returns go to. -/
theorem flatMap_labels_enclosed {front stream back : List NativeInstruction} {label : NativeLabel}
    (hfront : ∀ n ∈ front, n.Plain localCount) (hback : ∀ n ∈ back, n.Plain localCount)
    (hlength : 0 < back.length) :
    (enclosed front stream label back).flatMap (·.labels) =
      stream.flatMap (·.labels) ++ [label] := by
  -- redirecting a return changes what it jumps to, not what marks it
  have hbody : (stream.map (redirect label)).flatMap (·.labels) = stream.flatMap (·.labels) := by
    rw [List.flatMap_map]
    simp only [labels_redirect]
  cases back with
  | nil => cases hlength
  | cons first rest =>
    obtain ⟨hfirst, hrest⟩ := List.forall_mem_cons.1 hback
    simp only [enclosed, beginWith, List.flatMap_append, List.flatMap_cons, hbody,
      flatMap_labels_of_plain hfront, flatMap_labels_of_plain hrest, hfirst.labels, List.nil_append,
      List.append_nil]

/-- The code behind a body, with a label and ends of regions in front of it. -/
theorem mem_beginWith {label : NativeLabel} {ends : Nat} {back : List NativeInstruction}
    {n : NativeInstruction} (h : n ∈ beginWith label ends back) :
    ∃ n' ∈ back, n.opcode = n'.opcode ∧ n.operand = n'.operand := by
  cases back with
  | nil => cases h
  | cons first rest =>
    rcases List.mem_cons.1 h with rfl | h
    · exact ⟨first, List.mem_cons_self, rfl, rfl⟩
    · exact ⟨n, List.mem_cons_of_mem _ h, rfl, rfl⟩

section

variable {front stream back : List NativeInstruction} {label : NativeLabel}
  (hfront : ∀ n ∈ front, n.Plain localCount)
include hfront

/-- What stands behind plain code jumps to what it jumped to. -/
theorem marked_append
    (htargets : ∀ n ∈ stream, ∀ l ∈ n.operand.targets, l ∈ stream.flatMap (·.labels)) :
    ∀ n ∈ front ++ stream, ∀ l ∈ n.operand.targets, l ∈ (front ++ stream).flatMap (·.labels) := by
  rw [List.flatMap_append, flatMap_labels_of_plain hfront, List.nil_append]
  refine List.forall_mem_append.2 ⟨fun n hn l hl => ?_, htargets⟩
  rw [(hfront n hn).targets] at hl
  cases hl

/-- An enclosed body jumps to what it jumped to and to the code behind it. -/
theorem marked_enclosed (hback : ∀ n ∈ back, n.Plain localCount) (hlength : 0 < back.length)
    (htargets : ∀ n ∈ stream, ∀ l ∈ n.operand.targets, l ∈ stream.flatMap (·.labels)) :
    ∀ n ∈ enclosed front stream label back, ∀ l ∈ n.operand.targets,
      l ∈ (enclosed front stream label back).flatMap (·.labels) := by
  rw [flatMap_labels_enclosed hfront hback hlength]
  simp only [enclosed, List.forall_mem_append, List.forall_mem_map]
  -- in front of the body, in it and behind it; only the body has jumps
  refine ⟨⟨fun n hn l hl => ?_, fun n hn l hl => ?_⟩, fun n hn l hl => ?_⟩
  · rw [(hfront n hn).targets] at hl
    cases hl
  · rcases targets_redirect hl with rfl | hl
    · exact List.mem_append_right _ (List.mem_singleton_self _)
    · exact List.mem_append_left _ (htargets n hn l hl)
  · obtain ⟨n', hn', -, hoperand⟩ := mem_beginWith hn
    rw [hoperand, (hback n' hn').targets] at hl
    cases hl

/-- An enclosed body is written. -/
theorem writable_enclosed (hback : ∀ n ∈ back, n.Plain localCount)
    (hwritable : ∀ n ∈ stream, n.Writable localCount) :
    ∀ n ∈ enclosed front stream label back, n.Writable localCount := by
  simp only [enclosed, List.forall_mem_append, List.forall_mem_map]
  refine ⟨⟨fun n hn => (hfront n hn).writable, fun n hn => writable_redirect label (hwritable n hn)⟩,
    fun n hn => ?_⟩
  obtain ⟨n', hn', hopcode, hoperand⟩ := mem_beginWith hn
  rw [NativeInstruction.Writable, hopcode, hoperand]
  exact (hback n' hn').writable

end

/-- **Labels stay in order with hooks around a stream.**  If its labels mark one place each, are
older than the next one of the generator and include all that it jumps to, the same holds of the
labels of the wrapped stream. -/
theorem wrapped_marked {method : MethodRef} {request : PatchRequest} {g g' : Generator}
    {stream wrapped : List NativeInstruction}
    (hlabels : ∀ l ∈ stream.flatMap (·.labels), l.number < g.nextLabel)
    (hnodup : (stream.flatMap (·.labels)).Nodup)
    (htargets : ∀ n ∈ stream, ∀ l ∈ n.operand.targets, l ∈ stream.flatMap (·.labels))
    (hwrap : wrap method stream request g = .ok (wrapped, g')) :
    (wrapped.flatMap (·.labels)).Nodup ∧
      ∀ n ∈ wrapped, ∀ l ∈ n.operand.targets, l ∈ wrapped.flatMap (·.labels) := by
  obtain ⟨front, hfront, ⟨-, rfl, -⟩ | ⟨-, -, back, hback, rfl⟩⟩ := wrap_cases hwrap
  · -- without suffixes the body stands behind the prefixes as it is
    have hplain : ∀ n ∈ front, n.Plain 65536 := plain_before hfront
    refine ⟨?_, marked_append hplain htargets⟩
    rw [List.flatMap_append, flatMap_labels_of_plain hplain]
    exact hnodup
  · -- with suffixes its returns go to a new label behind it, which no instruction had
    have hplain : ∀ n ∈ front, n.Plain 65536 := plain_before hfront
    have hplain' : ∀ n ∈ back, n.Plain 65536 :=
      plain_epilogue (fun slot _ => slot.index.toNat_lt) hback
    have hlength := length_epilogue_pos hback
    refine ⟨?_, marked_enclosed hplain hplain' hlength htargets⟩
    rw [flatMap_labels_enclosed hplain hplain' hlength, List.nodup_append]
    refine ⟨hnodup, List.nodup_singleton _, fun l hl l' hl' heq => ?_⟩
    have hlt := hlabels l hl
    rw [heq, List.mem_singleton.1 hl'] at hlt
    exact Nat.lt_irrefl _ hlt

/-- A wrapped stream can be written, its labels are apart, and its markers are those of the stream
at other places. -/
theorem wrapped_written {method : MethodRef} {request : PatchRequest} {g g' : Generator}
    {stream wrapped : List NativeInstruction} (hlabels : ∀ n ∈ stream, ∀ l ∈ n.labels,
      l.number < g.nextLabel) (hroom : g.locals.length < 65536)
    (hwritable : ∀ n ∈ stream, n.Writable g.locals.length)
    (hnodup : (stream.flatMap (·.labels)).Nodup)
    (htargets : ∀ n ∈ stream, ∀ l ∈ n.operand.targets, l ∈ stream.flatMap (·.labels))
    (hopen : openRegions stream =
      beginnings (eventsFrom 0 stream) - endings (eventsFrom 0 stream))
    (hwrap : wrap method stream request g = .ok (wrapped, g')) :
    ((∀ n ∈ wrapped, n.Writable g'.locals.length) ∧
      ∀ n ∈ wrapped, ∀ l ∈ n.operand.targets, l ∈ wrapped.flatMap (·.labels)) ∧
    (wrapped.flatMap (·.labels)).Nodup ∧ ∃ front back,
      before method request.prefixes = .ok front ∧
      wrapped = front ++ image request g stream ++ back ∧
      regionEvents wrapped = (regionEvents stream).map (Prod.map (front.length + ·) id) := by
  have hlabels' : ∀ l ∈ stream.flatMap (·.labels), l.number < g.nextLabel := by
    intro l hl
    obtain ⟨n, hn, hl⟩ := List.mem_flatMap.1 hl
    exact hlabels n hn l hl
  -- labels do not depend on what is written
  obtain ⟨hnodup', htargets'⟩ := wrapped_marked hlabels' hnodup htargets hwrap
  obtain ⟨front, hfront, ⟨hnone, rfl, hlocals⟩ | ⟨hsome, hlocals, back, hback, rfl⟩⟩ :=
    wrap_cases hwrap
  · have hplain : ∀ n ∈ front, n.Plain g'.locals.length := plain_before hfront
    rw [hlocals] at hplain ⊢
    -- the markers of the body move behind the prefixes
    refine ⟨⟨List.forall_mem_append.2 ⟨fun n hn => (hplain n hn).writable, hwritable⟩, htargets'⟩,
      hnodup', front, [], hfront, ?_,
      regionEvents_append (fun n hn => (hplain n hn).markers) stream⟩
    rw [image, hnone, List.append_nil]
    rfl
  · have hplain : ∀ n ∈ front, n.Plain g'.locals.length := plain_before hfront
    -- the slot of the result is declared before the code behind the body uses it
    have hplain' := plain_epilogue (fun slot hslot => resultSlot?_lt hroom hslot) hback
    rw [hlocals] at hplain ⊢
    refine ⟨⟨writable_enclosed hplain hplain' fun n hn => (hwritable n hn).mono ?_, htargets'⟩,
      hnodup', front, beginWith ⟨g.nextLabel⟩ (openRegions stream) back, hfront, ?_,
      regionEvents_enclosed (fun n hn => (hplain n hn).markers)
        (fun n hn => (hplain' n hn).markers) (length_epilogue_pos hback) hopen⟩
    · rw [List.length_append]
      exact Nat.le_add_right _ _
    · rw [image, if_neg (fun hempty => hsome (List.isEmpty_iff.1 hempty)), enclosed]

/-- **Hooks never move into or out of exception regions.**  A stream that is encoded is encoded with
hooks around it too.  The clauses are as many, of the same kinds and in the same order, and each
covers the images of the instructions that it covered, and no instruction of a hook. -/
theorem wrapped_keeps_regions {μ : Type} [Metadata μ] {method : MethodRef} {request : PatchRequest}
    {g g' : Generator} {stream wrapped : List NativeInstruction} {metadata metadata₁ : μ}
    {body : Body}
    (hlabels : ∀ n ∈ stream, ∀ l ∈ n.labels, l.number < g.nextLabel)
    (hencode : g.encode stream metadata = (.ok body, metadata₁))
    (hroom : g.locals.length < 65536)
    (hwrap : wrap method stream request g = .ok (wrapped, g')) (start : μ) :
    ∃ again metadata₂, g'.encode wrapped start = (.ok again, metadata₂) ∧
      (body.code.length < 0x80000000 → again.code.length < 0x80000000 →
        ∃ front back, before method request.prefixes = .ok front ∧
          wrapped = front ++ image request g stream ++ back ∧
          List.Forall₂ (Clause.CoversAlike (settle stream) (settle wrapped) front.length)
            body.clauses again.clauses) := by
  obtain ⟨hwritable, hnodup, htargets, -⟩ := exists_encode_iff.1 ⟨_, _, hencode⟩
  obtain ⟨-, -, -, hclauses, -⟩ := Generator.encode_eq_ok_iff.1 hencode
  obtain ⟨f, hf⟩ := exists_boundaries stream
  rw [clausesFrom_settle_iff hf] at hclauses
  -- the hooks end as many regions as the scan of the markers leaves open
  have hopen : openRegions stream =
      beginnings (eventsFrom 0 stream) - endings (eventsFrom 0 stream) := by
    rw [regionEvents, List.map_append, RegionScan.through_append, Option.bind_eq_some_iff]
      at hclauses
    obtain ⟨s, hs, -⟩ := hclauses
    exact openRegions_eq hs
  obtain ⟨⟨hwritable', htargets'⟩, hnodup', front, back, hfront, hsplit, hevents⟩ :=
    wrapped_written hlabels hroom hwritable hnodup htargets hopen hwrap
  -- so the markers make the same table, at other offsets
  obtain ⟨f', hf'⟩ := exists_boundaries wrapped
  have hbound : ∀ e ∈ regionEvents stream, e.1 ≤ stream.length := by
    intro e he
    rcases List.mem_append.1 he with he | he
    · have := lt_of_mem_eventsFrom he
      omega
    · rw [(List.mem_replicate.1 he).2]
  obtain ⟨clauses, hscan, hsame⟩ :=
    RegionScan.clauses_of_moved hbound hclauses fun i => f' (front.length + i)
  have hclauses' : clausesFrom (codeSize (settle wrapped)) 0 {}
      ((settle wrapped).map fun p => (p.start, p.insn.markers)) = .ok clauses := by
    rw [clausesFrom_settle_iff hf', hevents, List.map_map]
    exact hscan
  have hexists : ∃ again metadata₂, g'.encode wrapped start = (.ok again, metadata₂) :=
    exists_encode_iff.2 ⟨hwritable', hnodup', htargets', clauses, hclauses'⟩
  obtain ⟨again, metadata₂, hagain⟩ := hexists
  refine ⟨again, metadata₂, hagain, fun hsize hsize' => ⟨front, back, hfront, hsplit, ?_⟩⟩
  rw [← codeSize_of_encode hencode] at hsize
  rw [← codeSize_of_encode hagain] at hsize'
  obtain ⟨-, -, -, hclauses'', -⟩ := Generator.encode_eq_ok_iff.1 hagain
  obtain rfl : again.clauses = clauses := Except.ok.inj (hclauses''.symm.trans hclauses')
  rw [← length_settle stream] at hsame
  refine hsame.imp fun c c' hc => hc.coversAlike hf hf' ?_ (by omega) (by omega)
  -- redirecting takes no instruction out
  have himage : (image request g stream).length = stream.length := by
    unfold image
    split
    · rfl
    · exact List.length_map _
  rw [length_settle, length_settle, hsplit, List.length_append, List.length_append, himage]
  omega

/-! ### A handler at the end -/

/-- A static method that takes a number and gives one. -/
def identity : MethodRef where
  token := .ofRow Token.methodDefTable 1
  declaringType := ⟨.ofRow Token.typeDefTable 1, "Program"⟩
  name := "identity"
  parameters := [.int32]
  returnType := some .int32
  isStatic := true

/-- A body that ends in a handler; in front of it stands a jump behind the try block. -/
def handlerStream : List NativeInstruction :=
  [{ opcode := Opcode.leaveShort, operand := .label ⟨0⟩, markers := [.beginTry] },
    { opcode := Opcode.pop, markers := [.beginCatch none] },
    { opcode := Opcode.ldarg, operand := .argument 0, labels := [⟨0⟩] },
    { opcode := Opcode.ret }]

/-- The method itself is called before its body, and what it returns is dropped behind it. -/
def handlerRequest : PatchRequest where
  owner := "w"
  prefixes := [identity]
  suffixes := [identity]

/-- The handler ends where the code behind the body begins, though the return in it has become a
longer jump. -/
theorem wrapped_keeps_regions_handler :
    ∃ wrapped g' again metadata₂ body metadata₁ front,
      ({ nextLabel := 1 } : Generator).encode handlerStream ({} : MetadataTables) =
        (.ok body, metadata₁) ∧
      wrap identity handlerStream handlerRequest { nextLabel := 1 } = .ok (wrapped, g') ∧
      g'.encode wrapped ({} : MetadataTables) = (.ok again, metadata₂) ∧
      body.clauses.map (fun c => (c.tryOffset, c.tryEnd, c.handlerOffset, c.handlerEnd)) =
        [(0, 2, 2, 8)] ∧
      again.clauses.map (fun c => (c.tryOffset, c.tryEnd, c.handlerOffset, c.handlerEnd)) =
        [(10, 12, 12, 22)] ∧
      List.Forall₂ (Clause.CoversAlike (settle handlerStream) (settle wrapped) front)
        body.clauses again.clauses := by
  have hencode : ({ nextLabel := 1 } : Generator).encode handlerStream ({} : MetadataTables) =
    (.ok _, _) := rfl
  have hwrap : wrap identity handlerStream handlerRequest { nextLabel := 1 } = .ok (_, _) := rfl
  obtain ⟨again, metadata₂, hagain, hcovers⟩ := wrapped_keeps_regions (by decide) hencode
    (by decide) hwrap {}
  have hlength := codeSize_of_encode hagain
  obtain ⟨front, back, -, -, hsame⟩ := hcovers (by decide) (by rw [← hlength]; decide)
  refine ⟨_, _, again, metadata₂, _, _, front.length, hencode, hwrap, hagain, by decide, ?_, hsame⟩
  have hshape := congrArg (fun outcome => outcome.1.toOption.map fun body : Body =>
    body.clauses.map fun c => (c.tryOffset, c.tryEnd, c.handlerOffset, c.handlerEnd)) hagain
  exact (Option.some.inj hshape).symm

end Hooks

end MethodWeave
