import MethodWeave.Proofs.Native.Refusals
import MethodWeave.Proofs.Native.Widening
/-!
Streams that differ in the numbers of their labels.

Of a label only its place matters, the first instruction that it marks (`placeOf?`).  Two streams
that have the same instructions, up to labels in the same places (`Relabelled`), are laid out alike,
jump over the same distances and are written as the same bytes.  Main results: `Relabelled.encode`,
they are encoded as the same body or fail alike; and `relabelled_of_renaming`, renaming labels
injectively and reordering those of an instruction makes such a stream.
-/

namespace MethodWeave

variable {R S : NativeLabel → NativeLabel → Prop}

/-! ### Instructions and places -/

/-- The same instruction, up to related labels in the operand and any labels that mark it. -/
structure NativeInstruction.Alike (R : NativeLabel → NativeLabel → Prop)
    (n n' : NativeInstruction) : Prop where
  opcode : n'.opcode = n.opcode
  operand : Payload.Related R n.operand n'.operand
  markers : n'.markers = n.markers

theorem NativeInstruction.Alike.imp {n n' : NativeInstruction} (h : n.Alike R n')
    (hRS : ∀ l l', R l l' → S l l') : n.Alike S n' :=
  ⟨h.opcode, h.operand.imp hRS, h.markers⟩

/-- The place of the first instruction that the label marks. -/
def placeOf? (stream : List NativeInstruction) (l : NativeLabel) : Option Nat :=
  stream.findIdx? fun n => decide (l ∈ n.labels)

/-- The labels have the same place, or none has one. -/
def LieAlike (stream stream' : List NativeInstruction) (l l' : NativeLabel) : Prop :=
  placeOf? stream' l' = placeOf? stream l

/-- The streams have the same instructions, up to the numbers of labels: no label marks two places
of the one or of the other, and then the operands name labels in the same places, or both streams
have a label that does. -/
structure Relabelled (stream stream' : List NativeInstruction) : Prop where
  alike : List.Forall₂ (NativeInstruction.Alike fun _ _ => True) stream stream'
  nodup : (stream'.flatMap (·.labels)).Nodup ↔ (stream.flatMap (·.labels)).Nodup
  places : (stream.flatMap (·.labels)).Nodup →
    List.Forall₂ (NativeInstruction.Alike (LieAlike stream stream')) stream stream'

/-! ### Layouts -/

/-- Instructions alike in the same form. -/
def PairsAlike (R : NativeLabel → NativeLabel → Prop)
    (pairs pairs' : List (NativeInstruction × Opcode)) : Prop :=
  List.Forall₂ (fun pair pair' => pair.1.Alike R pair'.1 ∧ pair'.2 = pair.2) pairs pairs'

/-- Instructions alike, in the same form and at the same place in the code. -/
structure Placed.Alike (R : NativeLabel → NativeLabel → Prop) (p p' : Placed) : Prop where
  insn : p.insn.Alike R p'.insn
  form : p'.form = p.form
  start : p'.start = p.start
  stop : p'.stop = p.stop

theorem NativeInstruction.Alike.sizeAs {n n' : NativeInstruction} (h : n.Alike R n')
    (form : Opcode) : n'.sizeAs form = n.sizeAs form := by
  rw [NativeInstruction.sizeAs, NativeInstruction.sizeAs, h.operand.targets.length_eq]

section

variable {pairs pairs' : List (NativeInstruction × Opcode)}

theorem PairsAlike.forall₂_place (h : PairsAlike R pairs pairs') (position : Nat) :
    List.Forall₂ (Placed.Alike R) (place position pairs) (place position pairs') := by
  induction h generalizing position with
  | nil => exact .nil
  | @cons pair pair' _ _ hpair _ ih =>
    obtain ⟨n, form⟩ := pair
    obtain ⟨n', form'⟩ := pair'
    obtain ⟨hn, rfl⟩ := hpair
    have hsize := hn.sizeAs form'
    simp only at hsize
    rw [place, place, hsize]
    exact .cons ⟨hn, rfl, rfl, rfl⟩ (ih _)

theorem PairsAlike.sizeOfFirst_eq (h : PairsAlike R pairs pairs') (count : Nat) :
    sizeOfFirst count pairs' = sizeOfFirst count pairs := by
  induction h generalizing count with
  | nil => rfl
  | @cons pair pair' _ _ hpair _ ih =>
    obtain ⟨n, form⟩ := pair
    obtain ⟨n', form'⟩ := pair'
    obtain ⟨hn, rfl⟩ := hpair
    cases count with
    | zero => rfl
    | succ count => rw [sizeOfFirst, sizeOfFirst, ih, hn.sizeAs]

/-- Labels in the same place have the same offset. -/
theorem PairsAlike.lookup_eq (h : PairsAlike R pairs pairs') {l l' : NativeLabel}
    (hl : LieAlike (pairs.map (·.1)) (pairs'.map (·.1)) l l') :
    (bindings (place 0 pairs')).lookup l' = (bindings (place 0 pairs)).lookup l := by
  rw [lookup_bindings_place, lookup_bindings_place]
  show (placeOf? (pairs'.map (·.1)) l').map _ = (placeOf? (pairs.map (·.1)) l).map _
  rw [hl]
  simp only [h.sizeOfFirst_eq]

end

section

variable {p p' : Placed} {bound bound' : List (NativeLabel × Nat)}

/-- Labels with the same offset are at the same distance. -/
theorem Placed.Alike.displacement? (h : p.Alike R p') {l l' : NativeLabel}
    (hl : bound'.lookup l' = bound.lookup l) :
    p'.displacement? bound' l' = p.displacement? bound l := by
  rw [Placed.displacement?, Placed.displacement?, hl, h.stop]

theorem Placed.Alike.strays (h : p.Alike R p')
    (hR : ∀ l l', R l l' → bound'.lookup l' = bound.lookup l) :
    p'.strays bound' = p.strays bound := by
  have hoperand := h.insn.operand
  unfold Placed.strays
  generalize p.insn.operand = o at hoperand
  generalize p'.insn.operand = o' at hoperand
  cases hoperand with
  | label hl => simp only [h.form, h.displacement? (hR _ _ hl)]
  | _ => rfl

theorem Placed.Alike.reformed (h : p.Alike R p')
    (hR : ∀ l l', R l l' → bound'.lookup l' = bound.lookup l) :
    (p.reformed bound).1.Alike R (p'.reformed bound').1 ∧
      (p'.reformed bound').2 = (p.reformed bound).2 := by
  refine ⟨h.insn, ?_⟩
  simp only [Placed.reformed, h.strays hR, h.form]

end

/-- Every round of settling leaves the streams alike. -/
theorem PairsAlike.settleWithin_alike {stream stream' : List NativeInstruction} (rounds : Nat)
    {pairs pairs' : List (NativeInstruction × Opcode)}
    (h : PairsAlike (LieAlike stream stream') pairs pairs') (hstream : pairs.map (·.1) = stream)
    (hstream' : pairs'.map (·.1) = stream') :
    List.Forall₂ (Placed.Alike (LieAlike stream stream')) (settleWithin rounds pairs)
      (settleWithin rounds pairs') := by
  induction rounds generalizing pairs pairs' with
  | zero => exact h.forall₂_place 0
  | succ rounds ih =>
    have hplaced := h.forall₂_place 0
    have hlookup (l l' : NativeLabel) (hl : LieAlike stream stream' l l') :
        (bindings (place 0 pairs')).lookup l' = (bindings (place 0 pairs)).lookup l :=
      h.lookup_eq (by rwa [hstream, hstream'])
    have hany : (place 0 pairs').any (·.strays (bindings (place 0 pairs'))) =
        (place 0 pairs).any (·.strays (bindings (place 0 pairs))) :=
      any_eq_of_forall₂ (hplaced.imp fun p p' hp => hp.strays hlookup)
    simp only [settleWithin, hany]
    split
    · refine ih ?_ ?_ ?_
      · rw [PairsAlike, List.forall₂_map_left_iff, List.forall₂_map_right_iff]
        exact hplaced.imp fun p p' hp => hp.reformed hlookup
      · rw [List.map_map, ← hstream]
        exact map_insn_place 0 pairs
      · rw [List.map_map, ← hstream']
        exact map_insn_place 0 pairs'
    · exact hplaced

/-- Streams alike are laid out alike. -/
theorem settle_alike {stream stream' : List NativeInstruction}
    (h : List.Forall₂ (NativeInstruction.Alike (LieAlike stream stream')) stream stream') :
    List.Forall₂ (Placed.Alike (LieAlike stream stream')) (settle stream) (settle stream') ∧
      ∀ l l', LieAlike stream stream' l l' →
        (bindings (settle stream')).lookup l' = (bindings (settle stream)).lookup l := by
  -- as many rounds, since the opcodes are the same
  have hrounds : (shortBranches stream').length = (shortBranches stream).length := by
    have hopcodes : stream'.map (·.opcode) = stream.map (·.opcode) := by
      rw [← List.forall₂_eq_eq_eq, List.forall₂_map_left_iff, List.forall₂_map_right_iff]
      exact h.flip.imp fun _ _ hn => hn.opcode
    have hcount := congrArg (List.countP fun op => op.longForm?.isSome) hopcodes
    rw [List.countP_map, List.countP_map] at hcount
    rw [shortBranches, shortBranches, ← List.countP_eq_length_filter,
      ← List.countP_eq_length_filter]
    exact hcount
  have hpairs : PairsAlike (LieAlike stream stream') (stream.map fun i => (i, i.opcode))
      (stream'.map fun i => (i, i.opcode)) := by
    rw [PairsAlike, List.forall₂_map_left_iff, List.forall₂_map_right_iff]
    exact h.imp fun n n' hn => ⟨hn, hn.opcode⟩
  have hstream (stream : List NativeInstruction) :
      (stream.map fun i => (i, i.opcode)).map (·.1) = stream := by
    rw [List.map_map]
    exact List.map_id _
  have hplaced : List.Forall₂ (Placed.Alike (LieAlike stream stream')) (settle stream)
      (settle stream') := by
    rw [settle, settle, hrounds]
    exact hpairs.settleWithin_alike _ (hstream stream) (hstream stream')
  refine ⟨hplaced, ?_⟩
  obtain ⟨settled, hsettle, hinsns, -⟩ := settle_settled stream
  obtain ⟨settled', hsettle', hinsns', -⟩ := settle_settled stream'
  rw [hsettle, hsettle'] at hplaced ⊢
  -- labels that lie alike among the instructions have one offset in layouts that are alike
  have hsettled : PairsAlike (LieAlike stream stream') settled settled' := by
    rw [PairsAlike, ← map_place 0 settled, ← map_place 0 settled', List.forall₂_map_left_iff,
      List.forall₂_map_right_iff]
    exact hplaced.imp fun p p' hp => ⟨hp.insn, hp.form⟩
  exact fun l l' hl => hsettled.lookup_eq (by rwa [hinsns, hinsns'])

/-! ### Bytes -/

section

variable {p p' : Placed} {bound bound' : List (NativeLabel × Nat)}

/-- The operand has the same bytes, or the same thing is wrong with it. -/
theorem Placed.Alike.operandBytes (h : p.Alike R p')
    (hR : ∀ l l', R l l' → bound'.lookup l' = bound.lookup l) (index localCount : Nat)
    (token : Token) :
    SameUpTo EncodeError.kind (p.operandBytes index bound localCount token)
      (p'.operandBytes index bound' localCount token) := by
  -- labels matter by their displacements only
  have hreach (l l' : NativeLabel) (hl : R l l') : SameUpTo EncodeError.kind
      (p.reach index bound l) (p'.reach index bound' l') := by
    unfold Placed.reach
    rw [h.displacement? (hR l l' hl)]
    cases p.displacement? bound l with
    | some d => exact .ok d
    | none => exact .error rfl
  have hoperand := h.insn.operand
  unfold Placed.operandBytes
  rw [h.form, h.insn.opcode]
  generalize p.insn.operand = o at hoperand
  generalize p'.insn.operand = o' at hoperand
  cases hoperand with
  | label hl =>
    rcases p.form.operandClass? with _ | c
    · exact .error rfl
    · cases c with
      | shortBranch | branch => exact (hreach _ _ hl).bind fun _ => .ok _
      | _ => exact .error rfl
  | labels hls =>
    rcases p.form.operandClass? with _ | c
    · exact .error rfl
    · cases c with
      | switch =>
        simp only [hls.length_eq]
        exact (SameUpTo.mapM (hls.imp hreach)).bind fun _ => .ok _
      | _ => exact .error rfl
  | _ =>
    rcases p.form.operandClass? with _ | c
    · exact .refl _
    · cases c <;> exact .refl _

theorem Placed.Alike.internString {μ : Type} [Metadata μ] (h : p.Alike R p') (metadata : μ) :
    p'.internString metadata = p.internString metadata := by
  have hoperand := h.insn.operand
  unfold Placed.internString
  generalize p.insn.operand = o at hoperand
  generalize p'.insn.operand = o' at hoperand
  cases hoperand <;> rfl

end

/-- Layouts alike are written as the same bytes, with the same strings interned. -/
theorem writeFrom_alike {μ : Type} [Metadata μ] {placed placed' : List Placed}
    {bound bound' : List (NativeLabel × Nat)} (h : List.Forall₂ (Placed.Alike R) placed placed')
    (hR : ∀ l l', R l l' → bound'.lookup l' = bound.lookup l) (localCount index : Nat)
    (metadata : μ) :
    SameUpTo EncodeError.kind (writeFrom bound localCount index metadata placed).1
        (writeFrom bound' localCount index metadata placed').1 ∧
      (writeFrom bound' localCount index metadata placed').2 =
        (writeFrom bound localCount index metadata placed).2 := by
  induction h generalizing index metadata with
  | nil => exact ⟨.ok [], rfl⟩
  | @cons p p' _ _ hp _ ih =>
    have hbytes := hp.operandBytes hR index localCount (p.internString metadata).1
    rw [writeFrom, writeFrom, hp.internString metadata, hp.form]
    generalize p.internString metadata = interned at hbytes
    obtain ⟨token, metadata⟩ := interned
    simp only at hbytes ⊢
    generalize p.operandBytes index bound localCount token = operand at hbytes
    generalize p'.operandBytes index bound' localCount token = operand' at hbytes
    cases hbytes with
    | error hkind => exact ⟨.error hkind, rfl⟩
    | ok operand =>
      obtain ⟨hrest, hmetadata⟩ := ih (index + 1) metadata
      exact ⟨hrest.map _, hmetadata⟩

/-! ### Encoding -/

theorem check_alike {n n' : NativeInstruction} (h : n.Alike R n') (index : Nat) :
    n'.check index = n.check index := by
  unfold NativeInstruction.check
  rw [h.opcode]
  cases n.opcode.info? with
  | none => rfl
  | some info => simp only [h.operand.suits info]

theorem checkFrom_alike {stream stream' : List NativeInstruction}
    (h : List.Forall₂ (NativeInstruction.Alike R) stream stream') (index : Nat) :
    checkFrom index stream' = checkFrom index stream := by
  induction h generalizing index with
  | nil => rfl
  | cons hn _ ih => rw [checkFrom, checkFrom, check_alike hn, ih]

/-- Layouts alike have the same size, and the same markers in the same places. -/
theorem regions_alike {placed placed' : List Placed}
    (h : List.Forall₂ (Placed.Alike R) placed placed') :
    codeSize placed' = codeSize placed ∧
      placed'.map (fun p => (p.start, p.insn.markers)) =
        placed.map fun p => (p.start, p.insn.markers) := by
  have hstops : placed'.map (·.stop) = placed.map (·.stop) := by
    rw [← List.forall₂_eq_eq_eq, List.forall₂_map_left_iff, List.forall₂_map_right_iff]
    exact h.flip.imp fun _ _ hp => hp.stop
  constructor
  · rw [codeSize, codeSize, ← List.getLast?_map, ← List.getLast?_map, hstops]
  · rw [← List.forall₂_eq_eq_eq, List.forall₂_map_left_iff, List.forall₂_map_right_iff]
    exact h.flip.imp fun p' p hp => by rw [hp.start, hp.insn.markers]

/-- **Only the places of labels matter.**  Streams that differ in the numbers of their labels are
encoded as one body, with the same strings interned, or fail with errors of one kind. -/
theorem Relabelled.encode {μ : Type} [Metadata μ] {stream stream' : List NativeInstruction}
    (h : Relabelled stream stream') {g g' : Generator} (hlocals : g'.locals = g.locals)
    (metadata : μ) :
    SameUpTo EncodeError.kind (g.encode stream metadata).1 (g'.encode stream' metadata).1 ∧
      (g'.encode stream' metadata).2 = (g.encode stream metadata).2 := by
  unfold Generator.encode
  rw [checkFrom_alike h.alike]
  cases checkFrom 0 stream with
  | error e => exact ⟨.refl _, rfl⟩
  | ok _ =>
    by_cases hnodup : (stream.flatMap (·.labels)).Nodup
    · obtain ⟨hplaced, hlookup⟩ := settle_alike (h.places hnodup)
      obtain ⟨hcode, hmetadata⟩ := writeFrom_alike hplaced hlookup g.locals.length 0 metadata
      obtain ⟨hsize, hmarkers⟩ := regions_alike hplaced
      simp only [checkLabels_of_nodup hnodup, checkLabels_of_nodup (h.nodup.2 hnodup), hlocals,
        hsize, hmarkers]
      exact ⟨hcode.bind fun _ => .refl _, hmetadata⟩
    · obtain ⟨e, he, hkind⟩ := checkLabels_of_not_nodup hnodup
      obtain ⟨e', he', hkind'⟩ := checkLabels_of_not_nodup (mt h.nodup.1 hnodup)
      simp only [he, he']
      exact ⟨.error (hkind'.trans hkind.symm), rfl⟩

/-! ### Renaming -/

/-- All labels of a stream, those that mark instructions and those that operands name. -/
def labelsOf (stream : List NativeInstruction) : List NativeLabel :=
  stream.flatMap fun n => n.labels ++ n.operand.targets

/-- The instruction with its labels renamed; those that mark it may stand in any order. -/
structure NativeInstruction.RenamesTo (ρ : NativeLabel → NativeLabel) (n n' : NativeInstruction) :
    Prop extends n.Alike (fun l l' => l' = ρ l) n' where
  labels : n'.labels.Perm (n.labels.map ρ)

/-- **Renaming labels injectively keeps their places**, in whatever order the labels of an
instruction stand. -/
theorem relabelled_of_renaming {ρ : NativeLabel → NativeLabel}
    {stream stream' : List NativeInstruction} (hρ : Set.InjOn ρ {l | l ∈ labelsOf stream})
    (h : List.Forall₂ (NativeInstruction.RenamesTo ρ) stream stream') :
    Relabelled stream stream' := by
  have hmark {n : NativeInstruction} (hn : n ∈ stream) {l : NativeLabel} (hl : l ∈ n.labels) :
      l ∈ labelsOf stream :=
    List.mem_flatMap.2 ⟨n, hn, List.mem_append_left _ hl⟩
  have hperm : (stream'.flatMap (·.labels)).Perm ((stream.flatMap (·.labels)).map ρ) := by
    rw [List.map_flatMap]
    exact perm_flatMap_of_forall₂ (h.imp fun _ _ hn => hn.labels)
  refine ⟨h.imp fun n n' hn => hn.toAlike.imp fun _ _ _ => trivial, ?_, fun _ => ?_⟩
  · rw [hperm.nodup_iff]
    refine ⟨List.Nodup.of_map ρ, fun hnodup => hnodup.map_on fun l hl l' hl' heq => ?_⟩
    obtain ⟨n, hn, hl⟩ := List.mem_flatMap.1 hl
    obtain ⟨n', hn', hl'⟩ := List.mem_flatMap.1 hl'
    exact hρ (hmark hn hl) (hmark hn' hl') heq
  · refine (forall₂_and_mem h).imp fun n n' ⟨hn, _, hrenames⟩ => ?_
    refine ⟨hrenames.opcode, hrenames.operand.imp_of_mem fun l l' hl _ heq => ?_, hrenames.markers⟩
    subst heq
    have hlabel : l ∈ labelsOf stream := List.mem_flatMap.2 ⟨n, hn, List.mem_append_right _ hl⟩
    -- the renamed label marks just what the label marked, as no other one has its new number
    refine findIdx?_eq_of_forall₂ ((forall₂_and_mem h).imp fun m m' ⟨hm, _, hrenames⟩ => ?_)
    rw [decide_eq_decide, hrenames.labels.mem_iff, List.mem_map]
    constructor
    · rintro ⟨k, hk, heq⟩
      rwa [← hρ (hmark hm hk) hlabel heq]
    · exact fun hl => ⟨l, hl, rfl⟩

end MethodWeave
