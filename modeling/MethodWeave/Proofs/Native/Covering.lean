import Mathlib.Order.MinMax
import Mathlib.Order.Monotone.Basic
import MethodWeave.Proofs.Native.Encodable
import MethodWeave.Proofs.Region.Moving
/-!
Which instructions a clause covers.

A layout cuts the code at the boundaries between its instructions (`Boundaries`), and every clause
built from markers begins and ends at such boundaries.  So what a clause covers is known from the
places of its boundaries in the stream, whatever sizes the instructions have
(`Clause.SamePlaces.coversAlike`).
-/

namespace MethodWeave

/-! ### Boundaries of a layout -/

/-- Place by place, where the instructions of a layout begin and end. -/
structure Boundaries (placed : List Placed) (f : Nat → Nat) : Prop where
  start : ∀ i p, placed[i]? = some p → p.start = f i
  stop : ∀ i p, placed[i]? = some p → p.stop = f (i + 1)
  size : codeSize placed = f placed.length
  strictMono : StrictMono f

/-- The first bytes of an instruction are those of its opcode. -/
theorem NativeInstruction.sizeAs_pos (i : NativeInstruction) (form : Opcode) :
    0 < i.sizeAs form :=
  Nat.lt_of_lt_of_le form.size_bounds.1 (Nat.le_add_right _ _)

/-- The bytes of the first so many instructions. -/
def sizeOfFirst : Nat → List (NativeInstruction × Opcode) → Nat
  | 0, _ | _, [] => 0
  | count + 1, (insn, form) :: rest => insn.sizeAs form + sizeOfFirst count rest

@[simp] theorem sizeOfFirst_nil (count : Nat) : sizeOfFirst count [] = 0 := by cases count <;> rfl

theorem sizeOfFirst_succ {pairs : List (NativeInstruction × Opcode)} {i : Nat}
    {pair : NativeInstruction × Opcode} (h : pairs[i]? = some pair) :
    sizeOfFirst (i + 1) pairs = sizeOfFirst i pairs + pair.1.sizeAs pair.2 := by
  induction pairs generalizing i with
  | nil => cases h
  | cons first rest ih =>
    cases i with
    | zero =>
      cases h
      cases rest <;> simp [sizeOfFirst]
    | succ i => rw [sizeOfFirst, ih h, sizeOfFirst, Nat.add_assoc]

/-- Behind the last instruction there are no bytes. -/
theorem sizeOfFirst_of_le {pairs : List (NativeInstruction × Opcode)} {i : Nat}
    (h : pairs.length ≤ i) : sizeOfFirst (i + 1) pairs = sizeOfFirst i pairs := by
  induction pairs generalizing i with
  | nil => rw [sizeOfFirst_nil, sizeOfFirst_nil]
  | cons first rest ih =>
    cases i with
    | zero => cases h
    | succ i => rw [sizeOfFirst, ih (Nat.le_of_succ_le_succ h), sizeOfFirst]

theorem sizeOfFirst_mono (pairs : List (NativeInstruction × Opcode)) :
    Monotone fun i => sizeOfFirst i pairs := by
  refine monotone_nat_of_le_succ fun i => ?_
  cases hpair : pairs[i]? with
  | none => exact Nat.le_of_eq (sizeOfFirst_of_le (List.getElem?_eq_none_iff.1 hpair)).symm
  | some pair =>
    show sizeOfFirst i pairs ≤ sizeOfFirst (i + 1) pairs
    rw [sizeOfFirst_succ hpair]
    exact Nat.le_add_right _ _

theorem getElem?_place {pairs : List (NativeInstruction × Opcode)} {position i : Nat} {p : Placed}
    (h : (place position pairs)[i]? = some p) : pairs[i]? = some (p.insn, p.form) ∧
      p.start = position + sizeOfFirst i pairs ∧
      p.stop = position + sizeOfFirst (i + 1) pairs := by
  induction pairs generalizing position i with
  | nil => cases h
  | cons pair rest ih =>
    cases i with
    | zero =>
      cases h
      refine ⟨rfl, rfl, ?_⟩
      rw [sizeOfFirst_succ (List.getElem?_cons_zero), sizeOfFirst, Nat.zero_add]
    | succ i =>
      obtain ⟨hpair, hstart, hstop⟩ := ih h
      refine ⟨hpair, ?_, ?_⟩
      · rw [hstart, sizeOfFirst, Nat.add_assoc]
      · rw [hstop, sizeOfFirst, Nat.add_assoc]

theorem boundaries_place (pairs : List (NativeInstruction × Opcode)) :
    Boundaries (place 0 pairs) fun i => sizeOfFirst i pairs + (i - pairs.length) where
  start i p hp := by
    obtain ⟨hpair, hstart, -⟩ := getElem?_place hp
    have hlt := (List.getElem?_eq_some_iff.1 hpair).1
    omega
  stop i p hp := by
    obtain ⟨hpair, -, hstop⟩ := getElem?_place hp
    have hlt := (List.getElem?_eq_some_iff.1 hpair).1
    omega
  size := by
    rw [codeSize, List.getLast?_eq_getElem?, length_place, Nat.sub_self, Nat.add_zero]
    -- the code ends with its last instruction, and an empty one at zero
    cases hlast : (place 0 pairs)[pairs.length - 1]? with
    | none =>
      rw [List.getElem?_eq_none_iff, length_place] at hlast
      obtain rfl : pairs = [] := List.length_eq_zero_iff.1 (by omega)
      rfl
    | some p =>
      obtain ⟨hpair, -, hstop⟩ := getElem?_place hlast
      have hlt := (List.getElem?_eq_some_iff.1 hpair).1
      rw [Option.map_some, Option.getD_some, hstop, Nat.sub_add_cancel (by omega), Nat.zero_add]
  strictMono := by
    refine strictMono_nat_of_lt_succ fun i => ?_
    -- behind the last instruction the places go on by one, to be increasing there too
    cases hpair : pairs[i]? with
    | none =>
      have hle := List.getElem?_eq_none_iff.1 hpair
      have hsame := sizeOfFirst_of_le hle
      omega
    | some pair =>
      have hlt := (List.getElem?_eq_some_iff.1 hpair).1
      have hpos := pair.1.sizeAs_pos pair.2
      have hsucc := sizeOfFirst_succ hpair
      omega

theorem exists_boundaries (stream : List NativeInstruction) :
    ∃ f, Boundaries (settle stream) f := by
  obtain ⟨settled, hsettle, -⟩ := settle_settled stream
  exact ⟨_, hsettle ▸ boundaries_place settled⟩

/-! ### Markers by place -/

/-- The markers of a stream, each with the place of its instruction, counted from `place` on. -/
def eventsFrom (place : Nat) : List NativeInstruction → List (Nat × Marker)
  | [] => []
  | i :: rest => i.markers.map (place, ·) ++ eventsFrom (place + 1) rest

theorem eventsFrom_append (place : Nat) (stream more : List NativeInstruction) :
    eventsFrom place (stream ++ more) =
      eventsFrom place stream ++ eventsFrom (place + stream.length) more := by
  induction stream generalizing place with
  | nil => rfl
  | cons i rest ih =>
    rw [List.cons_append, eventsFrom, ih, eventsFrom, List.append_assoc, List.length_cons,
      Nat.add_right_comm, ← Nat.add_assoc]

/-- Where a stream stands does not matter to its markers. -/
theorem eventsFrom_add (d place : Nat) (stream : List NativeInstruction) :
    eventsFrom (d + place) stream = (eventsFrom place stream).map (Prod.map (d + ·) id) := by
  induction stream generalizing place with
  | nil => rfl
  | cons i rest ih =>
    rw [eventsFrom, eventsFrom, Nat.add_assoc, ih, List.map_append, List.map_map]
    rfl

theorem eventsFrom_of_unmarked {stream : List NativeInstruction} (h : ∀ i ∈ stream, i.markers = [])
    (place : Nat) : eventsFrom place stream = [] := by
  induction stream generalizing place with
  | nil => rfl
  | cons i rest ih =>
    obtain ⟨hi, hrest⟩ := List.forall_mem_cons.1 h
    rw [eventsFrom, hi, ih hrest]
    rfl

/-- Only the markers of instructions matter. -/
theorem eventsFrom_map {f : NativeInstruction → NativeInstruction}
    (h : ∀ i, (f i).markers = i.markers) (place : Nat) (stream : List NativeInstruction) :
    eventsFrom place (stream.map f) = eventsFrom place stream := by
  induction stream generalizing place with
  | nil => rfl
  | cons i rest ih => rw [List.map_cons, eventsFrom, h, ih, eventsFrom]

theorem lt_of_mem_eventsFrom {place : Nat} {stream : List NativeInstruction} {e : Nat × Marker}
    (h : e ∈ eventsFrom place stream) : e.1 < place + stream.length := by
  induction stream generalizing place with
  | nil => cases h
  | cons i rest ih =>
    rcases List.mem_append.1 h with h | h
    · obtain ⟨m, -, rfl⟩ := List.mem_map.1 h
      simp only [List.length_cons]
      omega
    · have := ih h
      rw [List.length_cons]
      omega

theorem map_snd_eventsFrom (place : Nat) (stream : List NativeInstruction) :
    (eventsFrom place stream).map (·.2) = stream.flatMap (·.markers) := by
  induction stream generalizing place with
  | nil => rfl
  | cons i rest ih =>
    rw [eventsFrom, List.map_append, List.map_map, ih, List.flatMap_cons]
    exact congrArg (· ++ _) (List.map_id _)

/-- The markers of a layout stand at the boundaries in front of their instructions. -/
theorem markerEvents_of_starts {placed : List Placed} {f : Nat → Nat} {place : Nat}
    (h : ∀ i p, placed[i]? = some p → p.start = f (place + i)) :
    markerEvents (placed.map fun p => (p.start, p.insn.markers)) =
      (eventsFrom place (placed.map (·.insn))).map (Prod.map f id) := by
  induction placed generalizing place with
  | nil => rfl
  | cons p rest ih =>
    have hstarts (i : Nat) (p : Placed) (hp : rest[i]? = some p) : p.start = f (place + 1 + i) := by
      rw [h (i + 1) p hp, Nat.add_right_comm, ← Nat.add_assoc]
    have hrest := ih hstarts
    rw [markerEvents] at hrest
    rw [List.map_cons, markerEvents, List.flatMap_cons, hrest, List.map_cons, eventsFrom,
      List.map_append, List.map_map, h 0 p rfl]
    rfl

theorem Boundaries.markerEvents_eq {stream : List NativeInstruction} {f : Nat → Nat}
    (hf : Boundaries (settle stream) f) :
    markerEvents ((settle stream).map fun p => (p.start, p.insn.markers)) =
      (eventsFrom 0 stream).map (Prod.map f id) := by
  have hstarts (i : Nat) (p : Placed) (hp : (settle stream)[i]? = some p) :
      p.start = f (0 + i) := by
    rw [Nat.zero_add]
    exact hf.start i p hp
  rw [markerEvents_of_starts hstarts, map_insn_settle]

/-! ### What clauses cover -/

/-- The instruction lies in the bytes from `first` up to `stop`. -/
def Placed.Inside (p : Placed) (first stop : Nat) : Prop := first ≤ p.start ∧ p.stop ≤ stop

/-- The instruction has no byte among those from `first` up to `stop`. -/
def Placed.Outside (p : Placed) (first stop : Nat) : Prop := p.stop ≤ first ∨ stop ≤ p.start

/-- Two clauses of one kind over the same instructions: those of `placed`, which stand in `placed'`
behind `d` others.  The second clause cuts no instruction and covers none of the others. -/
structure Clause.CoversAlike (placed placed' : List Placed) (d : Nat) (c c' : Clause) : Prop where
  kind : c'.kind = c.kind
  tryBlock : ∀ i p p', placed[i]? = some p → placed'[d + i]? = some p' →
    (p'.Inside c'.tryOffset.toNat c'.tryEnd ↔ p.Inside c.tryOffset.toNat c.tryEnd)
  handler : ∀ i p p', placed[i]? = some p → placed'[d + i]? = some p' →
    (p'.Inside c'.handlerOffset.toNat c'.handlerEnd ↔ p.Inside c.handlerOffset.toNat c.handlerEnd)
  uncut : ∀ p' ∈ placed',
    (p'.Inside c'.tryOffset.toNat c'.tryEnd ∨ p'.Outside c'.tryOffset.toNat c'.tryEnd) ∧
    (p'.Inside c'.handlerOffset.toNat c'.handlerEnd ∨
      p'.Outside c'.handlerOffset.toNat c'.handlerEnd)
  apart : ∀ i p', placed'[i]? = some p' → i < d ∨ d + placed.length ≤ i →
    p'.Outside c'.tryOffset.toNat c'.tryEnd ∧ p'.Outside c'.handlerOffset.toNat c'.handlerEnd

theorem clampedEnd_ofNat {a b : Nat} (ha : a < 0xffffffff) (hb : b < 0xffffffff) :
    Clause.clampedEnd (UInt32.ofNat a) (UInt32.ofNat (b - a)) = max a b := by
  have ha' : (UInt32.ofNat a).toNat = a := UInt32.toNat_ofNat_of_lt' (by show _ < 2 ^ 32; omega)
  have hb' : (UInt32.ofNat (b - a)).toNat = b - a :=
    UInt32.toNat_ofNat_of_lt' (by show _ < 2 ^ 32; omega)
  rw [Clause.clampedEnd, ha', hb']
  omega

section

variable {placed : List Placed} {f : Nat → Nat} {i a b : Nat} {p : Placed}

/-- An instruction lies between two boundaries if its place does. -/
theorem Boundaries.inside_iff (hf : Boundaries placed f) (hp : placed[i]? = some p) :
    p.Inside (f a) (max (f a) (f b)) ↔ a ≤ i ∧ i < b := by
  rw [Placed.Inside, hf.start i p hp, hf.stop i p hp, le_max_iff, hf.strictMono.le_iff_le,
    hf.strictMono.le_iff_le, hf.strictMono.le_iff_le]
  omega

theorem Boundaries.outside_iff (hf : Boundaries placed f) (hp : placed[i]? = some p) :
    p.Outside (f a) (max (f a) (f b)) ↔ i < a ∨ b ≤ i := by
  rw [Placed.Outside, hf.start i p hp, hf.stop i p hp, max_le_iff, hf.strictMono.le_iff_le,
    hf.strictMono.le_iff_le, hf.strictMono.le_iff_le]
  omega

theorem Boundaries.le_size (hf : Boundaries placed f) (hi : i ≤ placed.length) :
    f i ≤ codeSize placed := by
  rw [hf.size, hf.strictMono.le_iff_le]
  exact hi

end

/-- **Clauses over the same places cover the same instructions.** -/
theorem Clause.SamePlaces.coversAlike {placed placed' : List Placed} {f f' : Nat → Nat} {d : Nat}
    {c c' : Clause} (hf : Boundaries placed f) (hf' : Boundaries placed' f')
    (hd : d + placed.length ≤ placed'.length) (hsize : codeSize placed < 0xffffffff)
    (hsize' : codeSize placed' < 0xffffffff)
    (h : c.SamePlaces placed.length f (fun i => f' (d + i)) c') :
    c.CoversAlike placed placed' d c' := by
  obtain ⟨kind, tryStart, tryEnd, start, stop, htryStart, htryEnd, hstart, hstop, rfl, rfl⟩ := h
  -- all offsets fit a word, so the row of the clause holds them as they are
  have hsmall {i : Nat} (hi : i ≤ placed.length) : f i < 0xffffffff :=
    Nat.lt_of_le_of_lt (hf.le_size hi) hsize
  have hsmall' {i : Nat} (hi : i ≤ placed.length) : f' (d + i) < 0xffffffff :=
    Nat.lt_of_le_of_lt (hf'.le_size (by omega)) hsize'
  have hword {n : Nat} (hn : n < 0xffffffff) : (UInt32.ofNat n).toNat = n :=
    UInt32.toNat_ofNat_of_lt' (by show _ < 2 ^ 32; omega)
  simp only [CodeRegion.row]
  refine ⟨rfl, ?_, ?_, ?_, ?_⟩ <;>
    simp only [Clause.tryEnd, Clause.handlerEnd,
      clampedEnd_ofNat (hsmall htryStart) (hsmall htryEnd),
      clampedEnd_ofNat (hsmall hstart) (hsmall hstop),
      clampedEnd_ofNat (hsmall' htryStart) (hsmall' htryEnd),
      clampedEnd_ofNat (hsmall' hstart) (hsmall' hstop), hword (hsmall htryStart),
      hword (hsmall hstart), hword (hsmall' htryStart), hword (hsmall' hstart)]
  · intro i p p' hp hp'
    rw [hf.inside_iff hp, hf'.inside_iff hp']
    omega
  · intro i p p' hp hp'
    rw [hf.inside_iff hp, hf'.inside_iff hp']
    omega
  · intro p' hp'
    obtain ⟨i, hi⟩ := List.mem_iff_getElem?.1 hp'
    rw [hf'.inside_iff hi, hf'.outside_iff hi, hf'.inside_iff hi, hf'.outside_iff hi]
    omega
  · intro i p' hp' hi
    rw [hf'.outside_iff hp', hf'.outside_iff hp']
    omega

end MethodWeave
