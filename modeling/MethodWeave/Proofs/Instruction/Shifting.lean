import MethodWeave.Proofs.Alike
import MethodWeave.Proofs.Instruction.Decoding
import MethodWeave.Proofs.Instruction.Lowering
/-!
Two runs that begin at different label numbers.

If one run begins with its label supply `k` further on than another, all the labels that it hands
out have numbers that are higher by `k`.  Native labels are numbered by their own generator and do
not notice.  Main results: reading a body with a shifted supply gives shifted instructions
(`runsMatch_instructions`), and so does lifting a native stream (`ofNative_matches`); shifted
instructions are lowered to the same native stream (`runsMatch_lowerAll`).  In each case the second
run fails as the first one does.
-/

namespace MethodWeave

/-! ### Shifted instructions -/

namespace Label

/-- The label with its number raised by `k`. -/
def shifted (k : Nat) (l : Label) : Label := { l with id := l.id + k }

variable {k : Nat} {l l' : Label} {ls : List Label}

@[simp] theorem id_shifted : (l.shifted k).id = l.id + k := rfl

@[simp] theorem fixed?_shifted : (l.shifted k).fixed? = l.fixed? := rfl

theorem shifted_inj : l.shifted k = l'.shifted k ↔ l = l' := by
  obtain ⟨id, fixed?⟩ := l
  obtain ⟨id', fixed?'⟩ := l'
  simp [shifted]

theorem insertInto_shifted :
    (l.shifted k).insertInto (ls.map (shifted k)) = (l.insertInto ls).map (shifted k) := by
  induction ls with
  | nil => rfl
  | cons a rest ih =>
    simp only [List.map_cons, insertInto, shifted_inj, id_shifted, Nat.add_le_add_iff_right, ih]
    split
    · rfl
    · split <;> rfl

theorem setOf_shifted : setOf (ls.map (shifted k)) = (setOf ls).map (shifted k) := by
  -- the set is folded up, so this is about any labels to begin with
  have hfold (acc : List Label) :
      (ls.map (shifted k)).foldl (fun acc l => l.insertInto acc) (acc.map (shifted k)) =
        (ls.foldl (fun acc l => l.insertInto acc) acc).map (shifted k) := by
    induction ls generalizing acc with
    | nil => rfl
    | cons a rest ih => rw [List.map_cons, List.foldl_cons, insertInto_shifted, ih, List.foldl_cons]
  exact hfold []

end Label

namespace Payload

/-- Payloads whose labels differ by the shift. -/
abbrev Shifted (k : Nat) : Payload Label → Payload Label → Prop :=
  Related fun l l' => l' = l.shifted k

end Payload

namespace Operand

/-- The operand with shifted labels. -/
def shifted (k : Nat) : Operand → Operand
  | .branchTarget target? => .branchTarget (target?.map (Label.shifted k))
  | .switch targets => .switch (targets.map (Label.shifted k))
  | operand => operand

variable {k : Nat}

@[simp] theorem shifted_emptyFor (i : Opcode.Info) : (emptyFor i).shifted k = emptyFor i := by
  unfold emptyFor
  split
  case h_15 | h_16 => split <;> rfl
  all_goals rfl

/-- The shifted operand holds the shifted payload. -/
theorem payload?_shifted (operand : Operand) :
    Option.Rel (Payload.Shifted k) operand.payload? (operand.shifted k).payload? := by
  cases operand with
  | branchTarget target? =>
    cases target? with
    | none => exact .none
    | some l => exact .some (.label rfl)
  | switch targets => exact .some (.labels (forall₂_eq_map_iff.2 rfl))
  | string value? => cases value? <;> constructor; constructor
  | member kind value? => cases value? <;> constructor; constructor
  | signature value? => cases value? <;> constructor; constructor
  | «local» slot? => cases slot? <;> constructor; constructor
  | _ => constructor; constructor

/-- A shifted payload is stored as the payload is. -/
theorem store_shifted (operand : Operand) {p p' : Payload Label} (h : p.Shifted k p') :
    (operand.shifted k).store p' = (operand.store p).map (shifted k) := by
  cases h with
  | label h =>
    subst h
    cases operand <;> rfl
  | labels h =>
    rw [forall₂_eq_map_iff.1 h]
    cases operand <;> rfl
  | member m =>
    cases operand with
    | member kind value? =>
      simp only [shifted, store]
      split <;> rfl
    | _ => rfl
  | _ => cases operand <;> rfl

theorem filled_shifted (i : Opcode.Info) {p p' : Payload Label} (h : p.Shifted k p') :
    filled i p' = (filled i p).shifted k := by
  have hstore := (emptyFor i).store_shifted h
  rw [shifted_emptyFor] at hstore
  rw [filled, filled, hstore]
  cases (emptyFor i).store p with
  | none => exact (shifted_emptyFor i).symm
  | some stored => rfl

end Operand

/-- The instruction with shifted labels. -/
def Instruction.shifted (k : Nat) (i : Instruction) : Instruction :=
  { i with operand := i.operand.shifted k, labels := i.labels.map (Label.shifted k) }

/-! ### Lowering -/

section

variable {k : Nat}

/-- The second pass has the same generator, and resolves shifted labels as the first one does the
labels. -/
structure Lowering.Shifted (k : Nat) (s s' : Lowering) : Prop where
  generator : s'.generator = s.generator
  targets : ∀ id, s'.targets.get? (id + k) = s.targets.get? id

theorem Lowering.stepsAlike_resolve {l l' : Label} (hl : l' = l.shifted k) :
    StepsAlike (Lowering.Shifted k) (· = ·) (Lowering.resolve l) (Lowering.resolve l') := by
  subst hl
  intro s s' hs
  cases hf : l.fixed? with
  | some target =>
    rw [resolve_fixed hf, resolve_fixed (l := l.shifted k) hf]
    exact ⟨rfl, hs⟩
  | none =>
    cases hget : s.targets.get? l.id with
    | some target =>
      rw [resolve_of_get? hf hget, resolve_of_get? (l := l.shifted k) hf ((hs.targets l.id).trans hget)]
      exact ⟨rfl, hs⟩
    | none =>
      simp only [resolve, Label.fixed?_shifted, Label.id_shifted, hf, hget, hs.targets, defineLabel,
        Generator.defineLabel, hs.generator]
      refine ⟨trivial, rfl, fun id => ?_⟩
      simp only [KeyMap.get?_insert, Nat.add_right_cancel_iff, hs.targets]

theorem Instruction.runsMatch_lower {i i' : Instruction} (hi : i' = i.shifted k) :
    RunsMatch (Lowering.Shifted k) (· = ·) i.lower i'.lower := by
  subst hi
  have hpayload := i.operand.payload?_shifted (k := k)
  unfold lower
  simp only [shifted]
  generalize i.operand.payload? = p?, (i.operand.shifted k).payload? = p?' at hpayload
  cases hpayload with
  | none => exact .of_throw _
  | some hp =>
    refine .bind (.of_steps (.mapTargets (fun _ _ h => Lowering.stepsAlike_resolve h) hp)) ?_
    intro operand operand' hoperand
    obtain rfl := hoperand.eq
    refine .bind (.of_steps (.mapM (fun _ _ h => Lowering.stepsAlike_resolve h)
      (forall₂_eq_map_iff.2 rfl))) ?_
    intro labels labels' hlabels
    rw [List.forall₂_eq_eq_eq] at hlabels
    rw [hlabels]
    exact .of_pure rfl

/-- **Shifted instructions are lowered alike**, and fail alike. -/
theorem Instruction.runsMatch_lowerAll (code : List Instruction) :
    RunsMatch (Lowering.Shifted k) (· = ·) (lowerAll code) (lowerAll (code.map (shifted k))) := by
  have hall : RunsMatch (Lowering.Shifted k) (List.Forall₂ (· = ·)) (lowerAll code)
      (lowerAll (code.map (shifted k))) :=
    .mapM (fun _ _ h => runsMatch_lower h) (forall₂_eq_map_iff.2 rfl)
  rw [List.forall₂_eq_eq_eq] at hall
  exact hall

theorem Instruction.runsAlike_lowerAll (code : List Instruction) :
    RunsAlike (Lowering.Shifted k) (· = ·) (lowerAll code) (lowerAll (code.map (shifted k))) :=
  (runsMatch_lowerAll code).alike

/-! ### Lifting -/

/-- The second supply is `k` further on, and the second table has shifted labels under the same
keys. -/
structure LabelsShifted (k : Nat) (supply supply' : LabelSupply) (labels labels' : KeyMap Label) :
    Prop where
  supply : supply'.next = supply.next + k
  labels : ∀ key, labels'.get? key = (labels.get? key).map (Label.shifted k)

theorem LabelsShifted.empty {supply supply' : LabelSupply} (h : supply'.next = supply.next + k) :
    LabelsShifted k supply supply' {} {} :=
  ⟨h, fun _ => rfl⟩

/-- Under a key both tables have a label, the second one a shifted one, or neither has. -/
theorem LabelsShifted.lookup {supply supply' : LabelSupply} {labels labels' : KeyMap Label}
    (h : LabelsShifted k supply supply' labels labels') (key : Nat) :
    (∃ l, labels.get? key = some l ∧ labels'.get? key = some (l.shifted k)) ∨
      labels.get? key = none ∧ labels'.get? key = none := by
  rw [h.labels]
  cases labels.get? key with
  | some l => exact Or.inl ⟨l, rfl, rfl⟩
  | none => exact Or.inr ⟨rfl, rfl⟩

/-- A new label from each supply goes under the same key. -/
theorem LabelsShifted.insert {supply supply' : LabelSupply} {labels labels' : KeyMap Label}
    (h : LabelsShifted k supply supply' labels labels') (key : Nat) (fixed? : Option NativeLabel) :
    LabelsShifted k ⟨supply.next + 1⟩ ⟨supply'.next + 1⟩
      (labels.insert key ⟨supply.next, fixed?⟩) (labels'.insert key ⟨supply'.next, fixed?⟩) where
  supply := by
    rw [h.supply]
    exact Nat.add_right_comm _ _ _
  labels := by
    intro other
    rw [KeyMap.get?_insert, KeyMap.get?_insert, h.labels, h.supply]
    split <;> rfl

/-- The second pass has given out shifted labels for the same native ones. -/
abbrev Lifting.Shifted (k : Nat) (s s' : Lifting) : Prop :=
  LabelsShifted k s.supply s'.supply s.labels s'.labels

theorem Lifting.stepsAlike_label {target target' : NativeLabel} (h : target = target') :
    StepsAlike (Lifting.Shifted k) (fun l l' => l' = l.shifted k) (Lifting.label target)
      (Lifting.label target') := by
  subst h
  intro s s' hs
  obtain ⟨l, hget, hget'⟩ | ⟨hget, hget'⟩ := hs.lookup target.number
  · simp only [label, hget, hget']
    exact ⟨trivial, hs⟩
  · simp only [label, hget, hget', LabelSupply.fixed]
    exact ⟨by simp only [Label.shifted, hs.supply], hs.insert target.number (some target)⟩

theorem Instruction.stepsAlike_loadNative (info : Opcode.Info) (payload : Payload NativeLabel) :
    StepsAlike (Lifting.Shifted k) (fun o o' => o' = o.shifted k)
      (loadNative (.emptyFor info) payload) (loadNative (.emptyFor info) payload) := by
  unfold loadNative
  split
  · refine .bind (.mapTargets (fun _ _ h => Lifting.stepsAlike_label h) (.refl payload)) ?_
    exact fun p p' hp => .of_pure (Operand.filled_shifted info hp)
  · exact .of_pure (Operand.shifted_emptyFor info).symm

theorem Instruction.runsMatch_lift {n n' : NativeInstruction} (hn : n = n') :
    RunsMatch (Lifting.Shifted k) (fun i i' => i' = i.shifted k) (lift n) (lift n') := by
  subst hn
  -- the operand of a new instruction has no labels that could differ
  refine .bind (.of_except (R := fun i i' => i' = i ∧ ∃ info, i.operand = .emptyFor info) ?_) ?_
  · unfold ofOpcode
    split
    · next info _ => exact .ok ⟨rfl, info, rfl⟩
    · exact .error _
  rintro i _ ⟨rfl, info, hinfo⟩
  rw [hinfo]
  refine .bind (.of_steps (stepsAlike_loadNative info n.operand)) ?_
  rintro operand _ rfl
  refine .bind (.of_steps (.mapM (fun _ _ h => Lifting.stepsAlike_label h)
    (List.forall₂_same.2 fun _ _ => rfl))) ?_
  intro labels labels' hlabels
  rw [forall₂_eq_map_iff.1 hlabels, Label.setOf_shifted]
  exact .of_pure rfl

/-- **Lifting with a shifted supply gives shifted instructions**, and fails alike. -/
theorem Instruction.ofNative_matches (stream : List NativeInstruction)
    {supply supply' : LabelSupply} (hsupply : supply'.next = supply.next + k) :
    Matches (fun code code' => code' = code.map (shifted k)) (ofNative stream supply).1
        (ofNative stream supply').1 ∧
      (ofNative stream supply').2.next = (ofNative stream supply).2.next + k := by
  have hall : RunsMatch (Lifting.Shifted k) (List.Forall₂ fun i i' => i' = i.shifted k)
      (liftAll stream) (liftAll stream) :=
    .mapM (fun _ _ h => runsMatch_lift h) (List.forall₂_same.2 fun _ _ => rfl)
  obtain ⟨hcode, hs⟩ := hall { supply := supply } { supply := supply' } (.empty hsupply)
  exact ⟨hcode.imp fun _ _ => forall₂_eq_map_iff.1, hs.supply⟩

theorem Instruction.ofNative_shifted {stream : List NativeInstruction}
    {supply supply₁ supply' : LabelSupply} {code : List Instruction}
    (h : ofNative stream supply = (.ok code, supply₁)) (hsupply : supply'.next = supply.next + k) :
    ∃ supply₁', ofNative stream supply' = (.ok (code.map (shifted k)), supply₁') ∧
      supply₁'.next = supply₁.next + k := by
  obtain ⟨hcode, hnext⟩ := ofNative_matches stream hsupply
  rw [h] at hcode hnext
  generalize ofNative stream supply' = outcome at hcode hnext
  obtain ⟨result, supply₁'⟩ := outcome
  cases hcode with
  | ok hcode => exact ⟨supply₁', by rw [hcode], hnext⟩

/-! ### Reading -/

/-- The second run has given out shifted labels for the same positions. -/
abbrev PositionLabels.Shifted (k : Nat) (s s' : PositionLabels) : Prop :=
  LabelsShifted k s.supply s'.supply s.labels s'.labels

theorem PositionLabels.stepsAlike_label (position : Nat) :
    StepsAlike (PositionLabels.Shifted k) (fun l l' => l' = l.shifted k) (label position)
      (label position) := by
  intro s s' hs
  obtain ⟨l, hget, hget'⟩ | ⟨hget, hget'⟩ := hs.lookup position
  · simp only [label, hget, hget']
    exact ⟨trivial, hs⟩
  · simp only [label, hget, hget', LabelSupply.free]
    exact ⟨by simp only [Label.shifted, hs.supply], hs.insert position none⟩

/-- The second run has given out shifted labels for the same positions, and it has them in the same
order. -/
structure PositionLabels.Moved (k : Nat) (s s' : PositionLabels) : Prop where
  shifted : s.Shifted k s'
  keys : s'.labels.entries.map (·.1) = s.labels.entries.map (·.1)

/-- Where a new key goes depends on the keys. -/
theorem KeyMap.keys_insertEntry {α : Type} (key : Nat) (a b : α) {entries entries' : List (Nat × α)}
    (h : entries'.map (·.1) = entries.map (·.1)) :
    (insertEntry key b entries').map (·.1) = (insertEntry key a entries).map (·.1) := by
  induction entries generalizing entries' with
  | nil =>
    obtain rfl := List.map_eq_nil_iff.1 h
    rfl
  | cons e rest ih =>
    obtain ⟨⟨k', v'⟩, rest', rfl, rfl, hrest⟩ := List.map_eq_cons_iff.1 h
    have hrest' := ih hrest
    simp only [insertEntry]
    split
    · simp [hrest]
    · split <;> simp [hrest, hrest']

theorem PositionLabels.Moved.label {s s' : PositionLabels} (h : s.Moved k s') (position : Nat) :
    (s.label position).2.Moved k (s'.label position).2 where
  shifted := (stepsAlike_label position s s' h.shifted).2
  keys := by
    obtain ⟨l, hget, hget'⟩ | ⟨hget, hget'⟩ := h.shifted.lookup position
    · simp only [PositionLabels.label, hget, hget']
      exact h.keys
    · simp only [PositionLabels.label, hget, hget']
      exact KeyMap.keys_insertEntry _ _ _ h.keys

theorem PositionLabels.runsMatch_target {t t' : Int} (h : t = t') :
    RunsMatch (PositionLabels.Moved k) (fun l l' => l' = l.shifted k) (target t) (target t') := by
  subst h
  unfold target
  split
  · exact .of_steps fun s s' hs => ⟨(stepsAlike_label t.toNat s s' hs.shifted).1, hs.label t.toNat⟩
  · exact .of_throw _

theorem Scanned.runsMatch_labelled {s s' : Scanned} (h : s = s') :
    RunsMatch (PositionLabels.Moved k) (fun i i' => i' = i.shifted k) s.labelled s'.labelled := by
  subst h
  refine .bind (.mapTargets (fun _ _ h => PositionLabels.runsMatch_target h) (.refl s.payload)) ?_
  intro p p' hp
  refine .of_pure ?_
  simp only [Instruction.shifted, List.map_nil]
  congr 1
  exact Operand.filled_shifted s.info hp

theorem Instruction.attach_shifted {labels labels' : KeyMap Label} {markers : List PlacedMarker}
    (h : ∀ key, labels'.get? key = (labels.get? key).map (Label.shifted k)) (i : Instruction) :
    (i.shifted k).attach labels' markers = (i.attach labels markers).shifted k := by
  cases ho : i.offset? with
  | none => simp only [attach, shifted, ho]
  | some offset =>
    simp only [attach, shifted, ho, h]
    cases labels.get? offset <;> rfl

/-- Which label is the first to stand nowhere depends on the positions of the labels. -/
theorem firstUnattached?_congr (offsets : List Nat) {labels labels' : KeyMap Label}
    (h : labels'.entries.map (·.1) = labels.entries.map (·.1)) :
    firstUnattached? offsets labels' = firstUnattached? offsets labels := by
  have hkeys (labels : KeyMap Label) : firstUnattached? offsets labels =
      (labels.entries.map (·.1)).find? fun position => !offsets.contains position := by
    rw [firstUnattached?, List.find?_map]
    rfl
  rw [hkeys, hkeys, h]

/-- **Reading with a shifted supply gives shifted instructions**, and fails alike. -/
theorem Body.runsMatch_instructions {μ : Type} [Metadata μ] (metadata : μ) (body : Body) :
    RunsMatch (PositionLabels.Moved k) (fun out out' => out' = out.map (Instruction.shifted k))
      (body.instructions metadata) (body.instructions metadata) := by
  unfold Body.instructions
  generalize body.scan metadata = scan
  obtain ⟨scanned, failure⟩ := scan
  refine .bind (.mapM (fun _ _ h => Scanned.runsMatch_labelled h)
    (List.forall₂_same.2 fun _ _ => rfl)) fun is is' his => ?_
  obtain rfl := forall₂_eq_map_iff.1 his
  cases failure with
  | some e => exact .of_throw e
  | none =>
    refine .bind .of_get fun s s' hs => ?_
    simp only [firstUnattached?_congr _ hs.keys]
    split
    · exact .of_throw _
    · split
      · exact .of_throw _
      · refine .of_pure ?_
        rw [List.map_map, List.map_map]
        exact List.map_congr_left fun i _ => Instruction.attach_shifted hs.shifted.labels i

theorem Body.decode_matches {μ : Type} [Metadata μ] (metadata : μ) (body : Body)
    {supply supply' : LabelSupply} (hsupply : supply'.next = supply.next + k) :
    Matches (fun out out' => out' = out.map (Instruction.shifted k)) (body.decode metadata supply).1
        (body.decode metadata supply').1 ∧
      (body.decode metadata supply').2.supply.next =
        (body.decode metadata supply).2.supply.next + k := by
  obtain ⟨hout, hs⟩ := body.runsMatch_instructions metadata { supply := supply }
    { supply := supply' } ⟨.empty hsupply, rfl⟩
  exact ⟨hout, hs.shifted.supply⟩

theorem Body.decode_shifted {μ : Type} [Metadata μ] {metadata : μ} {body : Body}
    {supply supply' : LabelSupply} {out : List Instruction} {labels : PositionLabels}
    (h : body.decode metadata supply = (.ok out, labels))
    (hsupply : supply'.next = supply.next + k) :
    ∃ labels', body.decode metadata supply' = (.ok (out.map (Instruction.shifted k)), labels') ∧
      labels'.supply.next = labels.supply.next + k := by
  obtain ⟨hout, hnext⟩ := body.decode_matches metadata hsupply
  rw [h] at hout hnext
  generalize body.decode metadata supply' = outcome at hout hnext
  obtain ⟨result, labels'⟩ := outcome
  cases hout with
  | ok hout => exact ⟨labels', by rw [hout], hnext⟩

end

end MethodWeave
