import MethodWeave.Patch.Edit
import MethodWeave.Proofs.Instruction.Lowering
import MethodWeave.Proofs.Instruction.Decoding
import MethodWeave.Proofs.Native.Refusals
/-!
Opcodes and operands agree.

The row of an opcode asks for an operand of one kind.  Instructions come from opcodes, from native
instructions and from bodies, and are changed afterwards; whatever is tried on one of them, its
operand stays of the kind that its opcode asks for and holds only a member that it takes
(`Instruction.Agrees`).  `Agrees` is shown of each origin and kept by each change, and is what the
checks of the encoder ask for, in whichever form a branch is written.

Main result: `agrees_changed`.
-/

namespace MethodWeave

/-! ### Operands of the kind that is asked for -/

namespace Operand

/-- The operand with nothing in it. -/
def emptied : Operand → Operand
  | .none => .none
  | .branchTarget _ => .branchTarget Option.none
  | .int32 _ => .int32 0
  | .int64 _ => .int64 0
  | .float32 _ => .float32 ⟨0⟩
  | .float64 _ => .float64 ⟨0⟩
  | .string _ => .string Option.none
  | .member kind _ => .member kind Option.none
  | .signature _ => .signature Option.none
  | .local _ => .local Option.none
  | .argument _ => .argument 0
  | .switch _ => .switch []

/-- The operand is of the kind that the row asks for, and takes the member that it holds. -/
structure Fits (info : Opcode.Info) (operand : Operand) : Prop where
  kind : operand.emptied = emptyFor info
  takes : ∀ kind m, operand = .member kind (some m) → kind.accepts m = true

variable {info : Opcode.Info} {operand stored source target : Operand}

@[simp] theorem emptied_emptyFor (info : Opcode.Info) : (emptyFor info).emptied = emptyFor info := by
  unfold emptyFor
  cases info.operand
  case shortVar | var => cases info.has .local <;> rfl
  all_goals rfl

theorem fits_emptyFor (info : Opcode.Info) : (emptyFor info).Fits info where
  kind := emptied_emptyFor info
  takes kind m h := by
    have hempty := emptied_emptyFor info
    rw [h] at hempty
    cases hempty

/-- What an operand accepts does not depend on what it holds. -/
@[simp] theorem accepts_emptied {τ : Type} (operand : Operand) (p : Payload τ) :
    operand.emptied.accepts p = operand.accepts p := by
  cases operand <;> cases p <;> rfl

theorem emptied_of_store {p : Payload Label} (h : operand.store p = some stored) :
    stored.emptied = operand.emptied := by
  cases operand <;> cases p <;> simp only [store, Option.some.injEq, reduceCtorEq] at h
  case member.member =>
    split at h
    · cases h; rfl
    · cases h
  all_goals subst h; rfl

/-- Storing keeps the kind. -/
theorem Fits.store {p : Payload Label} (hf : operand.Fits info)
    (h : operand.store p = some stored) : stored.Fits info where
  kind := (emptied_of_store h).trans hf.kind
  takes := by
    rintro kind m rfl
    cases operand <;> cases p <;>
      simp only [Operand.store, Option.some.injEq, reduceCtorEq] at h
    case member.member =>
      split at h
      · next haccepts => cases h; exact haccepts
      · cases h

theorem Fits.getD_store (hf : operand.Fits info) (p : Payload Label) :
    ((operand.store p).getD operand).Fits info := by
  cases h : operand.store p with
  | none => exact hf
  | some stored => exact hf.store h

/-- Copying into an operand keeps the kind of that operand. -/
theorem Fits.copyInto (hs : target.Fits info) (h : source.copyInto target = some stored) :
    stored.Fits info := by
  cases source with
  | member kind held =>
    cases target with
    | member kind' held' =>
      cases held with
      | none => cases h; exact hs
      | some m =>
        simp only [Operand.copyInto] at h
        split at h
        · next haccepts =>
          cases h
          exact ⟨hs.kind, fun _ _ heq => by cases heq; exact haccepts⟩
        · cases h
    | _ => cases held <;> cases h
  | _ =>
    cases target <;> cases h
    exact ⟨hs.kind, by simp⟩

/-- The opcode takes what its empty operand accepts. -/
theorem suits_of_accepts {op : Opcode} (hrow : op.info? = some info) {τ : Type} {p : Payload τ}
    (h : (emptyFor info).accepts p = true) : info.suits p = true := by
  have hslot : info.operand = .shortVar ∨ info.operand = .var →
      info.has .argument = !info.has .local := Opcode.has_argument hrow
  unfold emptyFor at h
  unfold Opcode.Info.suits
  cases hclass : info.operand <;> rw [hclass] at h
  case shortVar | var =>
    rw [hclass] at hslot
    cases hl : info.has .local <;> cases p <;> simp_all [accepts]
  case field | method | type | member =>
    cases p with
    | member m => cases m <;> simp_all [accepts, MemberKind.accepts]
    | _ => cases h
  all_goals cases p <;> simp_all [accepts]

/-- What a fitting operand holds suits the opcode. -/
theorem Fits.suits {op : Opcode} (hf : operand.Fits info) (hrow : op.info? = some info)
    {p : Payload Label} (hp : operand.payload? = some p) : info.suits p = true := by
  by_cases hnone : operand = .none
  · -- an operand without contents accepts no payload, and its opcode takes none
    subst hnone
    cases hp
    rw [Opcode.Info.suits_none_iff]
    have hkind : .none = emptyFor info := hf.kind
    unfold emptyFor at hkind
    cases hclass : info.operand with
    | none => rfl
    | shortVar | var =>
      simp only [hclass] at hkind
      split at hkind <;> cases hkind
    | _ => simp only [hclass] at hkind; cases hkind
  · refine suits_of_accepts hrow ?_
    rw [← hf.kind, accepts_emptied]
    cases operand with
    | none => exact absurd rfl hnone
    | member kind held =>
      obtain ⟨m, rfl, rfl⟩ := Option.map_eq_some_iff.1 hp
      exact hf.takes kind m rfl
    | _ =>
      first
        | (cases hp; rfl)
        | (obtain ⟨_, rfl, rfl⟩ := Option.map_eq_some_iff.1 hp; rfl)

end Operand

/-! ### Where instructions come from -/

namespace Instruction

/-- The operand is of the kind that the opcode asks for, and takes the member that it holds. -/
def Agrees (i : Instruction) : Prop :=
  ∃ info, i.opcode.info? = some info ∧ i.operand.Fits info

/-- The instruction is made of an opcode, lifted from a native instruction, or read from a body. -/
inductive Arises (i : Instruction) : Prop
  | made {opcode : Opcode} (h : ofOpcode opcode = .ok i)
  | lifted {native : NativeInstruction} {pass pass' : Lifting}
    (h : (lift native).run pass = (.ok i, pass'))
  | read {μ : Type} [Metadata μ] {metadata : μ} {body : Body} {supply : LabelSupply}
    {labels : PositionLabels} {code : List Instruction}
    (h : body.decode metadata supply = (.ok code, labels)) (hmem : i ∈ code)

theorem agrees_ofOpcode {opcode : Opcode} {i : Instruction} (h : ofOpcode opcode = .ok i) :
    i.Agrees := by
  unfold ofOpcode at h
  cases hrow : opcode.info? with
  | none => rw [hrow] at h; cases h
  | some info =>
    rw [hrow] at h
    cases h
    exact ⟨info, hrow, Operand.fits_emptyFor info⟩

theorem fits_loadNative {info : Opcode.Info} {operand : Operand} (hf : operand.Fits info)
    (payload : Payload NativeLabel) (pass : Lifting) :
    (loadNative operand payload pass).1.Fits info := by
  unfold loadNative
  split
  · exact hf.getD_store _
  · exact hf

theorem agrees_lift {native : NativeInstruction} {i : Instruction} {pass pass' : Lifting}
    (h : (lift native).run pass = (.ok i, pass')) : i.Agrees := by
  simp only [lift, run_bind_eq_ok_iff, run_pure_eq_ok_iff] at h
  obtain ⟨empty, pass₁, hempty, operand, pass₂, hoperand, labels, pass₃, -, rfl, -⟩ := h
  -- the operand is loaded into the empty one of the opcode
  obtain ⟨info, hrow, hf⟩ : empty.Agrees := by
    cases hmade : ofOpcode native.opcode with
    | error e => rw [hmade] at hempty; cases hempty
    | ok made => rw [hmade] at hempty; cases hempty; exact agrees_ofOpcode hmade
  refine ⟨info, hrow, ?_⟩
  have := fits_loadNative hf native.operand pass₁
  rwa [run_lift_eq_ok_iff.1 hoperand] at this

theorem agrees_decode {μ : Type} [Metadata μ] {metadata : μ} {body : Body} {supply : LabelSupply}
    {labels : PositionLabels} {code : List Instruction}
    (h : body.decode metadata supply = (.ok code, labels)) : ∀ i ∈ code, i.Agrees := by
  obtain ⟨ss, is, hss, his, -, -, rfl⟩ := Body.decode_eq_ok_iff.1 h
  obtain ⟨-, hlabelled⟩ :=
    (Scanned.tryStep_labelled fun _ => True).mapM.run (fun _ _ _ _ => trivial) his
  intro j hj
  obtain ⟨i, hi, rfl⟩ := List.mem_map.1 hj
  obtain ⟨s, hs, p, -, rfl⟩ := exists_of_mem_right hlabelled hi
  -- labels and markers are attached to an instruction that agrees already
  exact ⟨s.info, (hss.suits s hs).1, (Operand.fits_emptyFor s.info).getD_store p⟩

theorem Arises.agrees {i : Instruction} (h : i.Arises) : i.Agrees := by
  cases h with
  | made h => exact agrees_ofOpcode h
  | lifted h => exact agrees_lift h
  | read h hmem => exact agrees_decode h i hmem

/-! ### Changes -/

/-- What may be tried on an instruction. -/
inductive Change where
  /-- Store a value in the operand. -/
  | value (v : InlineValue Label)
  /-- Let the operand be a jump to a label. -/
  | target (l : Label)
  /-- Put another opcode in the place of the present one. -/
  | opcode (op : Opcode)
  | label (l : Label)
  | marker (m : Marker)

/-- The instruction with the change made, or why it cannot be made. -/
def change (i : Instruction) : Change → Except InstructionError Instruction
  | .value v => i.setValue v
  | .target l => i.setValue (.label l)
  | .opcode op => i.copyWith op
  | .label l => .ok (i.withLabel l)
  | .marker m => .ok (i.withMarker m)

/-- Try a change: why it was refused, if it was, and the instruction that is there afterwards. -/
def attempt (i : Instruction) (c : Change) : Option InstructionError × Instruction :=
  match i.change c with
  | .ok changed => (none, changed)
  | .error e => (some e, i)

/-- The instruction after changes have been tried one after the other. -/
def changed (i : Instruction) (cs : List Change) : Instruction :=
  cs.foldl (fun i c => (i.attempt c).2) i

theorem Agrees.setValue {i j : Instruction} {v : InlineValue Label} (hi : i.Agrees)
    (h : i.setValue v = .ok j) : j.Agrees := by
  obtain ⟨info, hrow, hf⟩ := hi
  unfold Instruction.setValue at h
  cases hstore : i.operand.store v.payload with
  | none => rw [hstore] at h; cases h
  | some operand =>
    rw [hstore] at h
    cases h
    exact ⟨info, hrow, hf.store hstore⟩

/-- A copy agrees with its own opcode, whatever it was copied from. -/
theorem agrees_copyWith {i j : Instruction} {op : Opcode} (h : i.copyWith op = .ok j) :
    j.Agrees := by
  unfold copyWith at h
  obtain ⟨empty, hempty, h⟩ := bind_eq_ok_iff.1 h
  have hopcode : empty.opcode = op := by
    unfold ofOpcode at hempty
    split at hempty
    · cases hempty; rfl
    · cases hempty
  obtain ⟨info, hrow, hf⟩ := agrees_ofOpcode hempty
  cases hcopy : i.operand.copyInto empty.operand with
  | none => rw [hcopy] at h; cases h
  | some operand =>
    rw [hcopy] at h
    cases h
    exact ⟨info, hopcode ▸ hrow, hf.copyInto hcopy⟩

theorem Agrees.change {i j : Instruction} {c : Change} (hi : i.Agrees) (h : i.change c = .ok j) :
    j.Agrees := by
  cases c with
  | value v => exact hi.setValue h
  | target l => exact hi.setValue h
  | opcode op => exact agrees_copyWith h
  | label l => cases h; exact hi
  | marker m => cases h; exact hi

theorem Agrees.attempt {i : Instruction} (hi : i.Agrees) (c : Change) : (i.attempt c).2.Agrees := by
  unfold Instruction.attempt
  cases h : i.change c with
  | ok j => exact hi.change h
  | error e => exact hi

theorem Agrees.changed {i : Instruction} (hi : i.Agrees) (cs : List Change) :
    (i.changed cs).Agrees := by
  unfold Instruction.changed
  induction cs generalizing i with
  | nil => exact hi
  | cons c cs ih => exact ih (hi.attempt c)

end Instruction

/-! ### Changes in a list of edits -/

namespace Edit

/-- The code is not touched, whatever comes out. -/
def KeepsCode {α : Type} (x : EditM α) : Prop := ∀ s, (x.run s).2.code = s.code

theorem keepsCode_instructionAt (place : Int) : KeepsCode (instructionAt place) := by
  intro s
  have hget : (get : EditM State).run s = (.ok s, s) := rfl
  unfold instructionAt
  rw [run_bind, hget]
  simp only
  cases s.code[position s.code.length place]? <;> rfl

theorem keepsCode_withNames {α : Type}
    (build : ExceptT InstructionError (StateM Script.Scope) α) : KeepsCode (withNames build) := by
  intro s
  unfold withNames
  rw [run_bind, show (get : EditM State).run s = (.ok s, s) from rfl]
  simp only
  obtain ⟨result, names⟩ := build.run s.names
  cases result <;> rfl

/-- A change at a place that fails leaves the code as it was. -/
theorem code_of_changeAt {place : Int} {change : Instruction → EditM Instruction} {s s' : State}
    {e : Failure} (hchange : ∀ i, KeepsCode (change i))
    (h : (changeAt place change).run s = (.error e, s')) : s'.code = s.code := by
  have hfound := keepsCode_instructionAt place s
  unfold changeAt at h
  rw [run_bind] at h
  generalize (instructionAt place).run s = found at h hfound
  obtain ⟨e | ⟨p, i⟩, s₁⟩ := found
  · cases h; exact hfound
  · simp only at h hfound
    have hchanged := hchange i s₁
    rw [run_bind] at h
    generalize (change i).run s₁ = outcome at h hchanged
    obtain ⟨e' | j, s₂⟩ := outcome
    · cases h; exact hchanged.trans hfound
    · -- the instruction that was made is put in its place
      cases h

/-- A value that cannot be set, or an opcode that cannot be put in, leaves the code as it was. -/
theorem code_of_refused {edit : Edit} {place : Int} {value : Script.Value} {opcode : Opcode}
    (hedit : edit = .set place value ∨ edit = .copy place opcode) {s s' : State} {e : Failure}
    (h : (perform edit).run s = (.error e, s')) : s'.code = s.code := by
  rcases hedit with rfl | rfl <;> rw [perform] at h
  · exact code_of_changeAt (fun _ => keepsCode_withNames _) h
  · exact code_of_changeAt (fun _ => keepsCode_withNames _) h

end Edit

/-! ### Encoding what agrees -/

/-- The error says that an opcode is unknown or that an operand does not match its opcode. -/
def EncodeError.isMismatch : EncodeError → Bool
  | .unknownOpcode _ _ | .operandMismatch _ _ => true
  | _ => false

/-- Whatever goes wrong is no mismatch. -/
abbrev NoMismatch {α : Type} (x : Except EncodeError α) : Prop := FailsOnly (·.isMismatch = false) x

/-- A stream whose operands suit their opcodes is encoded, or refused for another reason. -/
theorem noMismatch_encode {μ : Type} [Metadata μ] {stream : List NativeInstruction}
    (h : ∀ n ∈ stream, ∃ info, n.opcode.info? = some info ∧ info.suits n.operand = true)
    (g : Generator) (metadata : μ) : NoMismatch (g.encode stream metadata).1 := by
  refine (blames_encode g stream metadata).imp fun e he => ?_
  cases e with
  | unknownOpcode | operandMismatch => exact absurd h he
  | _ => rfl

namespace Instruction

/-- Lowering gives an operand that suits the opcode. -/
theorem Agrees.suits_of_lowersTo {pass : Lowering} {i : Instruction} {n : NativeInstruction}
    (hi : i.Agrees) (h : LowersTo pass i n) :
    ∃ info, n.opcode.info? = some info ∧ info.suits n.operand = true := by
  obtain ⟨info, hrow, hf⟩ := hi
  obtain ⟨p, hp, hrelated⟩ := h.operand
  exact ⟨info, h.opcode ▸ hrow, (hrelated.suits info).symm.trans (hf.suits hrow hp)⟩

/-- **Opcode and operand always agree.**  However an instruction has come about and whatever has
been tried on it since, its operand is of the kind that its opcode asks for and takes the member
that it holds; and what has been refused has changed nothing, be it on the instruction itself or in
the code that edits work on.  So if such instructions are lowered, the encoder does not find an
unknown opcode or an operand that does not match. -/
theorem agrees_changed :
    (∀ i : Instruction, i.Arises → ∀ cs, (i.changed cs).Agrees) ∧
    (∀ (i : Instruction) c e, (i.attempt c).1 = some e → (i.attempt c).2 = i) ∧
    (∀ edit place value opcode, edit = Edit.set place value ∨ edit = Edit.copy place opcode →
      ∀ s e s', (Edit.perform edit).run s = (.error e, s') → s'.code = s.code) ∧
    ∀ is : List Instruction,
      (∀ i ∈ is, ∃ (origin : Instruction) (cs : List Change), origin.Arises ∧
        i = origin.changed cs) →
      ∀ pass stream pass', (lowerAll is).run pass = (.ok stream, pass') →
        ∀ (μ : Type) (_ : Metadata μ) (metadata : μ) (g : Generator) (e : EncodeError),
          (g.encode stream metadata).1 = .error e → e.isMismatch = false := by
  refine ⟨fun i hi cs => hi.agrees.changed cs, fun i c e h => ?_,
    fun edit place value opcode hedit s e s' => Edit.code_of_refused hedit, ?_⟩
  · unfold attempt at h ⊢
    cases hchange : i.change c with
    | ok j => rw [hchange] at h; cases h
    | error e' => rfl
  · intro is his pass stream pass' hlower μ _ metadata g
    obtain ⟨-, -, hlowers⟩ := lowersTo_of_lowerAll hlower
    refine noMismatch_encode (fun n hn => ?_) g metadata
    obtain ⟨i, hi, hin⟩ := exists_of_mem_right hlowers hn
    obtain ⟨origin, cs, horigin, rfl⟩ := his i hi
    exact (horigin.agrees.changed cs).suits_of_lowersTo hin

/-- A jump without a target, as it is made of its opcode. -/
def madeJump : Instruction := { opcode := Opcode.br, operand := .branchTarget none }

/-- A short jump without a target, as it is lifted from an instruction that has a constant in the
place of the target. -/
def liftedJump : Instruction := { opcode := ⟨0x2b⟩, operand := .branchTarget none }

/-- A short jump to itself, as it is read from a body. -/
def readJump : Instruction :=
  { opcode := ⟨0x2b⟩, operand := .branchTarget (some { id := 0 }), labels := [{ id := 0 }]
    offset? := some 0 }

/-- An opcode and a value that no jump takes, then a label and an opcode that it does. -/
def jumpChanges : List Change :=
  [.opcode Opcode.ldarg, .value (.argument 3), .target { id := 1 }, .opcode ⟨0x2d⟩]

/-- Jumps of each origin agree with their opcodes after the changes, the first of which is refused,
and are lowered and encoded without a mismatch. -/
theorem agrees_changed_jumps :
    (madeJump.Arises ∧ liftedJump.Arises ∧ readJump.Arises) ∧
      (liftedJump.changed jumpChanges).Agrees ∧
      (madeJump.attempt (.opcode Opcode.ldarg)).1 =
        some (.operandMismatch Opcode.ldarg Opcode.br) ∧
      (madeJump.attempt (.opcode Opcode.ldarg)).2 = madeJump ∧
      ∃ stream pass,
        (lowerAll ([madeJump, liftedJump, readJump].map (·.changed jumpChanges))).run {} =
          (.ok stream, pass) ∧
        ∀ e, (pass.generator.encode stream ({} : MetadataTables)).1 = .error e →
          e.isMismatch = false := by
  have hmade : madeJump.Arises := .made (show ofOpcode Opcode.br = .ok madeJump from rfl)
  have hlift : (lift { opcode := ⟨0x2b⟩, operand := .int32 5 }).run {} = (.ok liftedJump, {}) := rfl
  have hlifted : liftedJump.Arises := .lifted hlift
  have hdecode : Body.decode ({} : MetadataTables) { code := [0x2b, 0xfe] } {} =
      (.ok [readJump], { supply := ⟨1⟩, labels := KeyMap.insert {} 0 { id := 0 } }) := rfl
  have hread : readJump.Arises := .read hdecode List.mem_cons_self
  have hrefused : (madeJump.attempt (.opcode Opcode.ldarg)).1 =
      some (.operandMismatch Opcode.ldarg Opcode.br) := rfl
  obtain ⟨hagrees, hunchanged, -, hencode⟩ := agrees_changed
  obtain ⟨stream, pass, hlower⟩ : ∃ stream pass,
      (lowerAll ([madeJump, liftedJump, readJump].map (·.changed jumpChanges))).run {} =
        (.ok stream, pass) := ⟨_, _, rfl⟩
  -- each of the three instructions has arisen in its own way
  refine ⟨⟨hmade, hlifted, hread⟩, hagrees _ hlifted _, hrefused, hunchanged _ _ _ hrefused, stream,
    pass, hlower, fun e => hencode _ ?_ _ _ _ hlower _ _ _ _ e⟩
  rintro i hi
  obtain ⟨origin, horigin, rfl⟩ := List.mem_map.1 hi
  refine ⟨origin, jumpChanges, ?_, rfl⟩
  simp only [List.mem_cons, List.not_mem_nil, or_false] at horigin
  rcases horigin with rfl | rfl | rfl
  · exact hmade
  · exact hlifted
  · exact hread

end Instruction

end MethodWeave
