import MethodWeave.Proofs.Host.Looping
import MethodWeave.Proofs.Instruction.ReadBack
import MethodWeave.Proofs.Instruction.Reencoding
/-!
Programs of native streams.

A program runs a stream when its instructions are those of the stream one by one, up to widened
branches, and its jumps go where the labels of the stream are.  Main results: a body is read as a
program of the stream that it is lowered to, and of any stream that it was encoded from, whatever
label numbers are handed out (`readsAs_of_decode`, `readsAs_of_encode`); and a stream that
stands in another gives programs of which one stands in the other (`embeds_of_runs`).
-/

namespace MethodWeave

open Machine (Program labelPlaces)

/-! ### Opcodes -/

theorem Operation.code_of_ret {code : UInt16} (h : Operation.ofCode? code = some .ret) :
    code.toNat = 0x2a := by
  unfold Operation.ofCode? at h
  split at h
  all_goals first
    | assumption
    | cases h

/-- There is one opcode that returns. -/
theorem Operation.eq_ret {op : Opcode} (h : Operation.ofOpcode? op = some .ret) : op = .ret := by
  have hcode := Operation.code_of_ret h
  cases hlong : op.longForm? with
  | none =>
    rw [Opcode.widened, hlong] at hcode
    exact congrArg Opcode.mk (UInt16.toNat_inj.1 hcode)
  | some long =>
    -- a long form is no return
    have := (Opcode.code_of_longForm? hlong).1
    rw [Opcode.widened, hlong, Option.getD_some] at hcode
    omega

/-- A long form does what its short form does. -/
theorem NativeInstruction.TakesForm.operation {n : NativeInstruction} {form : Opcode}
    (h : n.TakesForm form) : Operation.ofOpcode? form = Operation.ofOpcode? n.opcode := by
  rcases h with rfl | hlong
  · rfl
  · have hwide : form.widened = n.opcode.widened := by
      rw [Opcode.widened, Opcode.widened, hlong, Opcode.longForm?_of_longForm? hlong]
      rfl
    rw [Operation.ofOpcode?, Operation.ofOpcode?, hwide]

/-! ### Places of labels -/

/-- The place of a label that marks one instruction only. -/
theorem lookup_labelPlaces (start : Nat) {out : List Instruction} {index : Nat} {l : Label}
    (h : MarksOnly out l index) : (labelPlaces start out).lookup l = some (start + index) := by
  induction out generalizing start index with
  | nil =>
    obtain ⟨⟨i, hi, -⟩, -⟩ := h
    cases hi
  | cons i rest ih =>
    obtain ⟨⟨marked, hmarked, hl⟩, honly⟩ := h
    rw [labelPlaces, List.lookup_append, lookup_map_const]
    cases index with
    | zero =>
      cases hmarked
      rw [if_pos hl]
      rfl
    | succ index =>
      have hnot : l ∉ i.labels := fun hi => by cases honly 0 i rfl hi
      rw [if_neg hnot, Option.none_or, ih _ ⟨⟨marked, hmarked, hl⟩, fun k j hj hlj => ?_⟩]
      · congr 1
        omega
      · have := honly (k + 1) j hj hlj
        omega

/-! ### Running a stream -/

/-- The native label and the label mark the same place. -/
def MarkSame (stream : List NativeInstruction) (p : Program) (t : NativeLabel) (l : Label) : Prop :=
  ∃ place n, stream[place]? = some n ∧ t ∈ n.labels ∧ p.targets.lookup l = some place

/-- The instruction of a program is what the native one is executed as. -/
structure NativeInstruction.RunsAs (stream : List NativeInstruction) (p : Program)
    (n : NativeInstruction) (i : Instruction) : Prop where
  form : n.TakesForm i.opcode
  operand : ∃ q, i.operand.payload? = some q ∧ Payload.Related (MarkSame stream p) n.operand q

/-- The program runs the stream. -/
def Machine.Program.Runs (p : Program) (stream : List NativeInstruction) : Prop :=
  List.Forall₂ (NativeInstruction.RunsAs stream p) stream p.code.toList

/-- The native label marks the instruction at an offset. -/
def MarksOffset (stream : List NativeInstruction) (ss : List Scanned) (t : NativeLabel) (k : Int) :
    Prop :=
  ∃ (place : Nat) (n : NativeInstruction) (s : Scanned),
    stream[place]? = some n ∧ ss[place]? = some s ∧ t ∈ n.labels ∧ k = s.offset

/-- What is read from a code runs the stream that the code spells. -/
theorem runs_of_readAs {clauses : List Clause} {labels : PositionLabels} {ss : List Scanned}
    {out : List Instruction} {stream : List NativeInstruction} (hlabels : labels.Sound)
    (hoffsets : ss.Pairwise fun a b => a.offset < b.offset)
    (hread : List.Forall₂ (Instruction.ReadAs clauses labels) ss out)
    (hstream : List.Forall₂ (fun (n : NativeInstruction) s => n.TakesForm s.info.opcode ∧
      Payload.Related (MarksOffset stream ss) n.operand s.payload) stream ss) :
    (Program.ofInstructions out).Runs stream := by
  show List.Forall₂ _ stream out.toArray.toList
  refine (forall₂_comp hstream hread).imp ?_
  rintro n i ⟨s, ⟨hform, hoperand⟩, hreadAs⟩
  obtain ⟨q, hq, hnamed⟩ := hreadAs.operand
  refine ⟨by rw [hreadAs.opcode]; exact hform, q, hq, (hoperand.comp hnamed).imp ?_⟩
  rintro t l ⟨_, ⟨place, n', s', hn', hs', hmark, rfl⟩, hl⟩
  refine ⟨place, n', hn', hmark, ?_⟩
  have hmarks := marksOnly_of_named hlabels hread hoffsets hs' hl
  have hplace := lookup_labelPlaces 0 hmarks
  rwa [Nat.zero_add] at hplace

/-- The program that runs a stream has, at a place, what the native instruction there runs as. -/
theorem Machine.Program.Runs.exists_code {p : Program} {stream : List NativeInstruction}
    (h : p.Runs stream) {place : Nat} {n : NativeInstruction} (hn : stream[place]? = some n) :
    ∃ i, p.code[place]? = some i ∧ n.RunsAs stream p i := by
  obtain ⟨i, hi, hruns⟩ := exists_getElem?_left h hn
  exact ⟨i, by rw [← Array.getElem?_toList]; exact hi, hruns⟩

theorem Machine.Program.Runs.exists_native {p : Program} {stream : List NativeInstruction}
    (h : p.Runs stream) {place : Nat} {i : Instruction} (hi : p.code[place]? = some i) :
    ∃ n, stream[place]? = some n ∧ n.RunsAs stream p i := by
  rw [← Array.getElem?_toList] at hi
  exact exists_getElem?_right h hi

/-- The stream stands in another one at a distance, except for its returns. -/
def StandsIn (stream other : List NativeInstruction) (d : Nat) : Prop :=
  ∀ place n, stream[place]? = some n → ∃ n', other[d + place]? = some n' ∧ n'.labels = n.labels ∧
    (n.opcode ≠ .ret → n'.opcode = n.opcode ∧ n'.operand = n.operand)

/-- **A stream in a larger one.**  If every instruction of the stream stands in the larger one at a
fixed distance, with its labels and, unless it is a return, unchanged, then so do the programs. -/
theorem embeds_of_runs {p p' : Program} {stream stream' : List NativeInstruction} {d : Nat}
    (h : p.Runs stream) (h' : p'.Runs stream') (hnodup : (stream'.flatMap (·.labels)).Nodup)
    (hstands : StandsIn stream stream' d) : p.Embeds d p' := by
  intro pc i hi hret
  obtain ⟨n, hn, hruns⟩ := h.exists_native hi
  obtain ⟨n', hn', -, hsame⟩ := hstands pc n hn
  have hne : n.opcode ≠ .ret := fun heq => hret (by rw [hruns.form.operation, heq]; rfl)
  obtain ⟨hopcode, hoperand⟩ := hsame hne
  obtain ⟨i', hi', hruns'⟩ := h'.exists_code hn'
  -- the operation is the same, and jumps go to the same instruction of the stream
  refine ⟨i', hi', ?_, ?_⟩
  · rw [hruns'.form.operation, hopcode, ← hruns.form.operation]
  · obtain ⟨q, hq, hmarks⟩ := hruns.operand
    obtain ⟨q', hq', hmarks'⟩ := hruns'.operand
    rw [hoperand] at hmarks'
    refine ⟨q, q', hq, hq', (hmarks.flip.comp hmarks').imp ?_⟩
    rintro l l' ⟨t, ⟨place, m, hm, htm, hl⟩, ⟨place', m', hm', htm', hl'⟩⟩
    refine ⟨place, hl, ?_⟩
    obtain ⟨m'', hm'', hlabels, -⟩ := hstands place m hm
    rw [index_eq_of_nodup_flatMap hnodup hm'' hm' (by rw [hlabels]; exact htm) htm']
    exact hl'

/-! ### Bodies as programs -/

/-- The body is read as a program of the stream, whatever labels are handed out. -/
def Body.ReadsAs {μ : Type} [Metadata μ] (metadata : μ) (body : Body)
    (stream : List NativeInstruction) : Prop :=
  ∀ supply, ∃ out labels, body.decode metadata supply = (.ok out, labels) ∧
    (Program.ofInstructions out).Runs stream

/-- A body that has been read and lowered is read as a program of the stream, and no label marks two
native instructions. -/
theorem readsAs_of_decode {μ : Type} [Metadata μ] {metadata : μ} {body : Body}
    {supply : LabelSupply} {code : List Instruction} {labels : PositionLabels} {pass : Lowering}
    {stream : List NativeInstruction} (hread : body.decode metadata supply = (.ok code, labels))
    (hpass : pass.Sound) (hlower : List.Forall₂ (Instruction.LowersTo pass) code stream) :
    (stream.flatMap (·.labels)).Nodup ∧ body.ReadsAs metadata stream := by
  obtain ⟨ss, hss, hsound, hattached, hnative⟩ := natives_of_decode hread hlower
  refine ⟨nodup_labels hsound hpass hss.pairwise_offset hnative, fun supply' => ?_⟩
  obtain ⟨out, labels', hread'⟩ := exists_decode_of_decode hread supply'
  refine ⟨out, labels', hread', ?_⟩
  -- other labels, but the same instructions are scanned
  obtain ⟨ss', hss', hsound', -, hreadAs'⟩ := readAs_of_decode hread'
  obtain rfl := hss.unique hss'
  refine runs_of_readAs hsound' hss.pairwise_offset hreadAs' ?_
  refine hnative.flip.imp fun n s hn => ⟨Or.inl hn.opcode.symm, hn.operand.imp ?_⟩
  -- a label that stands for a position marks the instruction there
  rintro t k ⟨l, ⟨hk, -, hl⟩, hresolved⟩
  obtain ⟨s', hs', hoffset⟩ := List.mem_map.1 (hattached _ _ hl)
  obtain ⟨place, hplace⟩ := List.mem_iff_getElem?.1 hs'
  obtain ⟨n', hn', hnative'⟩ := exists_getElem?_left hnative hplace
  refine ⟨place, n', s', hn', hplace, (hnative'.mem_labels t).2 ⟨l, ?_, hresolved⟩, by omega⟩
  rw [hoffset]
  exact hl

/-- The body is read as a program of the stream in which no branch is widened. -/
def Body.ReadsInForms {μ : Type} [Metadata μ] (metadata : μ) (body : Body)
    (stream : List NativeInstruction) : Prop :=
  ∀ supply, ∃ out labels, body.decode metadata supply = (.ok out, labels) ∧
    (Program.ofInstructions out).Runs stream ∧
    List.Forall₂ (fun (n : NativeInstruction) (i : Instruction) => i.opcode = n.opcode) stream out

/-- A body that has been read and lowered is read in the forms of the stream. -/
theorem readsInForms_of_decode {μ : Type} [Metadata μ] {metadata : μ} {body : Body}
    {supply : LabelSupply} {code : List Instruction} {labels : PositionLabels} {pass : Lowering}
    {stream : List NativeInstruction} (hread : body.decode metadata supply = (.ok code, labels))
    (hpass : pass.Sound) (hlower : List.Forall₂ (Instruction.LowersTo pass) code stream) :
    (stream.flatMap (·.labels)).Nodup ∧ body.ReadsInForms metadata stream := by
  obtain ⟨hnodup, hreads⟩ := readsAs_of_decode hread hpass hlower
  refine ⟨hnodup, fun supply' => ?_⟩
  obtain ⟨out, labels', hread', hruns⟩ := hreads supply'
  refine ⟨out, labels', hread', hruns, ?_⟩
  -- the opcodes on both sides are those that the code spells
  obtain ⟨ss, hss, -, -, hnative⟩ := natives_of_decode hread hlower
  obtain ⟨ss', hss', -, -, hreadAs'⟩ := readAs_of_decode hread'
  obtain rfl := hss.unique hss'
  refine (forall₂_comp hnative.flip hreadAs').imp ?_
  rintro n i' ⟨s, hn, hi'⟩
  rw [hi'.opcode, hn.opcode]

/-- What is read from a body can be lowered. -/
theorem exists_lowersTo_of_decode {μ : Type} [Metadata μ] {metadata : μ} {body : Body}
    {supply : LabelSupply} {code : List Instruction} {labels : PositionLabels}
    (hread : body.decode metadata supply = (.ok code, labels)) :
    ∃ pass stream, pass.Sound ∧ List.Forall₂ (Instruction.LowersTo pass) code stream := by
  obtain ⟨stream, g, hlower⟩ := exists_lowerWith_of_decode hread {}
  obtain ⟨pass, hpass, -, hlowersTo⟩ := Instruction.lowersTo_of_lowerWith hlower
  exact ⟨pass, stream, hpass, hlowersTo⟩

/-- A body that was encoded from a stream is read as a program of the stream. -/
theorem readsAs_of_encode {tables : MetadataTables} {stream : List NativeInstruction}
    {body : Body} {placed : List Placed} {ss : List Scanned}
    (h : EncodedAs tables stream body placed ss) (hsize : body.code.length < 0x100000000) :
    body.ReadsAs tables stream := by
  intro supply
  obtain ⟨out, labels, hread⟩ :=
    exists_decode supply h.spelled (h.targets hsize) h.regions
  refine ⟨out, labels, hread, ?_⟩
  obtain ⟨ss', hss', hsound, -, hreadAs⟩ := readAs_of_decode hread
  obtain rfl := h.spelled.unique hss'
  refine runs_of_readAs hsound h.spelled.pairwise_offset hreadAs ?_
  rw [← h.insns, List.forall₂_map_left_iff]
  refine (forall₂_and_mem h.written).imp ?_
  rintro p s ⟨hp, -, hwritten⟩
  have hform : s.info.opcode = p.form := Opcode.opcode_of_info? hwritten.row
  refine ⟨by rw [hform]; exact h.forms p hp, hwritten.payload.imp ?_⟩
  -- a label that lies at an offset marks the instruction that was written there
  rintro t _ ⟨k, hk, rfl⟩
  obtain ⟨p', hp', hmark, rfl⟩ := mem_of_lookup_bindings hk
  obtain ⟨place, hplace⟩ := List.mem_iff_getElem?.1 hp'
  obtain ⟨s', hs', hwritten'⟩ := exists_getElem?_left h.written hplace
  refine ⟨place, p'.insn, s', ?_, hs', hmark, by rw [hwritten'.offset]⟩
  rw [List.getElem?_map, hplace]
  rfl

end MethodWeave
