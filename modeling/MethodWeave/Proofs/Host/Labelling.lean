import MethodWeave.Proofs.Host.Building
import MethodWeave.Proofs.Host.Hooking
import MethodWeave.Proofs.Host.Patched
import MethodWeave.Proofs.Host.Rebuilding
import MethodWeave.Proofs.Instruction.Counting
import MethodWeave.Proofs.Native.Refusals
import MethodWeave.Proofs.Patch.Scripted
/-!
Labels of a body that is built.

Native labels are handed out by one generator, first to the labels of the body that is read, then to
the free labels of the code that transpilers make of it, last to the code behind the body.  Labels
of the first kind reach the transpilers as fixed labels, which no later pass asks for.  So native
labels of different origin differ, and code that is well marked comes to the encoder well marked.

Main result: `build_labels`.
-/

namespace MethodWeave

open Instruction (mentioned WellMarked)

/-- The error says that a label is marked twice, or never. -/
def HostError.isLabelError : HostError → Bool
  | .encode (.unboundLabel _ _) | .encode (.labelRebound _ _) => true
  | _ => false

/-- A stream whose labels mark one place each and include all that it jumps to is encoded, or
refused for another reason. -/
theorem failsOnly_encode_of_marked {μ : Type} [Metadata μ] {stream : List NativeInstruction}
    (hnodup : (stream.flatMap (·.labels)).Nodup)
    (htargets : ∀ n ∈ stream, ∀ l ∈ n.operand.targets, l ∈ stream.flatMap (·.labels))
    (g : Generator) (metadata : μ) :
    FailsOnly (·.isLabelError = false) ((g.encode stream metadata).1.mapError HostError.encode) := by
  have hblames := blames_encode g stream metadata
  generalize (g.encode stream metadata).1 = outcome at hblames
  cases outcome with
  | ok body => exact .of_ok body
  | error e =>
    refine .of_error ?_
    have hblame := hblames e rfl
    cases e with
    | unboundLabel index l =>
      obtain ⟨n, hn, hl, hunmarked⟩ := hblame
      exact absurd (htargets n hn l hl) hunmarked
    | labelRebound index l => exact absurd hnodup hblame
    | _ => rfl

namespace Host

variable {metadata : MetadataTables} {method : MethodRef} {base : Body} {request : PatchRequest}
  {journal : Journal}

/-! ### The last lowering -/

/-- The instructions that a build lowers last, and the pass that it lowers them in: what is read
from the body, or what the transpilers make of that.  `none` if the build does not get so far. -/
def lastLowering? (metadata : MetadataTables) (method : MethodRef) (base : Body)
    (request : PatchRequest) (journal : Journal) : Option (List Instruction × Lowering) :=
  match request.rewrite? with
  | none =>
    match base.decode metadata journal.supply with
    | (.error _, _) => none
    | (.ok code, _) =>
      some (code, { generator := .withLocals base.locals, log := journal.log })
  | some stage =>
    match nativeForm metadata base journal with
    | (.error _, _) => none
    | (.ok (stream, g), journal) => stage.outcome? method stream g journal

/-- What hooks are put around is what was lowered last. -/
theorem lastLowering_of_rewritten {native stream : List NativeInstruction} {g₀ g : Generator}
    {journal₁ journal₂ : Journal}
    (hnative : nativeForm metadata base journal = (.ok (native, g₀), journal₁))
    (hrewritten : rewritten method request native g₀ journal₁ = (.ok (stream, g), journal₂)) :
    ∃ code pass pass', lastLowering? metadata method base request journal = some (code, pass) ∧
      (Instruction.lowerAll code).run pass = (.ok stream, pass') ∧ g = pass'.generator := by
  unfold rewritten at hrewritten
  unfold lastLowering?
  cases hstage : request.rewrite? with
  | none =>
    rw [hstage] at hrewritten
    cases hrewritten
    obtain ⟨code, labels, pass, hread, hlower, rfl, rfl⟩ := nativeForm_eq_ok_iff.1 hnative
    simp only [hread]
    exact ⟨code, _, pass, rfl, hlower, rfl⟩
  | some stage =>
    rw [hstage] at hrewritten
    simp only at hrewritten
    generalize hrun : stage.run method native g₀ journal₁ = outcome at hrewritten
    obtain ⟨result, journal₃⟩ := outcome
    rw [Prod.mk.injEq, mapError_eq_ok_iff] at hrewritten
    obtain ⟨rfl, -⟩ := hrewritten
    simp only [hnative]
    exact RewriteStage.outcome_of_run hrun

/-- **The pass of the last lowering keeps labels apart.**  There is a number below which the fixed
labels lie, each for its own native label, and from which on the free labels have theirs. -/
theorem lastLowering_apart
    (hts : ∀ stage ∈ request.rewrite?, ∀ t ∈ stage.transpilers, t.UsesOwnLabels)
    {code : List Instruction} {pass : Lowering}
    (h : lastLowering? metadata method base request journal = some (code, pass)) :
    ∃ n, FixedBelow n (mentioned code) ∧ pass.SoundSince n := by
  unfold lastLowering? at h
  split at h
  · split at h
    · cases h
    · next hread =>
      cases h
      -- labels that were read are free, and this is the first pass
      exact ⟨_, fixedBelow_of_free (Instruction.free_of_decode hread),
        Lowering.soundSince_begin _ _ _⟩
  · next stage hstage =>
    split at h
    · cases h
    · next native g journal₁ hnative =>
      obtain ⟨read, labels, first, hread, hlower, rfl, rfl⟩ := nativeForm_eq_ok_iff.1 hnative
      obtain ⟨-, -, hlowersTo⟩ := Instruction.lowersTo_of_lowerAll hlower
      have hfirst := (Lowering.soundSince_begin _ _ _).draws (Lowering.draws_lowerAll hlower)
      have hfree : FixedBelow (Generator.withLocals base.locals).nextLabel (mentioned read) :=
        fixedBelow_of_free (Instruction.free_of_decode hread)
      refine ⟨_, RewriteStage.outcome_apart (fun n hn => (liftable_of_decode hread hlowersTo n hn).1)
        (fun t ht => ?_) (hts stage hstage) h⟩
      obtain ⟨l, hl, hresolved⟩ := Instruction.exists_resolved_of_lowersTo hlowersTo ht
      exact hfirst.resolved_lt hfree hl hresolved

/-! ### Errors of a build -/

/-- No error about labels is reported before the encoder is reached. -/
theorem failsOnly_nativeForm :
    FailsOnly (·.isLabelError = false) (nativeForm metadata base journal).1 := by
  unfold nativeForm
  generalize base.decode metadata journal.supply = outcome
  obtain ⟨e | code, labels⟩ := outcome
  · exact .of_error rfl
  · apply FailsOnly.map
    apply FailsOnly.mapError
    exact fun _ => rfl

theorem failsOnly_rewritten (stream : List NativeInstruction) (g : Generator) :
    FailsOnly (·.isLabelError = false) (rewritten method request stream g journal).1 := by
  unfold rewritten
  cases request.rewrite? with
  | none => exact .of_ok _
  | some stage =>
    apply FailsOnly.mapError
    exact fun _ => rfl

theorem failsOnly_hooked (stream : List NativeInstruction) (g : Generator) :
    FailsOnly (·.isLabelError = false) (hooked method request stream g) := by
  have hbefore : FailsOnly (·.isLabelError = false) (Hooks.before method request.prefixes) := by
    apply FailsOnly.bind
    · apply FailsOnly.mapM
      exact fun _ _ => .ite (.of_ok _) (.of_error rfl)
    · exact fun _ => .of_ok _
  have hafter (result? : Option Local) :
      FailsOnly (·.isLabelError = false) (Hooks.after method request.suffixes result?) := by
    apply FailsOnly.bind
    · apply FailsOnly.mapM
      exact fun _ _ => .ite (.of_ok _) (.ite (.of_ok _) (.of_error rfl))
    · exact fun _ => .of_ok _
  apply FailsOnly.ite
  · exact .of_ok _
  apply hbefore.bind
  intro front
  apply FailsOnly.ite
  · exact .of_ok _
  apply FailsOnly.bind
  · exact (hafter _).bind fun _ => .of_ok _
  · exact fun _ => .of_ok _

/-! ### What is built -/

/-- Labels stay in order with hooks around a stream, if a request has any. -/
theorem marked_of_hooked {stream wrapped : List NativeInstruction} {g g' : Generator}
    (hlabels : ∀ l ∈ stream.flatMap (·.labels), l.number < g.nextLabel)
    (hnodup : (stream.flatMap (·.labels)).Nodup)
    (htargets : ∀ n ∈ stream, ∀ l ∈ n.operand.targets, l ∈ stream.flatMap (·.labels))
    (h : hooked method request stream g = .ok (wrapped, g')) :
    (wrapped.flatMap (·.labels)).Nodup ∧
      ∀ n ∈ wrapped, ∀ l ∈ n.operand.targets, l ∈ wrapped.flatMap (·.labels) := by
  unfold hooked at h
  split at h
  · cases h
    exact ⟨hnodup, htargets⟩
  · exact Hooks.wrapped_marked hlabels hnodup htargets h

/-- What a stream that hooks are put around has from the code that it was lowered from. -/
theorem labels_of_rewritten
    (hts : ∀ stage ∈ request.rewrite?, ∀ t ∈ stage.transpilers, t.UsesOwnLabels)
    {native stream : List NativeInstruction} {g₀ g : Generator} {journal₁ journal₂ : Journal}
    (hnative : nativeForm metadata base journal = (.ok (native, g₀), journal₁))
    (hrewritten : rewritten method request native g₀ journal₁ = (.ok (stream, g), journal₂)) :
    ∃ code pass pass', lastLowering? metadata method base request journal = some (code, pass) ∧
      (Instruction.lowerAll code).run pass = (.ok stream, pass') ∧
      g.nextLabel ≤ pass.generator.nextLabel + (mentioned code).length ∧
      ((∀ l ∈ mentioned code, ∀ l' ∈ mentioned code,
          (pass'.resolve l).1 = (pass'.resolve l').1 → l = l') ∧
        ∀ l ∈ mentioned code, (pass'.resolve l).1.number < g.nextLabel) ∧
      (WellMarked code → (stream.flatMap (·.labels)).Nodup ∧
        (∀ n ∈ stream, ∀ l ∈ n.operand.targets, l ∈ stream.flatMap (·.labels)) ∧
        ∀ l ∈ stream.flatMap (·.labels), l.number < g.nextLabel) := by
  obtain ⟨code, pass, pass', hlast, hlower, rfl⟩ := lastLowering_of_rewritten hnative hrewritten
  obtain ⟨n, hfixed, hpass⟩ := lastLowering_apart hts hlast
  obtain ⟨-, -, hlowersTo⟩ := Instruction.lowersTo_of_lowerAll hlower
  have hpass' := hpass.draws (Lowering.draws_lowerAll hlower)
  exact ⟨code, pass, pass', hlast, hlower, Instruction.nextLabel_le_of_lowerAll hlower,
    Instruction.resolve_injective hpass' hfixed hlowersTo,
    Instruction.wellMarked_of_lowersTo hpass' hfixed hlowersTo⟩

/-- A build that fails over labels fails in the encoder, and that has nothing to refuse in them. -/
theorem failsOnly_build
    (hts : ∀ stage ∈ request.rewrite?, ∀ t ∈ stage.transpilers, t.UsesOwnLabels)
    (hmarked : ∀ code pass,
      lastLowering? metadata method base request journal = some (code, pass) → WellMarked code) :
    FailsOnly (·.isLabelError = false) (build metadata method base request journal).1 := by
  unfold build
  split
  · next e journal₁ hnative =>
    have hfails : FailsOnly (·.isLabelError = false) (nativeForm metadata base journal).1 :=
      failsOnly_nativeForm
    rw [hnative] at hfails
    exact .of_error (hfails e rfl)
  · next native g₀ journal₁ hnative =>
    split
    · next e journal₂ hrewritten =>
      have hfails : FailsOnly _ (rewritten method request native g₀ journal₁).1 :=
        failsOnly_rewritten native g₀
      rw [hrewritten] at hfails
      exact .of_error (hfails e rfl)
    · next stream g journal₂ hrewritten =>
      split
      · next e hhooked =>
        have hfails : FailsOnly _ (hooked method request stream g) := failsOnly_hooked stream g
        exact .of_error (hfails e hhooked)
      · next wrapped g' hhooked =>
        -- only the encoder looks at labels, and by then hooks have added labels of their own
        obtain ⟨code, pass, pass', hlast, -, -, -, hlabels⟩ :=
          labels_of_rewritten hts hnative hrewritten
        obtain ⟨hnodup, htargets, hlt⟩ := hlabels (hmarked code pass hlast)
        obtain ⟨hnodup', htargets'⟩ := marked_of_hooked hlt hnodup htargets hhooked
        exact failsOnly_encode_of_marked hnodup' htargets' g' metadata

/-- **Building makes no errors about labels.**  Let the transpilers use labels of their own only,
and let the code that comes out of them, or is read from the body if there are none, be well marked.
Then the build does not fail because a label is marked twice or never.  Whenever it comes to put
hooks around what that code is lowered to, labels of the code that differ have native labels that
differ, and none of these is the one that the returns go to if hooks run behind the body.  All of
them have numbers of 32 bits if the pass has one left for each label that the code mentions. -/
theorem build_labels
    (hts : ∀ stage ∈ request.rewrite?, ∀ t ∈ stage.transpilers, t.UsesOwnLabels)
    (hmarked : ∀ code pass,
      lastLowering? metadata method base request journal = some (code, pass) → WellMarked code) :
    (∀ e, (build metadata method base request journal).1 = .error e → e.isLabelError = false) ∧
    ∀ native g₀ journal₁ stream g journal₂,
      nativeForm metadata base journal = (.ok (native, g₀), journal₁) →
      rewritten method request native g₀ journal₁ = (.ok (stream, g), journal₂) →
      ∃ code pass pass', lastLowering? metadata method base request journal = some (code, pass) ∧
        (Instruction.lowerAll code).run pass = (.ok stream, pass') ∧
        (∀ l ∈ mentioned code, ∀ l' ∈ mentioned code,
          (pass'.resolve l).1 = (pass'.resolve l').1 → l = l') ∧
        (∀ wrapped g', hooked method request stream g = .ok (wrapped, g') → request.suffixes ≠ [] →
          ∃ front back, wrapped = Hooks.enclosed front stream g.defineLabel.1 back ∧
            ∀ l ∈ mentioned code, (pass'.resolve l).1 ≠ g.defineLabel.1) ∧
        (pass.generator.nextLabel + (mentioned code).length < 0x100000000 →
          g.defineLabel.1.number < 0x100000000 ∧
            ∀ l ∈ mentioned code, (pass'.resolve l).1.number < 0x100000000) := by
  refine ⟨failsOnly_build hts hmarked, ?_⟩
  intro native g₀ journal₁ stream g journal₂ hnative hrewritten
  obtain ⟨code, pass, pass', hlast, hlower, hnext, ⟨hinjective, hlt⟩, -⟩ :=
    labels_of_rewritten hts hnative hrewritten
  refine ⟨code, pass, pass', hlast, hlower, hinjective, fun wrapped g' hhooked hsuffixes => ?_,
    fun hroom => ?_⟩
  · obtain ⟨front, -, ⟨hnone, -, -⟩ | ⟨-, -, back, -, rfl⟩⟩ := hooked_cases hhooked
    · exact absurd hnone hsuffixes
    · refine ⟨front, back, rfl, fun l hl heq => ?_⟩
      -- the label behind the body is the next one of the generator
      have hbehind : (pass'.resolve l).1.number = g.nextLabel := by
        rw [heq]
        rfl
      exact Nat.ne_of_lt (hlt l hl) hbehind
  · have hbehind : g.nextLabel < 0x100000000 := Nat.lt_of_le_of_lt hnext hroom
    exact ⟨hbehind, fun l hl => Nat.lt_trans (hlt l hl) hbehind⟩

/-- A jump to an instruction that does nothing, in front of everything else. -/
def detour : Transpiler :=
  Edit.transpiler "detour"
    [.insert 0 [{ opcode := Opcode.br, value? := some (.typed (.label "past")) },
      { opcode := ⟨0x00⟩, labels := ["past"] }], .resolve "past"]

/-- Make two detours, with a hook in front of them and one behind the body. -/
def detourRequest : PatchRequest :=
  { nextRequest with rewrite? := some ⟨nextMethod, [detour, detour], {}⟩ }

/-- A body that begins with a jump of its own. -/
def jumpyBody : Body := { code := [0x2b, 0x00, 0x02, 0x17, 0x58, 0x2a] }

/-- The labels of two detours, the one of the body and the one behind it are lowered apart. -/
theorem build_labels_detour :
    (∀ stage ∈ detourRequest.rewrite?, ∀ t ∈ stage.transpilers, t.UsesOwnLabels) ∧
    (∀ code pass, lastLowering? hookModule.metadata nextMethod jumpyBody detourRequest {} =
      some (code, pass) → WellMarked code) ∧
    (∀ e, (build hookModule.metadata nextMethod jumpyBody detourRequest {}).1 = .error e →
      e.isLabelError = false) ∧
    ∃ code stream g pass pass' wrapped g' front back,
      lastLowering? hookModule.metadata nextMethod jumpyBody detourRequest {} =
        some (code, pass) ∧
      code.flatMap (·.labels) = [⟨3, none⟩, ⟨2, none⟩, ⟨1, some ⟨0⟩⟩] ∧
      (Instruction.lowerAll code).run pass = (.ok stream, pass') ∧
      (∀ l ∈ mentioned code, ∀ l' ∈ mentioned code,
        (pass'.resolve l).1 = (pass'.resolve l').1 → l = l') ∧
      hooked nextMethod detourRequest stream g = .ok (wrapped, g') ∧
      wrapped = Hooks.enclosed front stream g.defineLabel.1 back ∧
      (∀ l ∈ mentioned code, (pass'.resolve l).1 ≠ g.defineLabel.1) ∧
      ∀ l ∈ mentioned code, (pass'.resolve l).1.number < 0x100000000 := by
  have hdetour : detour.UsesOwnLabels := Edit.usesOwnLabels "detour" (by decide)
  have hts : ∀ stage ∈ detourRequest.rewrite?, ∀ t ∈ stage.transpilers, t.UsesOwnLabels := by
    intro stage hstage
    obtain rfl : ⟨nextMethod, [detour, detour], {}⟩ = stage := Option.some.inj hstage
    exact List.forall_mem_cons.2 ⟨hdetour, List.forall_mem_singleton.2 hdetour⟩
  have hcode : ∀ code pass, lastLowering? hookModule.metadata nextMethod jumpyBody detourRequest {} =
      some (code, pass) →
        code.flatMap (·.labels) = [⟨3, none⟩, ⟨2, none⟩, ⟨1, some ⟨0⟩⟩] ∧
          pass.generator.nextLabel + (mentioned code).length = 9 ∧ WellMarked code := by
    intro code pass h
    have hfinal : (lastLowering? hookModule.metadata nextMethod jumpyBody detourRequest {}).map
        (fun final => (final.1.flatMap (·.labels),
          final.2.generator.nextLabel + (mentioned final.1).length, decide (WellMarked final.1))) =
          some ([⟨3, none⟩, ⟨2, none⟩, ⟨1, some ⟨0⟩⟩], 9, true) := by decide +kernel
    rw [h, Option.map_some, Option.some.injEq, Prod.mk.injEq, Prod.mk.injEq,
      decide_eq_true_eq] at hfinal
    exact hfinal
  have hmarked : ∀ code pass, lastLowering? hookModule.metadata nextMethod jumpyBody
      detourRequest {} = some (code, pass) → WellMarked code :=
    fun code pass h => (hcode code pass h).2.2
  obtain ⟨herrors, hlabels⟩ := build_labels hts hmarked
  -- the build succeeds, so it comes to put hooks around the lowered code
  have hbuilt : (build hookModule.metadata nextMethod jumpyBody detourRequest {}).1.toOption.isSome =
      true := by decide +kernel
  obtain ⟨native, g₀, journal₁, stream, g, journal₂, wrapped, g', hnative, hrewritten, hhooked⟩ :
      ∃ native g₀ journal₁ stream g journal₂ wrapped g',
        nativeForm hookModule.metadata jumpyBody {} = (.ok (native, g₀), journal₁) ∧
        rewritten nextMethod detourRequest native g₀ journal₁ = (.ok (stream, g), journal₂) ∧
        hooked nextMethod detourRequest stream g = .ok (wrapped, g') := by
    generalize houtcome : build hookModule.metadata nextMethod jumpyBody detourRequest {} = outcome
      at hbuilt
    obtain ⟨e | body, metadata, journal⟩ := outcome
    · cases hbuilt
    · obtain ⟨wrapped, g', ⟨native, g₀, journal₁, stream, g, journal₂, hsteps⟩, -⟩ :=
        comesTo_of_build houtcome
      exact ⟨native, g₀, journal₁, stream, g, journal₂, wrapped, g', hsteps⟩
  obtain ⟨code, pass, pass', hlast, hlower, hapart, hbehind, hfits⟩ :=
    hlabels native g₀ journal₁ stream g journal₂ hnative hrewritten
  obtain ⟨front, back, hwrapped, hdiffer⟩ := hbehind wrapped g' hhooked (by decide)
  obtain ⟨hfixed, hnumbers, -⟩ := hcode code pass hlast
  have hroom : pass.generator.nextLabel + (mentioned code).length < 0x100000000 := by
    rw [hnumbers]
    decide
  exact ⟨hts, hmarked, herrors, code, stream, g, pass, pass', wrapped, g', front, back, hlast,
    hfixed, hlower, hapart, hhooked, hwrapped, hdiffer, (hfits hroom).2⟩

end Host

end MethodWeave
