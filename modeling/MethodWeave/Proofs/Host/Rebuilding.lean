import MethodWeave.Proofs.Host.Managing
import MethodWeave.Proofs.Native.Interning
import MethodWeave.Proofs.Patch.Commit
import MethodWeave.Proofs.Patch.Uniform
/-!
What flows into a body that the host builds.

Building reads the first body, rewrites it, puts hooks around it and encodes it.  Two builds from
one first body may begin with different heaps of strings, at different label numbers and under
different owners and print modes; as long as they are asked for the same hooks and the same uniform
transpilers, they encode one and the same stream.  Main results: `encodes_alike`, which says just
that; and `metadata_build`, building adds nothing to the metadata but strings, and those only to a
body that is read.
-/

namespace MethodWeave

/-! ### Requests that are alike -/

/-- The body can be read. -/
def Body.IsRead (body : Body) (metadata : MetadataTables) : Prop :=
  ∃ supply code labels, body.decode metadata supply = (.ok code, labels)

theorem Body.IsRead.of_extends {body : Body} {tables tables' : MetadataTables}
    (h : body.IsRead tables) (hextends : tables'.Extends tables) : body.IsRead tables' := by
  obtain ⟨supply, code, labels, hread⟩ := h
  exact ⟨supply, code, labels, Body.decode_of_extends hread hextends⟩

/-- Two requests for the same hooks and the same transpilers. -/
structure PatchRequest.Alike (r r' : PatchRequest) : Prop where
  prefixes : r'.prefixes = r.prefixes
  suffixes : r'.suffixes = r.suffixes
  rewrite : Option.Rel
    (fun s s' : RewriteStage => s'.method = s.method ∧ s'.transpilers = s.transpilers)
    r.rewrite? r'.rewrite?

theorem PatchRequest.Alike.symm {r r' : PatchRequest} (h : r.Alike r') : r'.Alike r := by
  refine ⟨h.prefixes.symm, h.suffixes.symm, ?_⟩
  have hrewrite := h.rewrite
  generalize r.rewrite? = stage?, r'.rewrite? = stage?' at hrewrite
  cases hrewrite with
  | none => exact .none
  | some hstage => exact .some ⟨hstage.1.symm, hstage.2.symm⟩

/-- All transpilers that the request asks for are uniform. -/
def PatchRequest.Uniform (r : PatchRequest) : Prop :=
  ∀ stage, r.rewrite? = some stage → ∀ t ∈ stage.transpilers, t.Uniform

theorem PatchRequest.Alike.uniform {r r' : PatchRequest} (h : r.Alike r') (huniform : r.Uniform) :
    r'.Uniform := by
  intro stage' hstage'
  have hrewrite := h.rewrite
  rw [hstage'] at hrewrite
  generalize hstage? : r.rewrite? = stage? at hrewrite
  cases hrewrite with
  | some hstage =>
    rw [hstage.2]
    exact huniform _ hstage?

/-- Patterns with the same lists ask for the same. -/
theorem Decorated.request_alike {d d' : Decorated} (hmethod : d'.method = d.method)
    (hcontents : d'.pattern.contents = d.pattern.contents) : d.request.Alike d'.request := by
  simp only [Pattern.contents, Pattern.Contents.mk.injEq] at hcontents
  obtain ⟨hprefixes, hsuffixes, htranspilers, hpost⟩ := hcontents
  refine ⟨hprefixes, hsuffixes, ?_⟩
  have hhas : d'.pattern.hasRewrite = d.pattern.hasRewrite := by
    simp only [Pattern.hasRewrite, htranspilers, hpost]
  have hchain : d'.pattern.chain = d.pattern.chain := by
    simp only [Pattern.chain, htranspilers, hpost]
  simp only [Decorated.request, hhas]
  split
  · exact .some ⟨hmethod, hchain⟩
  · exact .none

theorem Decorated.uniform_request {d : Decorated} (h : ∀ t ∈ d.pattern.chain, t.Uniform) :
    d.request.Uniform := by
  intro stage hstage
  rw [Decorated.transpilers_of_request hstage]
  exact h

namespace Host

/-! ### The stream that a build encodes -/

/-- The build comes to the stream, with a generator that goes on from it. -/
def ComesTo (metadata : MetadataTables) (method : MethodRef) (base : Body) (request : PatchRequest)
    (journal : Journal) (stream : List NativeInstruction) (g : Generator) : Prop :=
  ∃ native g₀ journal₀ out g₁ journal₁,
    nativeForm metadata base journal = (.ok (native, g₀), journal₀) ∧
    rewritten method request native g₀ journal₀ = (.ok (out, g₁), journal₁) ∧
    hooked method request out g₁ = .ok (stream, g)

variable {metadata metadata' : MetadataTables} {method : MethodRef} {base : Body}
  {request request' : PatchRequest} {journal journal' : Journal}

/-- A build comes to one stream only. -/
theorem ComesTo.unique {stream stream' : List NativeInstruction} {g g' : Generator}
    (h : ComesTo metadata method base request journal stream g)
    (h' : ComesTo metadata method base request journal stream' g') : stream' = stream ∧ g' = g := by
  obtain ⟨_, _, _, _, _, _, hnative, hrewritten, hhooked⟩ := h
  obtain ⟨_, _, _, _, _, _, hnative', hrewritten', hhooked'⟩ := h'
  cases hnative.symm.trans hnative'
  cases hrewritten.symm.trans hrewritten'
  cases hhooked.symm.trans hhooked'
  exact ⟨rfl, rfl⟩

/-- What it takes to build a body. -/
theorem comesTo_of_build {body : Body}
    (h : build metadata method base request journal = (.ok body, metadata', journal')) :
    ∃ stream g, ComesTo metadata method base request journal stream g ∧
      g.encode stream metadata = (.ok body, metadata') := by
  unfold build at h
  split at h
  · cases h
  · next native g₀ journal₀ hnative =>
    split at h
    · cases h
    · next out g₁ journal₁ hrewritten =>
      split at h
      · cases h
      · next stream g hhooked =>
        simp only [Prod.mk.injEq, mapError_eq_ok_iff] at h
        obtain ⟨hbody, hmetadata, -⟩ := h
        exact ⟨stream, g, ⟨native, g₀, journal₀, out, g₁, journal₁, hnative, hrewritten, hhooked⟩,
          Prod.ext hbody hmetadata⟩

/-- A first body has one native form, wherever its labels begin. -/
theorem nativeForm_alike {tables : MetadataTables} {k : Nat} (hread : base.IsRead tables)
    (hextends : metadata.Extends tables) (hextends' : metadata'.Extends tables)
    (hsupply : journal'.supply.next = journal.supply.next + k) {native : List NativeInstruction}
    {g : Generator} {journal₁ : Journal}
    (h : nativeForm metadata base journal = (.ok (native, g), journal₁)) :
    ∃ journal₁', nativeForm metadata' base journal' = (.ok (native, g), journal₁') ∧
      journal₁'.supply.next = journal₁.supply.next + k := by
  obtain ⟨supply, code₀, labels₀, hread⟩ := hread
  obtain ⟨code, labels, hread⟩ := exists_decode_of_decode hread journal.supply
  obtain ⟨labels', hread', hnext⟩ := Body.decode_shifted hread hsupply
  unfold nativeForm at h ⊢
  simp only [Body.decode_of_extends hread hextends] at h
  simp only [Body.decode_of_extends hread' hextends']
  generalize hlower : (Instruction.lowerAll code).run
    { generator := .withLocals base.locals, log := journal.log } = lowered at h
  obtain ⟨e | stream, pass⟩ := lowered
  · cases h
  · cases h
    have hbegin : Lowering.Shifted k
        { generator := .withLocals base.locals, log := journal.log }
        { generator := .withLocals base.locals, log := journal'.log } := ⟨rfl, fun _ => rfl⟩
    obtain ⟨_, pass', hlower', rfl, hpass⟩ :=
      Instruction.runsAlike_lowerAll code _ _ _ _ hbegin hlower
    simp only [hlower', hpass.generator]
    exact ⟨_, rfl, hnext⟩

theorem rewritten_alike {k : Nat} (halike : request.Alike request') (huniform : request.Uniform)
    (hsupply : journal'.supply.next = journal.supply.next + k)
    {native out : List NativeInstruction} {g g₁ : Generator} {journal₁ : Journal}
    (h : rewritten method request native g journal = (.ok (out, g₁), journal₁)) :
    ∃ journal₁', rewritten method request' native g journal' = (.ok (out, g₁), journal₁') := by
  have hrewrite := halike.rewrite
  unfold PatchRequest.Uniform at huniform
  unfold rewritten at h ⊢
  generalize request.rewrite? = stage?, request'.rewrite? = stage?' at hrewrite huniform h
  cases hrewrite with
  | none =>
    cases h
    exact ⟨journal', rfl⟩
  | @some stage stage' hstage =>
    simp only at h ⊢
    generalize hrun : stage.run method native g journal = outcome at h
    obtain ⟨result, journal₂⟩ := outcome
    rw [Prod.mk.injEq, mapError_eq_ok_iff] at h
    obtain ⟨rfl, -⟩ := h
    obtain ⟨journal₁', hrun'⟩ :=
      RewriteStage.run_alike hstage.1 hstage.2 (huniform stage rfl) hsupply hrun
    rw [hrun']
    exact ⟨journal₁', rfl⟩

theorem hooked_alike (halike : request.Alike request') (out : List NativeInstruction)
    (g : Generator) : hooked method request' out g = hooked method request out g := by
  simp only [hooked, Hooks.wrap, halike.prefixes, halike.suffixes]

/-- From a label supply that is further on, a build comes to the same stream. -/
theorem ComesTo.alike {tables : MetadataTables} (hread : base.IsRead tables)
    (hextends : metadata.Extends tables) (hextends' : metadata'.Extends tables)
    (halike : request.Alike request') (huniform : request.Uniform)
    (hsupply : journal.supply.next ≤ journal'.supply.next) {stream : List NativeInstruction}
    {g : Generator} (h : ComesTo metadata method base request journal stream g) :
    ComesTo metadata' method base request' journal' stream g := by
  obtain ⟨native, g₀, journal₀, out, g₁, journal₁, hnative, hrewritten, hhooked⟩ := h
  obtain ⟨k, hk⟩ := Nat.exists_eq_add_of_le hsupply
  obtain ⟨journal₀', hnative', hk'⟩ := nativeForm_alike hread hextends hextends' hk hnative
  obtain ⟨journal₁', hrewritten'⟩ := rewritten_alike halike huniform hk' hrewritten
  rw [← hooked_alike halike] at hhooked
  exact ⟨native, g₀, journal₀', out, g₁, journal₁', hnative', hrewritten', hhooked⟩

/-- **Two builds encode one stream.**  If two builds from one first body, which can be read in
tables that the metadata of both extends, are asked for the same hooks and the same uniform
transpilers and both succeed, then they encode the same stream with the same generator. -/
theorem encodes_alike {tables metadata₁ metadata₁' metadata₂ metadata₂' : MetadataTables}
    {request₁ request₂ : PatchRequest} {journal₁ journal₁' journal₂ journal₂' : Journal}
    {body₁ body₂ : Body} (hread : base.IsRead tables) (hextends₁ : metadata₁.Extends tables)
    (hextends₂ : metadata₂.Extends tables) (halike : request₁.Alike request₂)
    (huniform : request₁.Uniform)
    (h₁ : build metadata₁ method base request₁ journal₁ = (.ok body₁, metadata₁', journal₁'))
    (h₂ : build metadata₂ method base request₂ journal₂ = (.ok body₂, metadata₂', journal₂')) :
    ∃ (stream : List NativeInstruction) (g : Generator),
      g.encode stream metadata₁ = (.ok body₁, metadata₁') ∧
        g.encode stream metadata₂ = (.ok body₂, metadata₂') := by
  obtain ⟨stream₁, g₁, hcomes₁, hencode₁⟩ := comesTo_of_build h₁
  obtain ⟨stream₂, g₂, hcomes₂, hencode₂⟩ := comesTo_of_build h₂
  refine ⟨stream₁, g₁, hencode₁, ?_⟩
  -- whichever of the two begins at the lower label number carries over to the other
  rcases Nat.le_total journal₁.supply.next journal₂.supply.next with hle | hle
  · obtain ⟨rfl, rfl⟩ := (hcomes₁.alike hread hextends₁ hextends₂ halike huniform hle).unique hcomes₂
    exact hencode₂
  · obtain ⟨rfl, rfl⟩ := (hcomes₂.alike hread hextends₂ hextends₁ halike.symm
      (halike.uniform huniform) hle).unique hcomes₁
    exact hencode₂

/-! ### What a build does to the metadata -/

theorem isRead_of_nativeForm {native : List NativeInstruction} {g : Generator}
    (h : nativeForm metadata base journal = (.ok (native, g), journal')) : base.IsRead metadata := by
  unfold nativeForm at h
  generalize hdecode : base.decode metadata journal.supply = outcome at h
  obtain ⟨decoded, labels⟩ := outcome
  cases decoded with
  | error e => cases h
  | ok code => exact ⟨journal.supply, code, labels, hdecode⟩

/-- Only a body that can be read is built from. -/
theorem isRead_of_build {body : Body}
    (h : build metadata method base request journal = (.ok body, metadata', journal')) :
    base.IsRead metadata := by
  obtain ⟨stream, g, ⟨_, _, _, _, _, _, hnative, -⟩, -⟩ := comesTo_of_build h
  exact isRead_of_nativeForm hnative

/-- Building adds nothing to the metadata but strings, and nothing at all if the first body cannot
be read. -/
theorem metadata_build {result : Except HostError Body}
    (h : build metadata method base request journal = (result, metadata', journal')) :
    metadata' = metadata ∨ metadata'.Extends metadata ∧ base.IsRead metadata := by
  unfold build at h
  split at h
  · cases h
    exact Or.inl rfl
  · next native g₀ journal₀ hnative =>
    split at h
    · cases h
      exact Or.inl rfl
    · split at h
      · cases h
        exact Or.inl rfl
      · -- nothing before the encoder touches the metadata
        cases h
        exact Or.inr ⟨extends_encode rfl, isRead_of_nativeForm hnative⟩

end Host

end MethodWeave
