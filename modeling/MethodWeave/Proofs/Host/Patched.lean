import MethodWeave.Proofs.Host.Building
/-!
What a patched body does.

A body that was built for a request runs as the first body does with the hooks of the request called
around it.
-/

namespace MethodWeave

open Machine (runFrame runBody invokeWithin)

namespace Hooks

/-- Call the hooks in front of a body and run the body. -/
def runFront (metadata : MetadataTables) (fuel : Nat) (callee : Callee) (method : MethodRef)
    (request : PatchRequest) (body : Body) (args : List Value) : ExecM (Frame × Option Value) := do
  callAll callee (frontCalls request.prefixes args)
  runFrame metadata fuel callee method body args

/-- Run a body with hooks called around it.  The hooks behind the body get the values that the
argument slots have when it returns. -/
def runAround (metadata : MetadataTables) (fuel : Nat) (callee : Callee) (method : MethodRef)
    (request : PatchRequest) (body : Body) (args : List Value) : ExecM (Option Value) := do
  let x ← runFront metadata fuel callee method request body args
  finish callee request.suffixes x

/-- Ends of a body that the wrapped body may go on from: all its steps are made, or there is code
behind it and it runs past its end or asks for the slot that the result is saved in. -/
inductive GoesOn (method : MethodRef) (request : PatchRequest) (body : Body) : Halt → Prop
  | outOfFuel : GoesOn method request body .outOfFuel
  | fellThrough : request.suffixes ≠ [] →
      GoesOn method request body (.failed (.fellThrough method))
  | badSlot (op : Opcode) (slot : UInt16) : request.suffixes ≠ [] → method.returnsValue = true →
      slot.toNat = body.locals.length →
      GoesOn method request body (.failed (.badSlot method op slot))

end Hooks

/-- What is built leaves the metadata alone and is read as the wrapped stream. -/
theorem readsAs_of_build {tables tables' : MetadataTables} {method : MethodRef} {base built : Body}
    {request : PatchRequest} {journal journal' : Journal}
    (h : Host.build tables method base request journal = (.ok built, tables', journal'))
    (hrewrite : request.rewrite? = none) (htables : tables.Reachable)
    (hhooks : ∀ hook ∈ request.prefixes ++ request.suffixes,
      tables.member? hook.token = some (.method hook))
    (hlocals : base.locals.length < 65536) (hsize : built.code.length < 0x80000000) :
    tables' = tables ∧ ∃ stream wrapped g g', g.locals = base.locals ∧ g'.locals = built.locals ∧
      Host.hooked method request stream g = .ok (wrapped, g') ∧ base.ReadsAs tables stream ∧
      built.ReadsAs tables wrapped ∧ (wrapped.flatMap (·.labels)).Nodup := by
  obtain ⟨code, labels, pass, stream, wrapped, g', hread, hsound, hg, hlower, hhooked, hencode⟩ :=
    build_cases h hrewrite
  have hknown : ∀ n ∈ wrapped, n.operand.Known tables g'.locals := by
    refine known_hooked hhooked hhooks (by rw [hg]; exact hlocals) ?_
    rw [hg]
    exact known_of_decode htables hread hlower
  obtain ⟨rfl, hlocals', hreads, hnodup⟩ :=
    readsAs_of_known hknown hencode (withinReach_of_encode hencode hsize)
  exact ⟨rfl, stream, wrapped, pass.generator, g', hg, hlocals'.symm, hhooked,
    (readsAs_of_decode hread hsound hlower).2, hreads, hnodup⟩

/-! ### Running what was built -/

section

variable {tables : MetadataTables} {method : MethodRef} {request : PatchRequest} {base built : Body}
  {stream wrapped : List NativeInstruction} {args : List Value} {callee : Callee}

/-- The calls in front of a body are made, and the run goes on at the body. -/
theorem followedBy_runFront {A : Halt → Prop} {γ : Type} {R : γ → Option Value → Prop}
    {K : Frame × Option Value → ExecM γ} {front rest : List NativeInstruction} {n m : Nat}
    (hbase : base.ReadsAs tables stream) (hbuilt : built.ReadsAs tables (front ++ rest))
    (hfront : Hooks.before method request.prefixes = .ok front)
    (hargs : args.length = method.argSlots) (hslots : method.argSlots ≤ 65536)
    (hcallee : callee.Steady)
    (hx : ∀ p q : Machine.Program, p.Runs stream → q.Runs (front ++ rest) →
      FollowedBy A R (Machine.loopFrame callee p n 0 (base.frame method args) >>= K)
        (Machine.loop callee q m front.length (built.frame method args))) :
    FollowedBy A R (Hooks.runFront tables n callee method request base args >>= K)
      (runBody tables (front.length + m) callee method built args) := by
  obtain ⟨codes, rfl, hmakes⟩ :=
    makes_of_before (built.frame method args) hfront hargs hslots
  -- the wrapped body is read, the calls in front are made, and the first body is read
  rw [Machine.runBody_eq, Hooks.runFront, bind_assoc]
  refine Machine.followedBy_readCode hbuilt fun code hq => ?_
  have hholds : (Machine.Program.ofInstructions code).Holds 0 codes.flatten :=
    hq.holds fun j k hk => by
      refine ⟨k, ?_, rfl, rfl⟩
      rw [Nat.zero_add, List.getElem?_append_left (List.getElem?_eq_some_iff.1 hk).1]
      exact hk
  refine followedBy_calls hcallee hmakes hholds ?_
  rw [runFrame, bind_assoc, Nat.zero_add]
  exact Machine.followedBy_of_readCode hbase fun code hp => hx _ _ hp hq

/-- **A wrapped body runs as the body with hooks called around it**, within a fixed number of
further steps, however calls are answered. -/
theorem followedBy_hooked {g g' : Generator} (hg : g.locals = base.locals)
    (hg' : g'.locals = built.locals) (h : Host.hooked method request stream g = .ok (wrapped, g'))
    (hbase : base.ReadsAs tables stream) (hbuilt : built.ReadsAs tables wrapped)
    (hnodup : (wrapped.flatMap (·.labels)).Nodup) (hlocals : base.locals.length < 65536)
    (hslots : method.argSlots < 65536) (hargs : args.length = method.argSlots) :
    ∃ before after, ∀ callee : Callee, callee.Steady → ∀ n,
      FollowedBy (Hooks.GoesOn method request base) (· = ·)
          (Hooks.runAround tables n callee method request base args)
          (runBody tables (before + (after + n)) callee method built args) ∧
        RunsOutWith (Hooks.runFront tables n callee method request base args)
          (runBody tables (before + n) callee method built args) := by
  have hslots' : method.argSlots ≤ 65536 := Nat.le_of_lt hslots
  obtain ⟨front, hfront, ⟨hnone, rfl, hgrow⟩ | ⟨hsome, hgrow, back, hback, rfl⟩⟩ := hooked_cases h
  · -- nothing behind the body: its returns stay
    have hframe : built.frame method args = base.frame method args := by
      rw [Body.frame, Body.frame, ← hg', hgrow, hg]
    refine ⟨front.length, 0, fun callee hcallee n => ⟨?_, ?_⟩⟩
    · rw [Hooks.runAround, hnone, Nat.zero_add]
      refine followedBy_runFront hbase hbuilt hfront hargs hslots' hcallee fun p q hp hq => ?_
      rw [hframe]
      exact followedBy_unsuffixed hp hq hnodup hcallee
    · refine FollowedBy.runsOutWith (.callDepth 0) (followedBy_runFront hbase hbuilt hfront hargs
        hslots' hcallee fun p q hp hq => ?_)
      rw [hframe]
      have hend := followedBy_to_end (.callDepth 0) n (base.frame method args) hp hq hnodup
        (standsIn_append front stream) hcallee []
      rwa [Frame.extend_nil] at hend
  · -- the result is saved behind the locals of the body
    let extra := method.returnType.toList.map fun t => Value.zeroOf t.name
    have hextra : extra.length = method.returnType.toList.length := List.length_map _
    have hframe : built.frame method args = (base.frame method args).extend extra := by
      rw [Body.frame, ← hg', hgrow, hg, List.map_append]
      rfl
    have hlength : (base.frame method args).locals.length = base.locals.length := List.length_map _
    -- of the slots behind the locals of the body only that of the result is there
    have hbeyond :
        (base.frame method args).AstrayBeyond (Hooks.GoesOn method request base) extra := by
      intro op slot hle hlt
      rw [hlength] at hle hlt
      cases hreturn : method.returnType with
      | none =>
        rw [hextra, hreturn] at hlt
        exact absurd hlt (Nat.not_lt.2 hle)
      | some type =>
        rw [hextra, hreturn] at hlt
        refine .badSlot op slot hsome (by rw [MethodRef.returnsValue, hreturn]; rfl) ?_
        exact Nat.le_antisymm (Nat.le_of_lt_succ hlt) hle
    -- the prefixes are run over first, so the stream is taken as what stands behind them
    have hassoc := List.append_assoc front (stream.map (Hooks.redirect ⟨g.nextLabel⟩))
      (Hooks.beginWith ⟨g.nextLabel⟩ (Hooks.openRegions stream) back)
    have hbuilt' := hbuilt
    rw [Hooks.enclosed, hassoc] at hbuilt'
    refine ⟨front.length, back.length, fun callee hcallee n => ⟨?_, ?_⟩⟩
    · refine followedBy_runFront hbase hbuilt' hfront hargs hslots' hcallee fun p q hp hq => ?_
      rw [hframe]
      rw [← hassoc] at hq
      exact followedBy_suffixed hp hq hnodup hcallee hback rfl (by rw [hlength, hg])
        (by rw [hg]; exact hlocals) hextra hargs hslots' hbeyond .outOfFuel (.fellThrough hsome)
    · refine FollowedBy.runsOutWith (.callDepth 0) (followedBy_runFront hbase hbuilt' hfront hargs
        hslots' hcallee fun p q hp hq => ?_)
      rw [hframe]
      rw [← hassoc] at hq
      exact followedBy_to_end _ _ _ hp hq hnodup (standsIn_enclosed front stream _ _) hcallee extra

end

/-- **A patched body runs as the first body with hooks called around it.**  Let a body be built for
a request on a method of a module, its hooks being registered there.  Then the metadata stays as it
was, and with a fixed number of further steps the run through what was built, calls being answered
in the module, makes the calls of the hooks in front, the calls of the first body and, if that
returns, the calls of the hooks behind, and it ends in the same way: with the same result, the same
thrown value or another error.  This holds of the calls that are made one by one, whatever is noted
of them, and of the native calls that they lead to.  Of a first body that goes on for ever the
wrapped one makes the calls step by step. -/
theorem runBody_build {m : Module} {tables' : MetadataTables} {method : MethodRef}
    {base built : Body} {request : PatchRequest} {journal journal' : Journal} {args : List Value}
    (hbuild : Host.build m.metadata method base request journal = (.ok built, tables', journal'))
    (hrewrite : request.rewrite? = none) (htables : m.metadata.Reachable)
    (hhooks : ∀ hook ∈ request.prefixes ++ request.suffixes,
      m.metadata.member? hook.token = some (.method hook))
    (hlocals : base.locals.length < 65536) (hslots : method.argSlots < 65536)
    (hargs : args.length = method.argSlots) (hsize : built.code.length < 0x80000000) :
    tables' = m.metadata ∧ ∃ before after, ∀ (fuel depth n : Nat)
      (note : MethodRef → List Value → List NativeCall),
      let callee := (invokeWithin m fuel depth).noting note
      FollowedBy (Hooks.GoesOn method request base) (· = ·)
          (Hooks.runAround m.metadata n callee method request base args)
          (runBody m.metadata (before + (after + n)) callee method built args) ∧
        RunsOutWith (Hooks.runFront m.metadata n callee method request base args)
          (runBody m.metadata (before + n) callee method built args) := by
  obtain ⟨heq, stream, wrapped, g, g', hg, hg', hhooked, hbase, hbuilt, hnodup⟩ :=
    readsAs_of_build hbuild hrewrite htables hhooks hlocals hsize
  obtain ⟨before, after, hruns⟩ :=
    followedBy_hooked hg hg' hhooked hbase hbuilt hnodup hlocals hslots hargs
  refine ⟨heq, before, after, fun fuel depth n note => ?_⟩
  exact hruns _ ((Machine.steady_invokeWithin m fuel depth).noting note) n

/-! ### A module with hooks -/

/-- A static method of the program. -/
def programMethod (row : Nat) (name : String) (parameters : List TypeRef)
    (returnType : Option TypeRef) : MethodRef :=
  ⟨.ofRow Token.methodDefTable row, ⟨.ofRow Token.typeDefTable 1, "Program"⟩, name, parameters,
    returnType, true⟩

/-- A hook that takes a number. -/
def enterHook : MethodRef := programMethod 1 "enter" [.int32] none

/-- A hook that takes a number and a result. -/
def leaveHook : MethodRef := programMethod 2 "leave" [.int32, .int32] none

/-- A hook that takes nothing. -/
def plainHook : MethodRef := programMethod 3 "plain" [] none

/-- A module that has the hooks and records their calls. -/
def hookModule : Module :=
  let m : Module := {}
  let m := m.setNative enterHook (.constant "enter" none)
  let m := m.setNative leaveHook (.constant "leave" none)
  m.setNative plainHook (.constant "plain" none)

theorem reachable_hookModule : hookModule.metadata.Reachable :=
  .register _ (.register _ (.register _ .empty))

/-- A method that gives the number behind its argument. -/
def nextMethod : MethodRef := programMethod 4 "next" [.int32] (some .int32)

/-- Its body loads the argument and 1, adds them and returns. -/
def nextBody : Body := { code := [0x02, 0x17, 0x58, 0x2a] }

/-- A hook in front of it and one behind it. -/
def nextRequest : PatchRequest :=
  { owner := "w", prefixes := [enterHook], suffixes := [leaveHook] }

/-- The method with its hooks, called with 6. -/
theorem runBody_build_nextMethod :
    ∃ built journal',
      Host.build hookModule.metadata nextMethod nextBody nextRequest {} =
        (.ok built, hookModule.metadata, journal') ∧
      ∃ before after, ∀ (fuel depth n : Nat) (note : MethodRef → List Value → List NativeCall),
        let callee := (invokeWithin hookModule fuel depth).noting note
        FollowedBy (Hooks.GoesOn nextMethod nextRequest nextBody) (· = ·)
            (Hooks.runAround hookModule.metadata n callee nextMethod nextRequest nextBody
              [.int32 6])
            (runBody hookModule.metadata (before + (after + n)) callee nextMethod built
              [.int32 6]) ∧
          RunsOutWith
            (Hooks.runFront hookModule.metadata n callee nextMethod nextRequest nextBody
              [.int32 6])
            (runBody hookModule.metadata (before + n) callee nextMethod built [.int32 6]) := by
  obtain ⟨built, tables', journal', hbuild, hsize⟩ : ∃ built tables' journal',
      Host.build hookModule.metadata nextMethod nextBody nextRequest {} =
        (.ok built, tables', journal') ∧ built.code.length < 0x80000000 :=
    ⟨_, _, _, rfl, by decide⟩
  obtain ⟨rfl, hruns⟩ := runBody_build hbuild rfl reachable_hookModule
    (by
      simp only [nextRequest, List.cons_append, List.nil_append, List.forall_mem_cons]
      exact ⟨rfl, rfl, List.forall_mem_nil _⟩)
    (by decide) (by decide) (rfl : [Value.int32 6].length = nextMethod.argSlots) hsize
  exact ⟨built, journal', hbuild, hruns⟩

/-- A method whose body keeps a number in a slot that it has not, and then calls the plain hook. -/
def slotMethod : MethodRef := programMethod 5 "slot" [] (some .int32)

def slotBody : Body := { code := [0x17, 0x0a, 0x28, 0x03, 0x00, 0x00, 0x06, 0x18, 0x2a] }

/-- What is built for it with a hook behind it, which gets the result. -/
def slotBuilt : Body :=
  { code := [0x17, 0x0a, 0x28, 0x03, 0x00, 0x00, 0x06, 0x18, 0x38, 0x00, 0x00, 0x00, 0x00,
      0xfe, 0x0e, 0x00, 0x00, 0xfe, 0x0c, 0x00, 0x00, 0x28, 0x01, 0x00, 0x00, 0x06,
      0xfe, 0x0c, 0x00, 0x00, 0x2a]
    locals := [.int32] }

/-- A method whose body does not return. -/
def openMethod : MethodRef := programMethod 6 "open" [] none

def openBody : Body := { code := [0x00] }

/-- What is built for it with a hook behind it. -/
def openBuilt : Body := { code := [0x00, 0x28, 0x03, 0x00, 0x00, 0x06, 0x2a] }

/-- Run a body of the module that has the hooks, from an empty trace. -/
def runAlone (method : MethodRef) (body : Body) : Except Halt (Option Value) × Trace :=
  (runBody hookModule.metadata 16 (invokeWithin hookModule 16 1) method body []).run {}

/-- Where less is said, the wrapped body does go on.  The slot for the result serves a body that has
no such slot, and a body that runs past its end runs into the code behind it; alone, both fail
before they have called anything. -/
theorem goesOn_slotMethod_openMethod :
    ((∃ journal', Host.build hookModule.metadata slotMethod slotBody
          { owner := "w", suffixes := [enterHook] } {} =
        (.ok slotBuilt, hookModule.metadata, journal')) ∧
      (runAlone slotMethod slotBody).1 = .error (.failed (.badSlot slotMethod ⟨0x0a⟩ 0)) ∧
      (runAlone slotMethod slotBody).2.calls = [] ∧
      (runAlone slotMethod slotBuilt).1 = .ok (some (.int32 2)) ∧
      (runAlone slotMethod slotBuilt).2.calls = [⟨"plain", []⟩, ⟨"enter", [.int32 2]⟩]) ∧
    (∃ journal', Host.build hookModule.metadata openMethod openBody
          { owner := "w", suffixes := [plainHook] } {} =
        (.ok openBuilt, hookModule.metadata, journal')) ∧
      (runAlone openMethod openBody).1 = .error (.failed (.fellThrough openMethod)) ∧
      (runAlone openMethod openBody).2.calls = [] ∧
      (runAlone openMethod openBuilt).1 = .ok none ∧
      (runAlone openMethod openBuilt).2.calls = [⟨"plain", []⟩] :=
  ⟨⟨⟨_, rfl⟩, rfl, rfl, rfl, rfl⟩, ⟨_, rfl⟩, rfl, rfl, rfl, rfl⟩

end MethodWeave
