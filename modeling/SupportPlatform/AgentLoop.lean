import SupportPlatform.AgentRoutines
import SupportPlatform.PlanningLoop

/-! # Invariants of the planning loop

The rule by which a property is carried through the planning loop, alone or among others.
Most calls of a round are routine and are dealt with at once.  What is left are the three
places where the loop records something: a succeeded tool call, a rejected decision, and the
final response.  `LoopRule` asks for one specification of each, and hands over what the code
has checked before it (`ToolCall`, `Rejection`, `FinalCall`); `LoopRule.loop` is the invariant
of the whole loop, which never runs out of its fuel.
-/
namespace SupportPlatform
open Program ControlledAgentWorkflow

section
variable [Runtime] [Pydantic]

/-! ## What is known where a step is recorded -/

/-- **A succeeded tool call** that is about to be recorded. -/
structure ToolCall (wf : ControlledAgentWorkflow) (event : IncidentCreatedEvent) (grounded : Prop)
    (st : LoopState) (decision : PlannerDecision) (request : ToolRequest) (result : ToolResult) :
    Prop where
  room : st.steps.length < wf.limits.maxSteps
  action : decision.nextAction = .tool request.toolName request.arguments
  meets : MeetsRequirement (missingRequiredEvidence st.steps).head? decision
  keyed : ParsesDicts → decision.Keyed
  fresh : wf.repeated request st = false
  executed : Executed wf.limits.maxToolCalls request (wf.toolContext event st) grounded
    st.toolCalls result

/-- **A rejected decision** that is about to be recorded. -/
structure Rejection (wf : ControlledAgentWorkflow) (st : LoopState) (outcome : StepOutcome) :
    Prop where
  room : st.steps.length < wf.limits.maxSteps
  outcome : outcome ≠ .succeeded ∧ outcome ≠ .completed

/-- **A final response** that is about to be recorded. -/
structure FinalCall (wf : ControlledAgentWorkflow) (st : LoopState) (final : AgentFinalResponse) :
    Prop where
  room : st.steps.length < wf.limits.maxSteps
  complete : missingRequiredEvidence st.steps = []
  validated : Validated (fromKeys (succeededTools st.steps)) (evidenceReferences st.results) final

/-! ## The two ways to record a step -/

/-- A step is inserted, and the execution edited with it. -/
def recordStep (x : Uuid) (stepNumber : Nat) (txn : Transaction) (record : AgentStep)
    (edit : Execution → Timestamp → Execution) : Py AgentStep := withSession do
  flush [.insertStep record]
  match ← getExecution x with
  | none => throw ⟨.sqlalchemyError, "Agent execution disappeared"⟩
  | some execution =>
      let time ← now
      commit txn [.updateExecution execution (edit execution time)]
      refreshStep x stepNumber

omit [Pydantic] in
theorem persistToolStep_eq (x : Uuid) (stepNumber : Nat) (decision : PlannerDecision)
    (request : ToolRequest) (result : ToolResult) :
    persistToolStep x stepNumber decision request result =
      recordStep x stepNumber .toolStep (toolStepRecord x stepNumber decision request result)
        fun execution time => afterToolStep execution stepNumber request result time := rfl

omit [Pydantic] in
theorem persistRejectedStep_eq (x : Uuid) (stepNumber : Nat) (decision : PlannerDecision)
    (request : Option ToolRequest) (outcome : StepOutcome) :
    persistRejectedStep x stepNumber decision request outcome =
      recordStep x stepNumber .rejectedStep
        (rejectedStepRecord x stepNumber decision request outcome)
        fun execution time => afterRejectedStep execution stepNumber time := rfl

/-! ## The rule -/

variable {W S : Type} {sys : Program.System Resp W S}

/-- **What carries `J` through the loop** of the execution `x`: the routine calls keep it, and
so do the three ways to record a step. -/
structure LoopRule (d : Discipline sys) (w : W) (wf : ControlledAgentWorkflow) (x : Uuid)
    (event : IncidentCreatedEvent) (B : (o : Op) → Resp o → Prop) (L : Execution → Prop)
    (E : PyExc → Prop) (grounded : Prop) (J : LoopState → S → Prop) (Done : S → Prop)
    (X : PyExc → S → Prop) : Prop where
  assumes : Assumes x B L E grounded
  routine : ∀ st o, Routine L o → ∀ s s₁ r s₂, J st s → d.rely w s s₁ → d.inv s₁ →
    sys.act w o s₁ r s₂ → (d.inv s₂ ∧ d.guar w o s₁ r s₂) ∧ B o r ∧ J st s₂
  frame : ∀ st s repairCount lastError, J st s →
    J { st with repairCount := repairCount, lastError := lastError } s
  raises : ∀ st e s, J st s → E e → X e s
  toolStep : ∀ st s decision request result, J st s →
    ToolCall wf event grounded st decision request result →
    (persistToolStep x (st.steps.length + 1) decision request result).Safe d w
      (fun record => J (LoopState.record st record result
        (signature request.toolName.1 (.obj request.arguments)))) X s
  rejectedStep : ∀ st s decision request outcome, J st s → Rejection wf st outcome →
    (persistRejectedStep x (st.steps.length + 1) decision request outcome).Safe d w
      (fun record => J { st with steps := st.steps ++ [record] }) X s
  final : ∀ st s decision final, J st s → FinalCall wf st final →
    (wf.persistFinal x event decision final st.steps st.results).Safe d w (fun _ => Done) X s

namespace LoopRule
variable {d : Discipline sys} {w : W} {wf : ControlledAgentWorkflow} {x : Uuid}
  {event : IncidentCreatedEvent} {B : (o : Op) → Resp o → Prop} {L : Execution → Prop}
  {E : PyExc → Prop} {grounded : Prop} {J : LoopState → S → Prop} {Done : S → Prop}
  {X : PyExc → S → Prop} (h : LoopRule d w wf x event B L E grounded J Done X)
  {st : LoopState} {s : S}
include h

/-- A routine part of a round. -/
theorem of_routine {α : Type} {p : Py α} {Q : α → Prop} (hp : p.Conforms (Routine L) B Q E)
    (hs : J st s) : p.Safe d w (fun a t => Q a ∧ J st t) X s := by
  refine (Safe.of_conforms hp (h.routine st) hs).mono (fun _ _ ht => ht) fun e t ht => ?_
  exact h.raises st e t ht.2 ht.1

/-- A decision is rejected, and a repair attempt is left. -/
theorem reject (hs : J st s) {decision : PlannerDecision} {request : Option ToolRequest}
    {outcome : StepOutcome} {lastError exhausted : Text}
    (hexhausted : Text.storable exhausted = true) (hr : Rejection wf st outcome) :
    (wf.reject x decision request outcome lastError exhausted st).Safe d w
      (fun st' t => Advances wf.limits st st' ∧ J st' t) X s := by
  refine safe_bind.mpr ((h.rejectedStep st s decision request outcome hs hr).mono
    (fun record t ht => ?_) fun _ _ he => he)
  dsimp only
  have hkept := h.frame _ t (st.repairCount + 1) lastError ht
  split
  · exact h.raises _ _ t hkept (h.assumes.own _ (by simp [validationFailed, ownClasses]) hexhausted)
  · rename_i hleft
    exact ⟨.retry rfl rfl (Nat.le_of_not_lt hleft) (by simp), hkept⟩

/-- **The round of a decision for a tool.** -/
theorem toolTurn (hs : J st s) {decision : PlannerDecision} {request : ToolRequest}
    (hroom : st.steps.length < wf.limits.maxSteps)
    (haction : decision.nextAction = .tool request.toolName request.arguments)
    (hmeets : MeetsRequirement (missingRequiredEvidence st.steps).head? decision)
    (hkeyed : ParsesDicts → decision.Keyed) :
    (wf.toolTurn x event decision request st).Safe d w
      (fun st' t => Advances wf.limits st st' ∧ J st' t) X s := by
  have hrejected : ∀ outcome : StepOutcome, outcome ≠ .succeeded ∧ outcome ≠ .completed →
      Rejection wf st outcome := fun _ ho => ⟨hroom, ho⟩
  unfold ControlledAgentWorkflow.toolTurn
  cases hrepeated : wf.repeated request st with
  | true =>
      rw [if_pos rfl]
      exact h.reject hs (by decide) (hrejected _ (by decide))
  | false =>
      rw [if_neg Bool.false_ne_true]
      refine safe_bind.mpr ((h.of_routine (setStatus_conforms h.assumes (.inr rfl)) hs).mono
        (fun _ t ht => ?_) fun _ _ he => he)
      refine safe_bind.mpr ((h.of_routine
        (runRequest_conforms h.assumes wf event request st) ht.2).mono
          (fun out t ht => ?_) fun _ _ he => he)
      obtain ⟨hout, ht⟩ := ht
      cases out with
      | error exc =>
          refine safe_bind.mpr ((h.reject ht (by decide) (hrejected _ (by decide))).mono
            (fun st' u hu => ?_) fun _ _ he => he)
          refine safe_bind.mpr ((h.of_routine (setStatus_conforms h.assumes (.inl rfl)) hu.2).mono
            (fun _ v hv => ⟨hu.1, hv.2⟩) fun _ _ he => he)
      | ok result =>
          have hcall : ToolCall wf event grounded st decision request result :=
            ⟨hroom, haction, hmeets, hkeyed, hrepeated, hout result rfl⟩
          refine safe_bind.mpr ((h.toolStep st t decision request result ht hcall).mono
            (fun record u hu => ?_) fun _ _ he => he)
          exact ⟨.success hcall.executed.budget rfl rfl (by simp [LoopState.record]), hu⟩

/-- **The round of a decision for the final response.** -/
theorem finalTurn (hs : J st s) (decision : PlannerDecision)
    (hroom : st.steps.length < wf.limits.maxSteps) :
    (wf.finalTurn x event decision st).Safe d w
      (fun out t => (out = none ∧ Done t) ∨
        ∃ st', out = some st' ∧ missingRequiredEvidence st.steps ≠ [] ∧
          Advances wf.limits st st' ∧ J st' t) X s := by
  unfold ControlledAgentWorkflow.finalTurn
  dsimp only
  split
  · rename_i hmissing
    refine safe_bind.mpr ((h.reject hs (by decide) ⟨hroom, by decide⟩).mono
      (fun st' t ht => ?_) fun _ _ he => he)
    exact .inr ⟨st', rfl, hmissing, ht⟩
  · rename_i hmissing
    refine safe_bind.mpr ((h.of_routine
      (generateFinal_conforms h.assumes wf event st.steps st.results) hs).mono
        (fun final t ht => ?_) fun _ _ he => he)
    refine safe_bind.mpr ((h.final st t decision final ht.2
      ⟨hroom, not_not.mp hmissing, ht.1⟩).mono (fun _ u hu => ?_) fun _ _ he => he)
    exact .inl ⟨rfl, hu⟩

/-- **A round** of the loop: it ends the loop, or it advances. -/
theorem round (hs : J st s) (started : Rat) :
    (wf.round x event started st).Safe d w
      (fun out t => (out = none ∧ Done t) ∨
        ∃ st', out = some st' ∧ st.steps.length < wf.limits.maxSteps ∧
          Advances wf.limits st st' ∧ J st' t) X s := by
  refine safe_bind.mpr ((h.of_routine
    (checkBudgets_conforms h.assumes wf started st.steps.length) hs).mono
      (fun _ t ht => ?_) fun _ _ he => he)
  obtain ⟨hroom, ht⟩ := ht
  refine safe_bind.mpr ((h.of_routine (nextDecision_conforms h.assumes wf event st) ht).mono
    (fun out t ht => ?_) fun _ _ he => he)
  obtain ⟨⟨steps', results', toolCalls', signatures', lastError', repairCount'⟩, decision⟩ := out
  obtain ⟨hplanned, ht⟩ := ht
  obtain ⟨rfl, rfl, rfl, rfl, hrepair, hagain, hmeets, hkeyed, hfallback⟩ := hplanned
  have hkept := h.frame st t repairCount' lastError' ht
  cases decision with
  | none =>
      obtain ⟨hcount, hleft⟩ := hagain rfl
      exact .inr ⟨_, rfl, hroom, .retry rfl hcount hleft le_rfl, hkept⟩
  | some decision =>
      dsimp only
      cases haction : decision.nextAction with
      | tool name arguments =>
          -- a decision for a tool is the planner's own, and the state is as it was
          have hst : (⟨st.steps, st.results, st.toolCalls, st.signatures, lastError',
              repairCount'⟩ : LoopState) = st := by
            rcases hfallback decision rfl with hst | ⟨hfinal, -⟩
            · exact hst
            · cases haction.symm.trans hfinal
          rw [hst]
          have haction' : decision.nextAction = .tool (⟨name, arguments⟩ : ToolRequest).toolName
              (⟨name, arguments⟩ : ToolRequest).arguments := haction
          have hturn := h.toolTurn ht hroom haction' (hmeets decision rfl)
            fun hdicts => hkeyed hdicts decision rfl
          refine safe_map.mpr (hturn.mono (fun st' u hu => ?_) fun _ _ he => he)
          exact .inr ⟨st', rfl, hroom, hu⟩
      | final =>
          refine (h.finalTurn hkept decision hroom).mono (fun out u hu => ?_) fun _ _ he => he
          rcases hu with hdone | ⟨st', hout, hmissing, hadvances, hu⟩
          · exact .inl hdone
          · refine .inr ⟨st', hout, hroom, ?_, hu⟩
            rcases hfallback decision rfl with hst | ⟨-, hnil⟩
            · exact hst ▸ hadvances
            · exact absurd hnil hmissing

/-- **The loop**: with fuel for the rounds that are left it ends with the resolution stored,
or with an exception. -/
theorem loop (started : Rat) : ∀ (fuel : Nat) {st : LoopState} {s : S},
    st.repairCount ≤ wf.limits.repairAttempts → stepRounds wf.limits st ≤ fuel → J st s →
      (wf.loop x event started fuel st).Safe d w
        (fun out t => out = .completed ∧ Done t) X s
  | 0, st, _, hrepair, hfuel, _ => by
      have hpos : 0 < stepRounds wf.limits st := roundsLeft_pos hrepair
      omega
  | fuel + 1, st, s, hrepair, hfuel, hs => by
      refine safe_bind.mpr ((h.round hs started).mono (fun out t ht => ?_) fun _ _ he => he)
      rcases ht with ⟨rfl, hdone⟩ | ⟨st', rfl, hroom, hadvances, ht⟩
      · exact ⟨rfl, hdone⟩
      · have hless := hadvances.stepRounds_lt hroom hrepair
        exact loop started fuel hadvances.repairCount_le (by omega) ht

omit h [Pydantic] in
/-- The fuel of `resolve` is enough for every log. -/
theorem fuel_enough (wf : ControlledAgentWorkflow) (steps : List AgentStep) (results : Results) :
    stepRounds wf.limits (initialState steps results) ≤ wf.fuel := by
  have := Nat.mul_le_mul_right (wf.limits.repairAttempts + 1)
    (Nat.sub_le wf.limits.maxSteps steps.length)
  rw [fuel, Nat.succ_mul]
  simp only [stepRounds, roundsLeft, initialState]
  omega

/-- **The loop of `resolve`** on a log. -/
theorem loop_of_log (started : Rat) {steps : List AgentStep} {results : Results}
    (hs : J (initialState steps results) s) :
    (wf.loop x event started wf.fuel (initialState steps results)).Safe d w
      (fun out t => out = .completed ∧ Done t) X s :=
  h.loop started wf.fuel (Nat.zero_le _) (fuel_enough wf steps results) hs

end LoopRule

end

end SupportPlatform
