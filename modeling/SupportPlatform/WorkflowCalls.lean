import SupportPlatform.AgentWorkflow

/-! # Which calls the workflow makes

Most of the workflow's functions keep its own state: they read and write the execution, its
steps and its resolution, and look at the clocks.  `Housekeeping A` says that `A` allows the
calls this takes, and then each of these functions `Uses` calls of `A` only, whatever it is
answered.  What is left are the calls of the model, of the retriever and of the tools.
-/
namespace SupportPlatform
open Program ControlledAgentWorkflow

/-- A program that makes calls of `A` only, with what its result is known to be. -/
abbrev Uses {α : Type} (A : Op → Prop) (p : Py α) (Q : α → Prop) : Prop :=
  p.Conforms A (fun _ _ => True) Q fun _ => True

/-- **The calls by which the workflow keeps its state** are allowed. -/
structure Housekeeping (A : Op → Prop) : Prop where
  now : A .now
  perfCounter : ∀ since, A (.perfCounter since)
  execution : ∀ x, A (.select (.execution x))
  steps : ∀ x, A (.select (.steps x))
  step : ∀ x n, A (.select (.step x n))
  resolutionOf : ∀ i, A (.select (.resolutionOf i))
  flush : ∀ cs, A (.flush cs)
  commit : ∀ txn cs, A (.commit txn cs)
  closeSession : A .closeSession
  render : ∀ template values, A (.render template values)
  toolTimedOut : A .toolTimedOut

/-- A change that writes no result of a tool and no context of a resolution. -/
def Change.Plain : Change → Prop
  | .insertStep r => r.resultSummary = none
  | .insertResolution r => r.retrievedContext = none
  | .updateResolution l e => e.retrievedContext = l.retrievedContext
  | _ => True

/-- The values of the planner's prompt. -/
def plannerKeys : List Text :=
  ["tool_catalog", "limits", "incident_event", "step_history", "last_error"]

/-- **The plain part of it** is allowed: what renders no prompt, and writes plain changes. -/
structure Bookkeeping (A : Op → Prop) : Prop where
  now : A .now
  perfCounter : ∀ since, A (.perfCounter since)
  execution : ∀ x, A (.select (.execution x))
  steps : ∀ x, A (.select (.steps x))
  step : ∀ x n, A (.select (.step x n))
  resolutionOf : ∀ i, A (.select (.resolutionOf i))
  flush : ∀ cs : List Change, (∀ c ∈ cs, c.Plain) → A (.flush cs)
  commit : ∀ (txn : Transaction) (cs : List Change), (∀ c ∈ cs, c.Plain) → A (.commit txn cs)
  closeSession : A .closeSession
  toolTimedOut : A .toolTimedOut

section
variable [Runtime] [Pydantic]

/-- The evidence section of the resolver's prompt. -/
def evidenceSection (results : Results) : Text :=
  jsonText (.arr (results.map fun (number, result) => evidenceEntry number result)) 28000

/-- The citations section of the resolver's prompt. -/
def citationsSection (results : Results) : Text :=
  jsonText (.arr ((evidenceReferences results).filterMap citationEntry)) 30000

/-- The values of the resolver's prompt. -/
def resolverValues (event : IncidentCreatedEvent) (steps : List AgentStep) (results : Results) :
    Dict Text Text :=
  [("incident_event", event.modelDumpJson), ("evidence", evidenceSection results),
    ("citations", citationsSection results),
    ("tools_used", jsonText (.arr ((fromKeys (succeededTools steps)).map .str)) 30000)]

/-- The changes by which a final response is stored. -/
def ControlledAgentWorkflow.finalChanges (wf : ControlledAgentWorkflow) (x : Uuid)
    (decision : PlannerDecision) (final : AgentFinalResponse) (steps : List AgentStep)
    (results : Results) (execution : Execution) (resolution : Resolution) (context : List Json)
    (time : Timestamp) : List Change :=
  [.insertStep (finalStepRecord x (steps.length + 1) decision final (evidenceReferences results)),
    .updateResolution resolution (wf.completedResolution resolution final context time),
    .updateExecution execution (completedExecution execution (steps.length + 1) time)]

end

theorem Housekeeping.bookkeeping {A : Op → Prop} (h : Housekeeping A) : Bookkeeping A where
  now := h.now
  perfCounter := h.perfCounter
  execution := h.execution
  steps := h.steps
  step := h.step
  resolutionOf := h.resolutionOf
  flush cs _ := h.flush cs
  commit txn cs _ := h.commit txn cs
  closeSession := h.closeSession
  toolTimedOut := h.toolTimedOut

section
variable {α : Type} {A : Op → Prop}

theorem issue_uses {o : Op} (h : A o) : Uses A (issue o) fun _ => True :=
  issue_conforms h fun _ _ => trivial

theorem answer_uses (r : Except PyExc α) : Uses A (answer r) fun _ => True :=
  conforms_answer.mpr ⟨fun _ _ => trivial, fun _ _ => trivial⟩

theorem raiseIf_uses (condition : Prop) [Decidable condition] (e : PyExc) :
    Uses A (raiseIf condition e) fun _ => ¬ condition := raiseIf_conforms fun _ => trivial

theorem select_uses {query : Query} (h : A (.select query)) :
    Uses A (select query) fun _ => True :=
  select_conforms h (fun _ _ => trivial) fun _ _ => trivial

theorem plain_singleton {c : Change} (h : c.Plain) : ∀ d ∈ [c], d.Plain :=
  List.forall_mem_singleton.mpr h

theorem plain_execution {l e : Execution} : ∀ c ∈ [Change.updateExecution l e], c.Plain :=
  plain_singleton trivial

variable [Runtime] [Pydantic] {x : Uuid} (hA : Bookkeeping A) (wf : ControlledAgentWorkflow)
include hA

omit [Runtime] [Pydantic] in
theorem now_uses : Uses A now fun _ => True := issue_uses hA.now

omit [Runtime] [Pydantic] in
theorem perfCounterSince_uses (started : Rat) : Uses A (perfCounterSince started) fun _ => True :=
  ⟨hA.perfCounter _, fun _ _ => trivial⟩

omit hA [Runtime] [Pydantic] in
theorem flush_uses {cs : List Change} (h : A (.flush cs)) : Uses A (flush cs) fun _ => True :=
  (issue_uses h).bind fun _ _ => answer_uses _

section
omit [Runtime] [Pydantic]

theorem commit_uses (txn : Transaction) {cs : List Change} (hcs : ∀ c ∈ cs, c.Plain) :
    Uses A (commit txn cs) fun _ => True :=
  commit_conforms (hA.commit txn cs hcs) fun _ _ _ => trivial

theorem withSession_uses {body : Py α} {Q : α → Prop} (h : Uses A body Q) :
    Uses A (withSession body) Q := withSession_conforms hA.closeSession h

theorem loadSteps_uses : Uses A (loadSteps x) fun _ => True :=
  withSession_uses hA (select_uses (hA.steps x))

theorem setStatus_uses (status : AgentStatus) : Uses A (setStatus x status) fun _ => True := by
  refine withSession_uses hA ((select_uses (hA.execution x)).bind fun row _ => ?_)
  cases row with
  | none => trivial
  | some execution =>
      exact (now_uses hA).bind fun _ _ => commit_uses hA _ (plain_execution)

theorem recordModelCall_uses (durationMs : Rat) (inputChars outputChars : Nat)
    (usage : Option Json) :
    Uses A (recordModelCall x durationMs inputChars outputChars usage) fun _ => True := by
  refine withSession_uses hA ((select_uses (hA.execution x)).bind fun row _ => ?_)
  cases row with
  | none => trivial
  | some execution =>
      exact (now_uses hA).bind fun _ _ => commit_uses hA _ (plain_execution)

theorem refreshStep_uses (stepNumber : Nat) : Uses A (refreshStep x stepNumber) fun _ => True := by
  refine (select_uses (hA.step x stepNumber)).bind fun row _ => ?_
  cases row <;> trivial

/-- A round begins below the step budget. -/
theorem checkBudgets_uses (started : Rat) (stepCount : Nat) :
    Uses A (wf.checkBudgets x started stepCount) fun _ => stepCount < wf.limits.maxSteps := by
  refine (raiseIf_uses _ _).bind fun _ hsteps => ?_
  refine (perfCounterSince_uses hA started).bind fun elapsed _ => ?_
  refine (raiseIf_uses _ _).bind fun _ _ => ?_
  refine withSession_uses hA ((select_uses (hA.execution x)).bind fun row _ => ?_)
  cases row with
  | none => exact Nat.lt_of_not_le hsteps
  | some execution =>
      have htools : Uses A (wf.checkToolBudget x execution) fun _ => True := by
        unfold checkToolBudget
        split
        · exact (loadSteps_uses hA).bind fun _ _ => (raiseIf_uses _ _).mono (fun _ _ => trivial)
            fun _ h => h
        · trivial
      refine htools.bind fun _ _ => (now_uses hA).bind fun time _ => ?_
      exact (raiseIf_uses _ _).mono (fun _ _ => Nat.lt_of_not_le hsteps) fun _ h => h

end

omit hA [Runtime] [Pydantic] in
theorem renderPrompt_uses {template : PromptTemplate} {values : Dict Text Text}
    (h : A (.render template values)) : Uses A (renderPrompt template values) fun _ => True :=
  (issue_uses h).bind fun _ _ => answer_uses _

omit hA in
theorem buildPlannerPrompt_uses
    (hrender : ∀ values : Dict Text Text, values.keys = plannerKeys →
      A (.render wf.plannerPrompt values))
    (event : IncidentCreatedEvent) (steps : List AgentStep) (lastError : Text)
    (requiredTool : Option Text) :
    Uses A (wf.buildPlannerPrompt event steps lastError requiredTool) fun _ => True :=
  (renderPrompt_uses (hrender _ rfl)).bind fun _ _ => trivial

section
omit [Pydantic]

theorem persistToolStep_uses {stepNumber : Nat} {decision : PlannerDecision}
    {request : ToolRequest} {result : ToolResult}
    (h : A (.flush [.insertStep (toolStepRecord x stepNumber decision request result)])) :
    Uses A (persistToolStep x stepNumber decision request result) fun _ => True := by
  refine withSession_uses hA ((flush_uses h).bind fun _ _ =>
    (select_uses (hA.execution x)).bind fun row _ => ?_)
  cases row with
  | none => trivial
  | some execution =>
      exact (now_uses hA).bind fun _ _ =>
        (commit_uses hA _ (plain_execution)).bind fun _ _ => refreshStep_uses hA stepNumber

theorem persistRejectedStep_uses (stepNumber : Nat) (decision : PlannerDecision)
    (request : Option ToolRequest) (outcome : StepOutcome) :
    Uses A (persistRejectedStep x stepNumber decision request outcome) fun _ => True := by
  have hplain : ∀ c ∈ [Change.insertStep (rejectedStepRecord x stepNumber decision request
      outcome)], c.Plain := plain_singleton rfl
  refine withSession_uses hA ((flush_uses (hA.flush _ hplain)).bind fun _ _ =>
    (select_uses (hA.execution x)).bind fun row _ => ?_)
  cases row with
  | none => trivial
  | some execution =>
      exact (now_uses hA).bind fun _ _ =>
        (commit_uses hA _ (plain_execution)).bind fun _ _ => refreshStep_uses hA stepNumber

theorem persistFinal_uses (event : IncidentCreatedEvent) {decision : PlannerDecision}
    {final : AgentFinalResponse} {steps : List AgentStep} {results : Results}
    (h : ∀ execution resolution context time, retrievedContext results = .ok context →
      A (.commit .final (wf.finalChanges x decision final steps results execution resolution
        context time))) :
    Uses A (wf.persistFinal x event decision final steps results) fun _ => True := by
  have hcontext : Uses A (answer (retrievedContext results)) fun context =>
      retrievedContext results = .ok context :=
    conforms_answer.mpr ⟨fun _ h => h, fun _ _ => trivial⟩
  refine (now_uses hA).bind fun time _ => hcontext.bind fun context hcontext => ?_
  refine withSession_uses hA ((select_uses (hA.execution x)).bind fun execution _ =>
    (select_uses (hA.resolutionOf _)).bind fun resolution _ => ?_)
  cases execution with
  | none => trivial
  | some execution =>
      cases resolution with
      | none => trivial
      | some resolution =>
          exact commit_conforms (h execution resolution context time hcontext) fun _ _ _ => trivial

end

omit [Runtime] [Pydantic] in
theorem claimWith_uses (event : IncidentCreatedEvent) (time : Timestamp) {execution : Change}
    (h : execution.Plain) : Uses A (wf.claimWith event time execution) fun _ => True := by
  refine (flush_uses (hA.flush _ (plain_singleton h))).bind fun _ _ => ?_
  refine (select_uses (hA.resolutionOf _)).bind fun row _ => ?_
  cases row with
  | none => exact commit_uses hA _ (plain_singleton rfl)
  | some resolution => exact commit_uses hA _ (plain_singleton rfl)

omit [Runtime] [Pydantic] in
theorem claim_uses (hincident : ∀ i, A (.select (.incident i))) (hlock : ∀ i, A (.lockExecution i))
    (huuid : A .uuid4) (event : IncidentCreatedEvent) : Uses A (wf.claim event) fun _ => True := by
  refine (now_uses hA).bind fun time _ => withSession_uses hA ?_
  refine (select_uses (hincident _)).bind fun row _ => ?_
  cases row with
  | none => trivial
  | some incident =>
      have hfound : Uses A (lockExecution event.incidentId) fun _ => True :=
        (issue_uses (hlock _)).bind fun _ _ => answer_uses _
      refine hfound.bind fun row _ => ?_
      cases row with
      | none =>
          refine (issue_uses huuid).bind fun executionId _ => (now_uses hA).bind fun created _ => ?_
          exact (claimWith_uses hA wf event time (by trivial)).bind fun _ _ => trivial
      | some execution =>
          dsimp only
          split
          · trivial
          · split
            · trivial
            · exact (claimWith_uses hA wf event time (by trivial)).bind fun _ _ => trivial

omit [Pydantic] in
/-- A rejection takes a step and a repair attempt, of which there was one left. -/
theorem reject_uses (decision : PlannerDecision) (request : Option ToolRequest)
    (outcome : StepOutcome) (lastError exhausted : Text) (st : LoopState) :
    Uses A (wf.reject x decision request outcome lastError exhausted st) fun st' =>
      st'.steps.length = st.steps.length + 1 ∧ st'.toolCalls = st.toolCalls ∧
        st'.repairCount = st.repairCount + 1 ∧ st'.repairCount ≤ wf.limits.repairAttempts := by
  refine (persistRejectedStep_uses hA _ _ _ _).bind fun record _ => ?_
  dsimp only
  split
  · trivial
  · rename_i hleft
    exact ⟨List.length_append, rfl, rfl, Nat.le_of_not_lt hleft⟩

omit hA [Runtime] in
theorem toolOutput_uses (summary : Text) (data : Dict Text Json)
    (refs : List (Option EvidenceReference)) :
    Uses A (toolOutput summary data refs) fun _ => True := by
  unfold toolOutput
  split
  · trivial
  · split <;> trivial

omit [Runtime] [Pydantic] in
/-- What runs a tool makes no other calls than the tool. -/
theorem callTool_uses {name : Text} {call : Py ToolOutput} (hcall : Uses A call fun _ => True) :
    Uses A (ToolExecutor.callTool name call) fun _ => True := by
  have htimed : Uses A toolTimedOut fun _ => True := issue_uses hA.toolTimedOut
  refine htimed.bind fun _ _ => (raiseIf_uses _ _).bind fun _ _ => hcall.tryCatch fun e _ => ?_
  split <;> trivial

section
variable (hselect : ∀ query, A (.select query))
include hselect

omit hA [Runtime] [Pydantic] in
theorem requireIncident_uses (id : Int) : Uses A (requireIncident id) fun _ => True := by
  refine (select_uses (hselect _)).bind fun row _ => ?_
  cases row <;> trivial

/-- Tools read the tables and the retriever only. -/
theorem tool_uses (hretrieve : ∀ query limit category, A (.retrieve query limit category))
    {tool : AgentTool} (ht : tool ∈ ToolRegistry.tools) (input : tool.Input)
    (context : ToolContext) : Uses A (tool.execute input context) fun _ => True := by
  simp only [ToolRegistry.tools, List.mem_cons, List.not_mem_nil, or_false] at ht
  rcases ht with rfl | rfl | rfl | rfl | rfl | rfl
  · exact (withSession_uses hA (requireIncident_uses hselect _)).bind fun _ _ =>
      toolOutput_uses _ _ _
  · refine (issue_uses (hretrieve _ _ _)).bind fun _ _ => ?_
    exact (answer_uses _).bind fun _ _ => toolOutput_uses _ _ _
  · refine Conforms.bind (Q := fun _ => True) (withSession_uses hA ?_) fun found _ => ?_
    · exact (requireIncident_uses hselect _).bind fun _ _ =>
        (select_uses (hselect _)).bind fun _ _ => trivial
    · exact toolOutput_uses _ _ _
  · refine Conforms.bind (Q := fun _ => True) (withSession_uses hA ?_) fun found _ => ?_
    · exact (requireIncident_uses hselect _).bind fun _ _ => select_uses (hselect _)
    · exact toolOutput_uses _ _ _
  · refine (withSession_uses hA (select_uses (hselect _))).bind fun row _ => ?_
    dsimp only
    split
    · trivial
    · exact toolOutput_uses _ _ _
  · exact toolOutput_uses _ _ _

/-- **The executor** runs a tool below the budget only. -/
theorem execute_uses (hretrieve : ∀ query limit category, A (.retrieve query limit category))
    (maxToolCalls : Nat) (request : ToolRequest) (context : ToolContext) (currentToolCalls : Nat) :
    Uses A (ToolExecutor.execute maxToolCalls request context currentToolCalls)
      fun _ => currentToolCalls < maxToolCalls := by
  refine (raiseIf_uses _ _).bind fun _ hcalls => (raiseIf_uses _ _).bind fun _ _ => ?_
  cases hget : ToolRegistry.get? request.toolName.1 with
  | none => trivial
  | some tool =>
      dsimp only
      unfold ToolExecutor.runTool
      split
      · trivial
      · rename_i arguments _
        have hcall : Uses A (ToolExecutor.callTool tool.name (tool.execute arguments context))
            fun _ => True :=
          callTool_uses hA
            (tool_uses hA hselect hretrieve (List.mem_of_find?_eq_some hget) arguments context)
        refine (raiseIf_uses _ _).bind fun _ _ => (issue_uses (hA.perfCounter _)).bind
          fun started _ => hcall.bind fun output _ => (perfCounterSince_uses hA _).bind
            fun elapsed _ => ?_
        generalize (ToolExecutor.outputJson output).utf8Length = size
        exact (raiseIf_uses _ _).bind fun _ _ => (answer_uses _).mono
          (fun _ _ => Nat.lt_of_not_le hcalls) fun _ h => h

theorem runRequest_uses (hretrieve : ∀ query limit category, A (.retrieve query limit category))
    (event : IncidentCreatedEvent) (request : ToolRequest) (st : LoopState) :
    Uses A (wf.runRequest event request st)
      fun out => ∀ result, out = .ok result → st.toolCalls < wf.limits.maxToolCalls := by
  refine tryExcept_conforms ((execute_uses hA hselect hretrieve _ _ _ _).bind fun result hresult => ?_)
    (fun e _ _ => ?_) fun _ _ _ => trivial
  · exact fun _ _ => hresult
  · split
    · trivial
    · exact fun _ h => nomatch h

end

/-! ## Asking the model -/

section
variable (hchat : ∀ prompt model, A (.chat prompt model))
include hchat

theorem modelCall_uses (prompt : Text) (model : ResponseModel) :
    Uses A (modelCall x prompt model) fun _ => True := by
  refine (issue_uses (hA.perfCounter _)).bind fun started _ => ?_
  refine (issue_uses (hchat prompt model)).bind fun reply _ => ?_
  refine (perfCounterSince_uses hA started).bind fun elapsed _ => ?_
  exact (recordModelCall_uses hA _ _ _ _).bind fun _ _ => answer_uses _

theorem plan_uses (prompt : Text) (required : Option Text) :
    Uses A (plan x prompt required) fun _ => True := by
  unfold plan
  split
  · exact (modelCall_uses hA hchat _ _).bind fun _ _ => answer_uses _
  · split
    · exact (modelCall_uses hA hchat _ _).bind fun _ _ => answer_uses _
    · exact modelCall_uses hA hchat _ _

theorem nextDecision_uses
    (hrender : ∀ values : Dict Text Text, values.keys = plannerKeys →
      A (.render wf.plannerPrompt values))
    (event : IncidentCreatedEvent) (st : LoopState) :
    Uses A (wf.nextDecision x event st) fun _ => True := by
  refine (buildPlannerPrompt_uses wf hrender _ _ _ _).bind fun prompt _ => ?_
  refine tryExcept_conforms ((plan_uses hA hchat _ _).bind fun _ _ => trivial) (fun e _ _ => ?_)
    fun _ _ _ => trivial
  dsimp only
  split
  · trivial
  · split <;> trivial

theorem tryFinal_uses (actualTools : List Text) (references : List EvidenceReference)
    (prompt : Text) : Uses A (tryFinal x actualTools references prompt) fun _ => True := by
  refine tryExcept_conforms ((modelCall_uses hA hchat _ _).bind fun final _ =>
    (answer_uses (validateFinal final actualTools references)).bind fun _ _ => trivial)
    (fun _ _ _ => trivial) fun _ _ _ => trivial

theorem attemptFinal_uses (actualTools : List Text) (references : List EvidenceReference) :
    ∀ (attempts : Nat) (prompt detail : Text),
      Uses A (attemptFinal x actualTools references attempts prompt detail) fun _ => True
  | 0, _, _ => trivial
  | attempts + 1, prompt, _ => by
      refine (tryFinal_uses hA hchat actualTools references prompt).bind fun out _ => ?_
      cases out with
      | ok final => trivial
      | error e => exact attemptFinal_uses actualTools references attempts _ _

theorem generateFinal_uses {event : IncidentCreatedEvent} {steps : List AgentStep}
    {results : Results}
    (hrender : A (.render wf.resolverPrompt (resolverValues event steps results))) :
    Uses A (wf.generateFinal x event steps results) fun _ => True :=
  (renderPrompt_uses hrender).bind fun _ _ => attemptFinal_uses hA hchat _ _ _ _ _

/-- A final decision goes on with a repair, on the same results. -/
theorem finalTurn_uses {event : IncidentCreatedEvent} {decision : PlannerDecision} {st : LoopState}
    (hrender : A (.render wf.resolverPrompt (resolverValues event st.steps st.results)))
    (hcommit : ∀ final execution resolution context time,
      retrievedContext st.results = .ok context →
        A (.commit .final (wf.finalChanges x decision final st.steps st.results execution
          resolution context time))) :
    Uses A (wf.finalTurn x event decision st) fun _ => True := by
  unfold finalTurn
  dsimp only
  split
  · exact (reject_uses hA wf _ _ _ _ _ _).bind fun _ _ => trivial
  · exact (generateFinal_uses hA wf hchat hrender).bind fun final _ =>
      (persistFinal_uses hA wf _ (hcommit final)).bind fun _ _ => trivial

end

/-! ## Failures -/

omit [Runtime] [Pydantic] in
theorem recordFailure_uses (error : PyExc) (retryable : Bool) :
    Uses A (wf.recordFailure x error retryable) fun _ => True := by
  refine (now_uses hA).bind fun time _ => withSession_uses hA ?_
  refine (select_uses (hA.execution x)).bind fun row _ => ?_
  cases row with
  | none => trivial
  | some execution =>
      refine (flush_uses (hA.flush _ (plain_execution))).bind fun _ _ =>
        (select_uses (hA.resolutionOf _)).bind fun resolution _ => ?_
      cases resolution with
      | none => exact (commit_uses hA _ (List.forall_mem_nil _)).bind fun _ _ => trivial
      | some resolution => exact (commit_uses hA _ (plain_singleton (by rfl))).bind fun _ _ => trivial

omit [Runtime] [Pydantic] in
theorem recordTerminalFailure_uses (error : PyExc) :
    Uses A (wf.recordTerminalFailure x error) fun _ => True := by
  refine Conforms.bind (Q := fun _ => True) (withSession_uses hA ?_) fun found _ => ?_
  · refine (select_uses (hA.execution x)).bind fun row _ => ?_
    cases row with
    | none => trivial
    | some execution =>
        exact (commit_uses hA _ (plain_execution)).bind fun _ _ => trivial
  · split
    · exact (recordFailure_uses hA wf error false).bind fun _ _ => trivial
    · trivial

omit [Runtime] [Pydantic] in
theorem onFailure_uses (exc : PyExc) : Uses A (wf.onFailure x exc) fun _ => True := by
  unfold onFailure
  split
  · exact (recordFailure_uses hA wf exc true).bind fun _ _ => trivial
  · split
    · refine (recordFailure_uses hA wf exc false).bind fun terminal _ => ?_
      split <;> trivial
    · split
      · exact (recordTerminalFailure_uses hA wf exc).bind fun _ _ => trivial
      · trivial

end

/-! ## The whole workflow -/

section
variable [Runtime] [Pydantic] {A : Op → Prop} {x : Uuid} (hA : Housekeeping A)
  (wf : ControlledAgentWorkflow) (hselect : ∀ query, A (.select query))
  (hretrieve : ∀ query limit category, A (.retrieve query limit category))
  (hchat : ∀ prompt model, A (.chat prompt model)) (event : IncidentCreatedEvent)
include hA

include hselect hretrieve in
theorem toolTurn_uses (decision : PlannerDecision) (request : ToolRequest) (st : LoopState) :
    Uses A (wf.toolTurn x event decision request st) fun _ => True := by
  have hbook := hA.bookkeeping
  unfold toolTurn
  split
  · exact (reject_uses hbook wf _ _ _ _ _ _).mono (fun _ _ => trivial) fun _ h => h
  · refine (setStatus_uses hbook _).bind fun _ _ => ?_
    refine (runRequest_uses hbook wf hselect hretrieve event request st).bind fun out _ => ?_
    cases out with
    | error exc =>
        exact (reject_uses hbook wf _ _ _ _ _ _).bind fun _ _ =>
          (setStatus_uses hbook _).bind fun _ _ => trivial
    | ok result => exact (persistToolStep_uses hbook (hA.flush _)).bind fun _ _ => trivial

include hselect hretrieve hchat

theorem round_uses (started : Rat) (st : LoopState) :
    Uses A (wf.round x event started st) fun _ => True := by
  have hbook := hA.bookkeeping
  refine (checkBudgets_uses hbook wf started _).bind fun _ _ => ?_
  refine (nextDecision_uses hbook wf hchat (fun _ _ => hA.render _ _) event st).bind fun out _ => ?_
  obtain ⟨st, decision⟩ := out
  cases decision with
  | none => trivial
  | some decision =>
      dsimp only
      cases decision.nextAction with
      | tool name arguments =>
          exact (toolTurn_uses hA wf hselect hretrieve event decision _ st).bind fun _ _ => trivial
      | final =>
          exact finalTurn_uses hbook wf hchat (hA.render _ _) fun _ _ _ _ _ _ => hA.commit _ _

theorem loop_uses (started : Rat) (fuel : Nat) (st : LoopState) :
    Uses A (wf.loop x event started fuel st) fun _ => True := by
  induction fuel generalizing st with
  | zero => trivial
  | succ fuel ih =>
      refine (round_uses hA wf hselect hretrieve hchat event started st).bind fun out _ => ?_
      cases out with
      | none => trivial
      | some st => exact ih st

/-- **The workflow** keeps its state, reads the tables and the retriever, and asks the model. -/
theorem resolve_uses (hlock : ∀ i, A (.lockExecution i)) (huuid : A .uuid4) :
    Uses A (wf.resolve event) fun _ => True := by
  have hbook := hA.bookkeeping
  refine (claim_uses hbook wf (fun _ => hselect _) hlock huuid event).bind fun out _ => ?_
  obtain ⟨x, terminal⟩ := out
  cases terminal with
  | some outcome => trivial
  | none =>
      refine (issue_uses (hA.perfCounter _)).bind fun started _ => ?_
      refine Conforms.tryCatch (Y := fun _ => True) ?_ fun e _ => onFailure_uses hbook wf e
      exact (loadSteps_uses hbook).bind fun steps _ => (answer_uses _).bind fun results _ =>
        loop_uses hA wf hselect hretrieve hchat event started _ _

end

/-- The calls that a program uses are all that it can make. -/
theorem Uses.only {α : Type} {A : Op → Prop} {p : Py α} {Q : α → Prop} (h : Uses A p Q) :
    p.Only A := by
  induction p with
  | ret a => trivial
  | raise e => trivial
  | call o k ih => exact ⟨h.1, fun r => ih r (h.2 r trivial)⟩

end SupportPlatform

