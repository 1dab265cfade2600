import SupportPlatform.AgentTools
import SupportPlatform.Worker

/-! # The agent workflow

`ControlledAgentWorkflow` of `app/agent/workflow.py`, and the Ollama adapter through which it
asks the model server.  An execution is claimed, its steps are read back, and then the
planner's decisions are carried out one by one, each recorded as a step, until a final
response is stored for review or a failure is recorded.

The planning loop has no bound of its own in the source; here it is given fuel, and `fuel`
is a bound that the guardrails keep it below.
-/
namespace SupportPlatform
open Program

/-! ## The model server -/

/-- What a response model has as instances. -/
@[reducible] def ResponseModel.Instance : ResponseModel → Type
  | requiredIncidentDecision => RequiredDecision GetIncidentInput
  | requiredRetrievalDecision => RequiredDecision RetrieveRunbooksInput
  | plannerDecision => PlannerDecision
  | agentFinalResponse => AgentFinalResponse

section
variable [Runtime] [Pydantic]

namespace ResponseModel

/-- `model_validate` of a response model. -/
def modelValidate : (model : ResponseModel) → Json → Except PyExc model.Instance
  | requiredIncidentDecision =>
      RequiredDecision.modelValidate "RequiredIncidentDecision" "get_incident"
        GetIncidentInput.ofJson
  | requiredRetrievalDecision =>
      RequiredDecision.modelValidate "RequiredRetrievalDecision" "retrieve_runbooks"
        RetrieveRunbooksInput.ofJson
  | plannerDecision => PlannerDecision.modelValidate
  | agentFinalResponse => fun value =>
      validated "AgentFinalResponse" value (AgentFinalResponse.ofJson value)

/-- `model_dump(mode="json")` of an instance. -/
def modelDump : (model : ResponseModel) → model.Instance → Json
  | requiredIncidentDecision => RequiredDecision.modelDump "get_incident" (·.modelDump)
  | requiredRetrievalDecision => RequiredDecision.modelDump "retrieve_runbooks" (·.modelDump)
  | plannerDecision => PlannerDecision.modelDump
  | agentFinalResponse => AgentFinalResponse.modelDump

/-- `model_validate_json(content)`. -/
def modelValidateJson (model : ResponseModel) (content : Text) : Except PyExc model.Instance :=
  match Pydantic.parseJson content.utf8 with
  | some json => model.modelValidate json
  | none => .error (validationError "JSON" none)

end ResponseModel

namespace OllamaLLMProvider

/-- `last_usage` after a reply with this body. -/
def usageOf (body : Dict Text Json) : Option Json :=
  let counts : Dict Text Json :=
    ([("prompt_eval_count" : Text), "eval_count", "total_duration", "load_duration",
      "prompt_eval_duration", "eval_duration"] : List Text).filterMap fun key =>
        match body.get? key with
        | some (.int i) => some (key, .int i)
        | some (.float f) => some (key, .float f)
        | some (.bool b) => some (key, .bool b)
        | _ => none
  if counts = [] then none else some (.obj counts)

/-- The message content of a reply's body. -/
def contentOf (body : Dict Text Json) : Option Text :=
  match (body.get? "message").bind fun message => message.get? "content" with
  | some (.str content) => some content
  | _ => none

/-- `generate_structured(prompt, response_model)`, given the reply: `last_usage` afterwards,
and the instance or the exception. -/
def interpret (model : ResponseModel) : ChatReply → Option Json × Except PyExc model.Instance
  | .unreachable message =>
      (none, .error ⟨.providerUnavailableError, "Ollama request failed: " ++ message⟩)
  | .status code detail =>
      (none, .error ⟨if code = 429 ∨ 500 ≤ code then .providerUnavailableError
        else .providerResponseError,
        "Ollama returned HTTP " ++ Text.ofNat code ++ ": " ++ detail.take 500⟩)
  | .body none => (none, .error ⟨.providerResponseError, "Ollama returned non-JSON content"⟩)
  | .body (some (.obj body)) =>
      (usageOf body, match contentOf body with
        | none => .error ⟨.providerResponseError, "Ollama chat response has no message content"⟩
        | some content =>
            match model.modelValidateJson content with
            | .ok response => .ok response
            | .error exc =>
                if exc.isA .validationError then
                  .error ⟨.structuredOutputValidationError,
                    "Ollama structured output failed validation: " ++ exc.message⟩
                else .error exc)
  | .body (some _) =>
      (none, .error ⟨.providerResponseError, "Ollama returned a non-object JSON response"⟩)
  | .raised exc => (none, .error exc)

end OllamaLLMProvider

end

/-! ## Configuration -/

/-- `AgentLimits`.  The timeout of a tool is the environment's. -/
structure AgentLimits where
  maxSteps : Nat
  maxToolCalls : Nat
  maxRepeatedToolCalls : Nat
  maxRetrievalChunks : Nat
  maxDurationSeconds : Rat
  modelRetries : Nat
  repairAttempts : Nat

/-- What a `ControlledAgentWorkflow` is constructed from. -/
structure ControlledAgentWorkflow where
  limits : AgentLimits
  providerName : Text
  modelName : Text
  embeddingProvider : Text
  embeddingModel : Text
  retrieverTopK : Nat
  plannerPrompt : PromptTemplate
  resolverPrompt : PromptTemplate
  toolCatalog : Json

/-- What the planning loop holds in memory. -/
structure LoopState where
  steps : List AgentStep
  results : Results
  toolCalls : Nat
  /-- The signatures of the calls that succeeded, each as often as its counter says. -/
  signatures : List Text
  lastError : Text
  repairCount : Nat

namespace ControlledAgentWorkflow
variable [Runtime] [Pydantic] (wf : ControlledAgentWorkflow)

/-! ## Claiming an execution -/

/-- The new `AgentExecutionRecord` of an event. -/
def newExecution (event : IncidentCreatedEvent) (executionId : Uuid) (time created : Timestamp) :
    Execution :=
  { executionId := executionId
    incidentId := event.incidentId
    eventId := event.eventId
    status := .running
    provider := wf.providerName
    model := wf.modelName
    plannerPromptName := wf.plannerPrompt.name
    plannerPromptVersion := wf.plannerPrompt.version
    resolverPromptName := wf.resolverPrompt.name
    resolverPromptVersion := wf.resolverPrompt.version
    stepCount := 0
    toolCallCount := 0
    modelCallCount := 0
    retryCount := 0
    retrievedChunkCount := 0
    totalDurationMs := none
    providerDurationMs := 0
    retrievalDurationMs := 0
    toolDurationMs := 0
    approximateInputChars := 0
    approximateOutputChars := 0
    providerUsage := none
    errorType := none
    errorMessageSafe := none
    startedAt := some time
    completedAt := none
    createdAt := created
    updatedAt := time }

/-- An execution that is taken up again. -/
def resumedExecution (execution : Execution) (time : Timestamp) : Execution :=
  { execution with
    status := .running
    retryCount := execution.retryCount + 1
    errorType := none
    errorMessageSafe := none
    updatedAt := time }

/-- The new `AIResolutionRecord` of an event. -/
def newResolution (event : IncidentCreatedEvent) (time : Timestamp) : Resolution :=
  { id := 0
    incidentId := event.incidentId
    eventId := event.eventId
    status := .processing
    attemptCount := 1
    summary := none
    rootCause := none
    recommendedActions := none
    confidence := none
    citedSources := none
    evidenceSummary := none
    toolsUsed := none
    limitations := none
    escalationRequired := none
    humanReviewRecommended := none
    retrievedContext := none
    llmProvider := some wf.providerName
    llmModel := some wf.modelName
    embeddingProvider := some wf.embeddingProvider
    embeddingModel := some wf.embeddingModel
    promptName := some wf.resolverPrompt.name
    promptVersion := some wf.resolverPrompt.version
    errorMessage := none
    processingStartedAt := some time
    completedAt := none
    updatedAt := time }

/-- A resolution that is taken up again. -/
def resumedResolution (resolution : Resolution) (time : Timestamp) : Resolution :=
  { resolution with
    status := .processing
    attemptCount := resolution.attemptCount + 1
    processingStartedAt := some time
    updatedAt := time
    errorMessage := none }

/-- The second half of `_claim`: the execution is sent, and committed with the resolution. -/
def claimWith (event : IncidentCreatedEvent) (time : Timestamp) (execution : Change) : Py Unit := do
  flush [execution]
  match ← getResolution event.incidentId with
  | none => commit .claim [.insertResolution (wf.newResolution event time)]
  | some resolution =>
      commit .claim [.updateResolution resolution (resumedResolution resolution time)]

/-- `_claim(event)`. -/
def claim (event : IncidentCreatedEvent) : Py (Uuid × Option ResolutionWorkflowOutcome) := do
  let time ← now
  withSession do
    match ← getIncident event.incidentId with
    | none =>
        throw ⟨.retryableResolutionError,
          "Incident " ++ Text.ofInt event.incidentId ++ " is not visible in PostgreSQL"⟩
    | some _ =>
        match ← lockExecution event.incidentId with
        | none =>
            let executionId ← issue .uuid4
            let created ← now
            wf.claimWith event time
              (.insertExecution (wf.newExecution event executionId time created))
            return (executionId, none)
        | some execution =>
            if execution.status ∈ [.awaitingReview, .approved, .rejected, .completed] then
              return (execution.executionId, some .completed)
            else if execution.status ∈ [.failed, .cancelled] then
              return (execution.executionId, some .failed)
            else
              wf.claimWith event time (.updateExecution execution (resumedExecution execution time))
              return (execution.executionId, none)

/-! ## Reading the log back -/

/-- `_load_steps(execution_id)`. -/
def loadSteps (executionId : Uuid) : Py (List AgentStep) := withSession (loadStepRows executionId)

/-- One step of `_restore_results`. -/
def restoreResult (results : Results) (record : AgentStep) : Except PyExc Results :=
  if record.actionType = .tool ∧ record.outcome = .succeeded then
    match record.resultSummary with
    | none => .ok results
    | some summary => do
        let result ← ToolResult.modelValidate summary
        return results.set record.stepNumber result
  else .ok results

/-- `_restore_results(records)`. -/
def restoreResults (records : List AgentStep) : Except PyExc Results :=
  records.foldlM restoreResult []

/-- `_json(value, limit)`. -/
def jsonText (value : Json) (limit : Nat) : Text := (Json.dumps value).take limit

/-- `_signature(tool_name, arguments)`. -/
def signature (toolName : Text) (arguments : Json) : Text :=
  toolName ++ ':' :: jsonText (sanitizeValue arguments) 30000

/-- The tools of the succeeded steps, in order. -/
def succeededTools (steps : List AgentStep) : List Text :=
  (steps.filter fun step => step.outcome = .succeeded).filterMap fun step =>
    step.toolName.filter fun name => name ≠ []

/-- `_missing_required_evidence(steps)`. -/
def missingRequiredEvidence (steps : List AgentStep) : List Text :=
  ["get_incident", "retrieve_runbooks"].filter fun name => name ∉ succeededTools steps

/-- The state with which the loop starts on a log. -/
def initialState (steps : List AgentStep) (results : Results) : LoopState :=
  let succeeded := steps.filter fun step => step.outcome = .succeeded
  { steps := steps
    results := results
    toolCalls := succeeded.length
    signatures := succeeded.filterMap fun step =>
      (step.toolName.filter fun name => name ≠ []).map fun name =>
        signature name (step.sanitizedArguments.getD (.obj []))
    lastError := "none"
    repairCount := 0 }

/-! ## Budgets and status -/

/-- `_set_status(execution_id, status)`. -/
def setStatus (executionId : Uuid) (status : AgentStatus) : Py Unit := withSession do
  match ← getExecution executionId with
  | none => throw ⟨.sqlalchemyError, "Agent execution disappeared"⟩
  | some execution =>
      let time ← now
      commit .setStatus
        [.updateExecution execution { execution with status := status, updatedAt := time }]

/-- An `AgentBudgetExceededError`. -/
def budgetExceeded (message : Text) : PyExc := ⟨.agentBudgetExceededError, message⟩

/-- The check of the tool budget, which may be used up once the evidence is there. -/
def checkToolBudget (executionId : Uuid) (execution : Execution) : Py Unit :=
  if wf.limits.maxToolCalls ≤ execution.toolCallCount then do
    let steps ← loadSteps executionId
    raiseIf (missingRequiredEvidence steps ≠ [])
      (budgetExceeded "Tool budget exhausted before required evidence was gathered")
  else return

/-- `_check_time_and_step_budgets(execution_id, started, step_count)`. -/
def checkBudgets (executionId : Uuid) (started : Rat) (stepCount : Nat) : Py Unit := do
  raiseIf (wf.limits.maxSteps ≤ stepCount) (budgetExceeded "Maximum agent-step budget reached")
  let elapsed ← perfCounterSince started
  raiseIf (wf.limits.maxDurationSeconds ≤ elapsed)
    (budgetExceeded "Maximum agent duration reached")
  withSession do
    match ← getExecution executionId with
    | none => return
    | some execution =>
        wf.checkToolBudget executionId execution
        let time ← now
        raiseIf (wf.limits.maxDurationSeconds ≤
            ((time - (execution : Execution).createdAt : Int) : Rat) / 1000000)
          (budgetExceeded "Maximum total agent execution duration reached")

/-! ## Asking the model -/

/-- The execution after a model call. -/
def afterModelCall (execution : Execution) (durationMs : Rat) (inputChars outputChars : Nat)
    (usage : Option Json) (time : Timestamp) : Execution :=
  { execution with
    modelCallCount := execution.modelCallCount + 1
    providerDurationMs := execution.providerDurationMs + .finite durationMs
    approximateInputChars := execution.approximateInputChars + inputChars
    approximateOutputChars := execution.approximateOutputChars + outputChars
    providerUsage := usage
    updatedAt := time }

/-- The metadata of a model call, as `_model_call` records it in any case. -/
def recordModelCall (executionId : Uuid) (durationMs : Rat) (inputChars outputChars : Nat)
    (usage : Option Json) : Py Unit := withSession do
  match ← getExecution executionId with
  | none => return
  | some execution =>
      let time ← now
      commit .modelMetadata [.updateExecution execution
        (afterModelCall execution durationMs inputChars outputChars usage time)]

/-- `_model_call(execution_id, prompt, response_model)`. -/
def modelCall (executionId : Uuid) (prompt : Text) (model : ResponseModel) :
    Py model.Instance := do
  let started ← perfCounter
  let reply ← issue (.chat prompt model)
  let (usage, response) := OllamaLLMProvider.interpret model reply
  let outputChars := match response with
    | .ok response => (model.modelDump response).modelDumpJson.length
    | .error _ => 0
  let elapsed ← perfCounterSince started
  recordModelCall executionId (elapsed * 1000) prompt.length outputChars
    (usage.map sanitizeValue)
  answer response

/-- A step as the planner is shown it. -/
def historyEntry (step : AgentStep) : Json :=
  .obj [("step", .int step.stepNumber),
    ("action", .str step.actionType.value),
    ("tool", Json.ofText step.toolName),
    ("arguments", step.sanitizedArguments.getD .null),
    ("result", step.resultSummary.getD .null),
    ("outcome", .str step.outcome.value)]

/-- `prompt.render(values)`. -/
def renderPrompt (template : PromptTemplate) (values : Dict Text Text) : Py Text := do
  answer (← issue (.render template values))

/-- `_build_planner_prompt(event, steps, last_error, required_tool)`. -/
def buildPlannerPrompt (event : IncidentCreatedEvent) (steps : List AgentStep) (lastError : Text)
    (requiredTool : Option Text) : Py Text := do
  let prompt ← renderPrompt wf.plannerPrompt
    [("tool_catalog", jsonText wf.toolCatalog 18000),
      ("limits", jsonText (.obj [("max_steps", .int wf.limits.maxSteps),
        ("max_tool_calls", .int wf.limits.maxToolCalls),
        ("max_repeated_tool_calls", .int wf.limits.maxRepeatedToolCalls),
        ("remaining_steps", .int (wf.limits.maxSteps - steps.length))]) 30000),
      ("incident_event", event.modelDumpJson),
      ("step_history", jsonText (.arr (steps.map historyEntry)) 24000),
      ("last_error", lastError.take 1000)]
  return prompt ++ match requiredTool with
    | some tool => "\nSERVER POLICY: The next action must be the typed tool " ++ tool ++
        ". Final output is not eligible yet."
    | none => []

/-- `_plan(execution_id, prompt, required_tool)`. -/
def plan (executionId : Uuid) (prompt : Text) (requiredTool : Option Text) :
    Py PlannerDecision := do
  if requiredTool = some ("get_incident" : Text) then
    let raw ← modelCall executionId prompt .requiredIncidentDecision
    answer (PlannerDecision.modelValidate (ResponseModel.requiredIncidentDecision.modelDump raw))
  else if requiredTool = some ("retrieve_runbooks" : Text) then
    let raw ← modelCall executionId prompt .requiredRetrievalDecision
    answer (PlannerDecision.modelValidate (ResponseModel.requiredRetrievalDecision.modelDump raw))
  else modelCall executionId prompt .plannerDecision

/-- `_grounded_final_fallback(...)`. -/
def groundedFinalFallback : PlannerDecision where
  goal := ⟨"Produce a grounded resolution from validated evidence.", by decide⟩
  nextAction := .final
  reasonSummary := ⟨"Required incident and runbook evidence is available.", by decide⟩
  expectedEvidence := ⟨"A cited resolution using only the validated evidence.", by decide⟩

/-- An `AgentValidationError`. -/
def validationFailed (message : Text) : PyExc := ⟨.agentValidationError, message⟩

/-- The planning of one round: the state afterwards, and the decision, or none when the
planner is to be asked again. -/
def nextDecision (executionId : Uuid) (event : IncidentCreatedEvent) (st : LoopState) :
    Py (LoopState × Option PlannerDecision) := do
  let required := missingRequiredEvidence st.steps
  let prompt ← wf.buildPlannerPrompt event st.steps st.lastError required.head?
  tryExcept
    (do
      let decision ← plan executionId prompt required.head?
      return (st, some decision))
    [.providerResponseError] fun exc =>
      let st := { st with repairCount := st.repairCount + 1, lastError := exc.safeError }
      if st.repairCount ≤ wf.limits.repairAttempts then return (st, none)
      else if required ≠ [] ∨ exc.isA .structuredOutputValidationError = false then
        throw (validationFailed "Planner output remained invalid after repair attempts")
      else return (st, some groundedFinalFallback)

/-! ## Recording steps -/

/-- The row as it is after the commit. -/
def refreshStep (executionId : Uuid) (stepNumber : Nat) : Py AgentStep := do
  match ← select (.step executionId stepNumber) with
  | some record => return record
  | none => throw ⟨.sqlalchemyError, "Could not refresh instance"⟩

/-- The `AgentStepRecord` of a succeeded tool call. -/
def toolStepRecord (executionId : Uuid) (stepNumber : Nat) (decision : PlannerDecision)
    (request : ToolRequest) (result : ToolResult) : AgentStep :=
  { executionId := executionId
    stepNumber := stepNumber
    actionType := .tool
    toolName := some request.toolName.1
    sanitizedArguments := some (sanitizeValue (.obj request.arguments))
    resultSummary := some (sanitizeValue result.modelDump)
    evidenceReferences := result.evidenceReferences.1.map (·.modelDump)
    reasonSummary := decision.reasonSummary.1
    expectedEvidence := decision.expectedEvidence.1
    outcome := .succeeded
    durationMs := result.durationMs.1 }

/-- The execution after a succeeded tool call. -/
def afterToolStep (execution : Execution) (stepNumber : Nat) (request : ToolRequest)
    (result : ToolResult) (time : Timestamp) : Execution :=
  { execution with
    status := .running
    stepCount := stepNumber
    toolCallCount := execution.toolCallCount + 1
    toolDurationMs := execution.toolDurationMs + result.durationMs.1
    retrievalDurationMs :=
      if request.toolName.1 = "retrieve_runbooks" then
        execution.retrievalDurationMs + result.durationMs.1
      else execution.retrievalDurationMs
    retrievedChunkCount := execution.retrievedChunkCount +
      (fromKeys ((result.evidenceReferences.1.filter fun r => r.evidenceType = .runbook).map
        fun r => r.referenceId.1)).length
    updatedAt := time }

/-- `_persist_tool_step(execution_id, step_number, decision, request, result)`. -/
def persistToolStep (executionId : Uuid) (stepNumber : Nat) (decision : PlannerDecision)
    (request : ToolRequest) (result : ToolResult) : Py AgentStep := withSession do
  flush [.insertStep (toolStepRecord executionId stepNumber decision request result)]
  match ← getExecution executionId with
  | none => throw ⟨.sqlalchemyError, "Agent execution disappeared"⟩
  | some execution =>
      let time ← now
      commit .toolStep
        [.updateExecution execution (afterToolStep execution stepNumber request result time)]
      refreshStep executionId stepNumber

/-- The `AgentStepRecord` of a rejected decision. -/
def rejectedStepRecord (executionId : Uuid) (stepNumber : Nat) (decision : PlannerDecision)
    (request : Option ToolRequest) (outcome : StepOutcome) : AgentStep :=
  { executionId := executionId
    stepNumber := stepNumber
    actionType := decision.nextAction.type
    toolName := request.map fun r => r.toolName.1
    sanitizedArguments := request.map fun r => sanitizeValue (.obj r.arguments)
    resultSummary := none
    evidenceReferences := []
    reasonSummary := decision.reasonSummary.1
    expectedEvidence := decision.expectedEvidence.1
    outcome := outcome
    durationMs := 0 }

/-- The execution after a rejected decision. -/
def afterRejectedStep (execution : Execution) (stepNumber : Nat) (time : Timestamp) : Execution :=
  { execution with
    status := .running
    stepCount := stepNumber
    updatedAt := time }

/-- `_persist_rejected_step(execution_id, step_number, decision, request, outcome)`. -/
def persistRejectedStep (executionId : Uuid) (stepNumber : Nat) (decision : PlannerDecision)
    (request : Option ToolRequest) (outcome : StepOutcome) : Py AgentStep := withSession do
  flush [.insertStep (rejectedStepRecord executionId stepNumber decision request outcome)]
  match ← getExecution executionId with
  | none => throw ⟨.sqlalchemyError, "Agent execution disappeared"⟩
  | some execution =>
      let time ← now
      commit .rejectedStep
        [.updateExecution execution (afterRejectedStep execution stepNumber time)]
      refreshStep executionId stepNumber

/-! ## Tool turns -/

/-- The state after a rejected decision; the repair attempts may be exhausted with it. -/
def reject (executionId : Uuid) (decision : PlannerDecision) (request : Option ToolRequest)
    (outcome : StepOutcome) (lastError exhausted : Text) (st : LoopState) : Py LoopState := do
  let record ← persistRejectedStep executionId (st.steps.length + 1) decision request outcome
  let st := { st with
    steps := st.steps ++ [record]
    repairCount := st.repairCount + 1
    lastError := lastError }
  if wf.limits.repairAttempts < st.repairCount then throw (validationFailed exhausted)
  else return st

/-- The `ToolContext` of the loop. -/
def toolContext (event : IncidentCreatedEvent) (st : LoopState) : ToolContext where
  incidentId := event.incidentId
  retrieverTopK := wf.retrieverTopK
  classification := some event.classification.value
  maxRetrievalChunks := wf.limits.maxRetrievalChunks
  previousResults := st.results

/-- The state after a succeeded tool call. -/
def LoopState.record (st : LoopState) (record : AgentStep) (result : ToolResult)
    (signature : Text) : LoopState :=
  { steps := st.steps ++ [record]
    results := st.results.set record.stepNumber result
    toolCalls := st.toolCalls + 1
    signatures := st.signatures ++ [signature]
    lastError := "none"
    repairCount := 0 }

/-- Whether the guardrail against repeated calls stops a request. -/
def repeated (request : ToolRequest) (st : LoopState) : Bool :=
  wf.limits.maxRepeatedToolCalls ≤
      st.signatures.count (signature request.toolName.1 (.obj request.arguments)) ||
    (request.toolName.1 = "retrieve_runbooks" && st.steps.any fun step =>
      step.toolName = some ("retrieve_runbooks" : Text) && step.outcome = .succeeded)

/-- The execution of a request by a tool: its result, or the error that rejects it. -/
def runRequest (event : IncidentCreatedEvent) (request : ToolRequest) (st : LoopState) :
    Py (Except PyExc ToolResult) :=
  tryExcept
    (do
      let result ← ToolExecutor.execute wf.limits.maxToolCalls request (wf.toolContext event st)
        st.toolCalls
      return .ok result)
    [.toolExecutionError, .agentValidationError] fun exc =>
      if exc.isA .toolTimeoutError then throw exc else return .error exc

/-- The round of a decision for a tool. -/
def toolTurn (executionId : Uuid) (event : IncidentCreatedEvent) (decision : PlannerDecision)
    (request : ToolRequest) (st : LoopState) : Py LoopState := do
  if wf.repeated request st then
    wf.reject executionId decision (some request) .repeatedToolCall
      "That exact tool call already ran; choose new evidence or final."
      "Repeated tool-call guardrail triggered" st
  else
    setStatus executionId .waitingForTool
    match ← wf.runRequest event request st with
    | .error exc =>
        let st ← wf.reject executionId decision (some request) .toolRequestRejected exc.safeError
          "Tool request remained invalid after repair attempts" st
        setStatus executionId .running
        return st
    | .ok result =>
        let record ← persistToolStep executionId (st.steps.length + 1) decision request result
        return LoopState.record st record result
          (signature request.toolName.1 (.obj request.arguments))

/-! ## The final response -/

/-- `_evidence_references(results)`. -/
def evidenceReferences (results : Results) : List EvidenceReference :=
  distinctReferences (results.values.flatMap fun r => r.evidenceReferences.1)

/-- A part of a dictionary key: numbers that are equal are the same key, and a list or a
dictionary cannot be one. -/
def hashKey : Json → Except PyExc Json
  | .arr _ => .error ⟨.typeError, "unhashable type: 'list'"⟩
  | .obj _ => .error ⟨.typeError, "unhashable type: 'dict'"⟩
  | .bool b => .ok (.int (if b then 1 else 0))
  | .float (.finite q) => .ok (if q.den = 1 then .int q.num else .float (.finite q))
  | value => .ok value

/-- One chunk of `_retrieved_context`. -/
def addChunk (chunks : Dict (Json × Json) Json) (item : Json) :
    Except PyExc (Dict (Json × Json) Json) :=
  match item.get? "source_id", item.get? "chunk_id" with
  | none, _ | _, none | some .null, _ | _, some .null => .ok chunks
  | some sourceId, some chunkId => do
      let sourceKey ← hashKey sourceId
      let chunkKey ← hashKey chunkId
      return chunks.set (sourceKey, chunkKey) item

/-- The raw chunks of a result. -/
def rawChunks (result : ToolResult) : List Json :=
  match result.data.get? "chunks" with
  | some (.arr items) => items
  | _ => []

/-- `_retrieved_context(results)`. -/
def retrievedContext (results : Results) : Except PyExc (List Json) := do
  let chunks ← (results.values.flatMap rawChunks).foldlM addChunk []
  return chunks.values

/-- The evidence of a step as the resolver is shown it. -/
def evidenceEntry (number : Nat) (result : ToolResult) : Json :=
  .obj [("step", .int number),
    ("tool", .str result.toolName.1),
    ("summary", .str result.summary.1),
    ("data", .obj result.data),
    ("evidence_references", .arr (result.evidenceReferences.1.map (·.modelDump)))]

/-- The citation of a runbook reference with a source and a chunk. -/
def citationEntry (reference : EvidenceReference) : Option Json :=
  match reference.evidenceType, reference.sourceId, reference.chunkId with
  | .runbook, some sourceId, some chunkId =>
      if sourceId.1 ≠ [] then
        some (.obj [("source_id", .str sourceId.1), ("chunk_id", .int chunkId.1)])
      else none
  | _, _, _ => none

/-- The pairs that may be cited. -/
def allowedPairs (references : List EvidenceReference) : List (Option Text × Option Int) :=
  (references.filter fun r => r.evidenceType = .runbook).map (·.pair)

/-- A pair of a citation as it is printed. -/
def pairText (c : SourceCitation) : Text :=
  "(" ++ Text.repr c.sourceId.1 ++ ", " ++ Text.ofInt c.chunkId.1 ++ ")"

/-- The fragments of the remediation guardrail. -/
def dangerous : List Text :=
  ["rm -rf", "drop table", "delete from", "format c:", "i restarted", "we fixed"]

/-- `min(confidence, 0.5)`. -/
def capped (confidence : Float64) : Float64 :=
  if confidence.le (.finite (1 / 2)) then confidence else .finite (1 / 2)

/-- The copy of a final response that is returned. -/
def groundFinal (final : AgentFinalResponse) (actualTools : List Text) (allowed : Bool) :
    AgentFinalResponse :=
  if allowed then { final with toolsUsed := actualTools }
  else { final with
    toolsUsed := actualTools
    confidence := capped final.confidence
    escalationRequired := true
    humanReviewRecommended := true
    limitations := if final.limitations = [] then
      ["No citation-addressable runbook evidence was available."] else final.limitations }

/-- `_validate_final(final, actual_tools, references)`. -/
def validateFinal (final : AgentFinalResponse) (actualTools : List Text)
    (references : List EvidenceReference) : Except PyExc AgentFinalResponse :=
  let unknownTools := final.toolsUsed.filter fun t => t ∉ actualTools
  let allowed := allowedPairs references
  let invalid := final.citedSources.filter fun c => c.pair ∉ allowed
  if ¬ final.toolsUsed.Nodup then
    .error (validationFailed "Final tools_used contains duplicates")
  else if unknownTools ≠ [] then
    .error (validationFailed ("Final output claimed tools that did not run: " ++
      PromptTemplate.sortedNames unknownTools))
  else if ¬ (final.citedSources.map (·.pair)).Nodup then
    .error (validationFailed "Final citations contain duplicates")
  else if invalid ≠ [] then
    .error (validationFailed ("Final citations are not in evidence: " ++
      Text.reprList (invalid.map pairText)))
  else if allowed ≠ [] ∧ final.citedSources = [] then
    .error (validationFailed "Final output omitted available runbook citations")
  else if final.recommendedActions.any fun action =>
      dangerous.any fun fragment => fragment.occursIn action.lower then
    .error (validationFailed "Final action violated the remediation guardrail")
  else .ok (groundFinal final actualTools (allowed ≠ []))

/-- One attempt at a final response, or the error that it is answered with. -/
def tryFinal (executionId : Uuid) (actualTools : List Text) (references : List EvidenceReference)
    (prompt : Text) : Py (Except PyExc AgentFinalResponse) :=
  tryExcept
    (do
      let final ← modelCall executionId prompt .agentFinalResponse
      let final ← answer (validateFinal final actualTools references)
      return .ok final)
    [.providerResponseError, .agentValidationError] fun exc => return .error exc

/-- The attempts at a final response, so many at most. -/
def attemptFinal (executionId : Uuid) (actualTools : List Text)
    (references : List EvidenceReference) : Nat → Text → Text → Py AgentFinalResponse
  | 0, _, detail =>
      throw (validationFailed
        ("Final response remained invalid after repair attempts: " ++ detail))
  | attempts + 1, prompt, _ => do
      match ← tryFinal executionId actualTools references prompt with
      | .ok final => return final
      | .error exc =>
          attemptFinal executionId actualTools references attempts
            (prompt ++ "\nLOCAL VALIDATION ERROR: " ++ exc.safeError ++
              "\nReturn a corrected JSON object.") exc.safeError

/-- `_generate_final(execution_id, event, steps, results)`. -/
def generateFinal (executionId : Uuid) (event : IncidentCreatedEvent) (steps : List AgentStep)
    (results : Results) : Py AgentFinalResponse := do
  let references := evidenceReferences results
  let actualTools := fromKeys (succeededTools steps)
  let prompt ← renderPrompt wf.resolverPrompt
    [("incident_event", event.modelDumpJson),
      ("evidence",
        jsonText (.arr (results.map fun (number, result) => evidenceEntry number result)) 28000),
      ("citations", jsonText (.arr (references.filterMap citationEntry)) 30000),
      ("tools_used", jsonText (.arr (actualTools.map .str)) 30000)]
  attemptFinal executionId actualTools references (wf.limits.repairAttempts + 1) prompt "unknown"

/-- The `AgentStepRecord` of the final response. -/
def finalStepRecord (executionId : Uuid) (stepNumber : Nat) (decision : PlannerDecision)
    (final : AgentFinalResponse) (references : List EvidenceReference) : AgentStep :=
  { executionId := executionId
    stepNumber := stepNumber
    actionType := .final
    toolName := none
    sanitizedArguments := none
    resultSummary := some (sanitizeValue final.modelDump)
    evidenceReferences := references.map (·.modelDump)
    reasonSummary := decision.reasonSummary.1
    expectedEvidence := decision.expectedEvidence.1
    outcome := .completed
    durationMs := 0 }

/-- The completed resolution. -/
def completedResolution (resolution : Resolution) (final : AgentFinalResponse)
    (context : List Json) (time : Timestamp) : Resolution :=
  { resolution with
    status := .completed
    summary := some final.summary
    rootCause := some final.rootCause
    recommendedActions := some final.recommendedActions
    confidence := some final.confidence
    citedSources := some (final.citedSources.map (·.modelDump))
    retrievedContext := some context
    evidenceSummary := some final.evidenceSummary
    toolsUsed := some final.toolsUsed
    limitations := some final.limitations
    escalationRequired := some final.escalationRequired
    humanReviewRecommended := some final.humanReviewRecommended
    promptName := some wf.resolverPrompt.name
    promptVersion := some wf.resolverPrompt.version
    errorMessage := none
    completedAt := some time
    updatedAt := time }

/-- The execution that awaits its review. -/
def completedExecution (execution : Execution) (stepNumber : Nat) (time : Timestamp) : Execution :=
  { execution with
    status := .awaitingReview
    stepCount := stepNumber
    completedAt := some time
    totalDurationMs :=
      some (.finite (max 0 (((time - execution.createdAt : Int) : Rat) / 1000)))
    errorType := none
    errorMessageSafe := none
    updatedAt := time }

/-- `_persist_final(execution_id, event, decision, final, steps, results)`. -/
def persistFinal (executionId : Uuid) (event : IncidentCreatedEvent) (decision : PlannerDecision)
    (final : AgentFinalResponse) (steps : List AgentStep) (results : Results) : Py Unit := do
  let time ← now
  let references := evidenceReferences results
  let context ← answer (retrievedContext results)
  withSession do
    let execution ← getExecution executionId
    let resolution ← getResolution event.incidentId
    match execution, resolution with
    | some execution, some resolution =>
        let stepNumber := steps.length + 1
        commit .final
          [.insertStep (finalStepRecord executionId stepNumber decision final references),
            .updateResolution resolution (wf.completedResolution resolution final context time),
            .updateExecution execution (completedExecution execution stepNumber time)]
    | _, _ => throw ⟨.sqlalchemyError, "Agent durable state disappeared"⟩

/-- The round of a decision for the final response: the state to go on with, or none when
the resolution is stored. -/
def finalTurn (executionId : Uuid) (event : IncidentCreatedEvent) (decision : PlannerDecision)
    (st : LoopState) : Py (Option LoopState) := do
  let missing := missingRequiredEvidence st.steps
  if missing ≠ [] then
    let st ← wf.reject executionId decision none .finalMissingRequiredEvidence
      ("Before final, call required tools: " ++ Text.join ", " missing)
      "Planner attempted final without required evidence" st
    return some st
  else
    let final ← wf.generateFinal executionId event st.steps st.results
    wf.persistFinal executionId event decision final st.steps st.results
    return none

/-! ## The planning loop -/

/-- One round: the state to go on with, or none when the resolution is stored. -/
def round (executionId : Uuid) (event : IncidentCreatedEvent) (started : Rat) (st : LoopState) :
    Py (Option LoopState) := do
  wf.checkBudgets executionId started st.steps.length
  let (st, decision) ← wf.nextDecision executionId event st
  match decision with
  | none => return some st
  | some decision =>
      match decision.nextAction with
      | .tool name arguments => some <$> wf.toolTurn executionId event decision ⟨name, arguments⟩ st
      | .final => wf.finalTurn executionId event decision st

/-- What is raised where the loop runs out of fuel. -/
def outOfFuel : PyExc := ⟨.assertionError, "out of fuel"⟩

/-- The loop, for at most so many rounds. -/
def loop (executionId : Uuid) (event : IncidentCreatedEvent) (started : Rat) :
    Nat → LoopState → Py ResolutionWorkflowOutcome
  | 0, _ => throw outOfFuel
  | fuel + 1, st => do
      match ← wf.round executionId event started st with
      | none => return .completed
      | some st => loop executionId event started fuel st

/-- A number of rounds that the loop cannot exceed. -/
def fuel : Nat := (wf.limits.maxSteps + 1) * (wf.limits.repairAttempts + 1)

/-! ## Failures -/

/-- The execution after a failure. -/
def failedExecution (execution : Execution) (terminal : Bool) (error : PyExc) (time : Timestamp) :
    Execution :=
  { execution with
    status := if terminal then .failed else .retryable
    errorType := some (error.cls.name.take 120)
    errorMessageSafe := some error.safeError
    updatedAt := time }

/-- The resolution after a failure. -/
def failedResolution (resolution : Resolution) (terminal : Bool) (error : PyExc)
    (time : Timestamp) : Resolution :=
  { resolution with
    status := if terminal then .failed else .retryable
    errorMessage := some error.safeError
    updatedAt := time }

/-- `_record_failure(execution_id, error, retryable)`. -/
def recordFailure (executionId : Uuid) (error : PyExc) (retryable : Bool) : Py Bool := do
  let time ← now
  withSession do
    match ← getExecution executionId with
    | none => throw ⟨.retryableResolutionError, "Agent execution state disappeared"⟩
    | some execution =>
        let execution : Execution := execution
        let terminal := !retryable && wf.limits.modelRetries ≤ execution.retryCount + 1
        flush [.updateExecution execution (failedExecution execution terminal error time)]
        match ← getResolution execution.incidentId with
        | some resolution =>
            commit .failure
              [.updateResolution resolution (failedResolution resolution terminal error time)]
        | none => commit .failure []
        return terminal

/-- `_record_terminal_failure(execution_id, error)`. -/
def recordTerminalFailure (executionId : Uuid) (error : PyExc) : Py Unit := do
  let found ← withSession do
    match ← getExecution executionId with
    | none => return false
    | some execution =>
        let execution : Execution := execution
        commit .terminalFailure [.updateExecution execution
          { execution with retryCount := max execution.retryCount (wf.limits.modelRetries - 1) }]
        return true
  if found then
    let _ ← wf.recordFailure executionId error false

/-- The `except` clauses of `_resolve`. -/
def onFailure (executionId : Uuid) (exc : PyExc) : Py ResolutionWorkflowOutcome := do
  if exc.isAny [.providerUnavailableError, .toolTimeoutError, .sqlalchemyError] then
    let _ ← wf.recordFailure executionId exc true
    throw ⟨.retryableResolutionError, exc.safeError⟩
  else if exc.isAny [.agentValidationError, .toolExecutionError] then
    let terminal ← wf.recordFailure executionId exc false
    if terminal then return .failed else throw ⟨.retryableResolutionError, exc.safeError⟩
  else if exc.isA .agentBudgetExceededError then
    wf.recordTerminalFailure executionId exc
    return .failed
  else throw exc

/-- `resolve(event)`. -/
def resolve (event : IncidentCreatedEvent) : Py ResolutionWorkflowOutcome := do
  let (executionId, terminal) ← wf.claim event
  match terminal with
  | some outcome => return outcome
  | none =>
      let started ← perfCounter
      Program.tryCatch
        (do
          let steps ← loadSteps executionId
          let results ← answer (restoreResults steps)
          wf.loop executionId event started wf.fuel (initialState steps results))
        (wf.onFailure executionId)

/-- The workflow as the processor is given it. -/
def workflow : ResolutionWorkflow where
  phase := 5
  resolve := wf.resolve

end ControlledAgentWorkflow

end SupportPlatform
