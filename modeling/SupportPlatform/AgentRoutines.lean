import SupportPlatform.Evidence
import SupportPlatform.PlannerPayloads

/-! # What the routines of the workflow do

The parts of the workflow that neither claim an execution nor record a step or a failure,
which are most of it, only read, ask the model, and keep the status and the counters of the
model calls.  For each of them it is said once which calls it issues (`Routine`), what it
returns and what it raises, whatever the state: `Assumes` says what the answers of its calls
are taken to be.
-/
namespace SupportPlatform
open Program ControlledAgentWorkflow

section
variable [Runtime] [Pydantic]

/-- **The calls of the routines.**  `L` is what is known of an execution that was read. -/
def Routine (L : Execution → Prop) : Op → Prop
  | .now | .perfCounter _ | .closeSession | .select _ | .render _ _ | .chat _ _ | .retrieve _ _ _
  | .toolTimedOut => True
  | .commit .setStatus cs => ∃ l status time, L l ∧ (status = .running ∨ status = .waitingForTool) ∧
      cs = [.updateExecution l { l with status := status, updatedAt := time }]
  | .commit .modelMetadata cs => ∃ l durationMs inputChars outputChars usage time, L l ∧
      cs = [.updateExecution l (afterModelCall l durationMs inputChars outputChars usage time)]
  | _ => False

/-- The resolution's stored context consists of chunks. -/
def ContextHolds (r : Resolution) : Prop :=
  ∀ item ∈ r.retrievedContext.getD [], ∃ p : ChunkPair, IsChunk p item ∧ p.Named

/-- The classes of the exceptions that the workflow raises of its own. -/
def ownClasses : List ExcClass :=
  [.agentValidationError, .agentBudgetExceededError, .toolTimeoutError, .sqlalchemyError]

/-- What is raised when no attempt at a final response is left. -/
def attemptsExhausted (detail : Text) : PyExc :=
  validationFailed ("Final response remained invalid after repair attempts: " ++ detail)

/-- **What the answers within `B` are taken to be**, for an execution `x`: `L` holds of what is
read of it, the exceptions that leave the workflow are in `X`, and when the run is
`grounded`, every chunk that is read is one. -/
structure Assumes (x : Uuid) (B : (o : Op) → Resp o → Prop) (L : Execution → Prop)
    (X : PyExc → Prop) (grounded : Prop) : Prop where
  clock : ∀ t r, B (.perfCounter (some t)) r → t ≤ r
  loaded : ∀ l, B (.select (.execution x)) (.ok (some l)) → L l
  context : grounded → ∀ i r, B (.select (.resolutionOf i)) (.ok (some r)) → ContextHolds r
  corpus : grounded → ∀ q n c chunks, B (.retrieve q n c) (.ok chunks) →
    ∀ chunk ∈ chunks, ManifestId (chunk : RetrievedChunk).sourceId
  select : ∀ q e, B (.select q) (.error e) → X e
  commit : ∀ txn cs e applied, B (.commit txn cs) (.failed e applied) → X e
  selectError : ∀ q e, B (.select q) (.error e) → e.isA .sqlalchemyError = true
  commitError : ∀ txn cs e applied, B (.commit txn cs) (.failed e applied) →
    e.isA .sqlalchemyError = true
  render : ∀ template values e, B (.render template values) (.error e) → X e
  reply : ∀ prompt model reply e, B (.chat prompt model) reply →
    (OllamaLLMProvider.interpret model reply).2 = .error e →
    e.isA .providerResponseError = false → X e
  exhausted : ∀ prompt reply e, B (.chat prompt .agentFinalResponse) reply →
    (OllamaLLMProvider.interpret .agentFinalResponse reply).2 = .error e →
    X (attemptsExhausted e.safeError)
  retrieve : ∀ q n c e, B (.retrieve q n c) (.error e) →
    e.isAny [.providerUnavailableError, .sqlalchemyError, .toolTimeoutError] = true → X e
  own : ∀ e, e.cls ∈ ownClasses → Text.storable e.message = true → X e

variable {x : Uuid} {B : (o : Op) → Resp o → Prop} {L : Execution → Prop} {X : PyExc → Prop}
  {grounded : Prop} (hB : Assumes x B L X grounded)
include hB

/-! ## Reading and keeping the status -/

omit hB [Runtime] [Pydantic] in
theorem now_conforms {Y : PyExc → Prop} : now.Conforms (Routine L) B (fun _ => True) Y :=
  issue_conforms trivial fun _ _ => trivial

omit hB [Runtime] [Pydantic] in
theorem perfCounter_conforms {Y : PyExc → Prop} :
    perfCounter.Conforms (Routine L) B (fun _ => True) Y :=
  issue_conforms trivial fun _ _ => trivial

theorem perfCounterSince_conforms {Y : PyExc → Prop} (started : Rat) :
    (perfCounterSince started).Conforms (Routine L) B (fun elapsed => 0 ≤ elapsed) Y := by
  refine ⟨trivial, fun r hr => ?_⟩
  exact sub_nonneg.mpr (hB.clock started r hr)

/-- An exception of the database that leaves the workflow. -/
def Failing (X : PyExc → Prop) (e : PyExc) : Prop := X e ∧ e.isA .sqlalchemyError = true

theorem getExecution_conforms :
    (getExecution x).Conforms (Routine L) B (fun row => ∀ l, row = some l → L l) (Failing X) :=
  select_conforms trivial (fun e he => ⟨hB.select _ e he, hB.selectError _ e he⟩)
    fun _ hr l hl => hB.loaded l (hl ▸ hr)

theorem loadSteps_conforms : (loadSteps x).Conforms (Routine L) B (fun _ => True) X :=
  withSession_conforms trivial (select_conforms trivial (hB.select _) fun _ _ => trivial)

theorem setStatus_conforms {status : AgentStatus}
    (hs : status = .running ∨ status = .waitingForTool) :
    (setStatus x status).Conforms (Routine L) B (fun _ => True) X := by
  refine withSession_conforms trivial (((getExecution_conforms hB).mono (fun _ h => h) fun _ h => h.1).bind
    fun row hrow => ?_)
  cases row with
  | none => exact hB.own _ (by decide) (by decide)
  | some l =>
      refine now_conforms.bind fun time _ => ?_
      exact commit_conforms ⟨l, status, time, hrow l rfl, hs, rfl⟩ (hB.commit _ _)

variable (wf : ControlledAgentWorkflow)

theorem budgetExceeded_own {message : Text} (h : Text.storable message = true) :
    X (budgetExceeded message) := hB.own _ (by simp [budgetExceeded, ownClasses]) h

theorem checkToolBudget_conforms (execution : Execution) :
    (wf.checkToolBudget x execution).Conforms (Routine L) B (fun _ => True) X := by
  unfold checkToolBudget
  split
  · refine (loadSteps_conforms hB).bind fun steps _ => ?_
    exact (raiseIf_conforms fun _ => budgetExceeded_own hB (by decide)).mono
      (fun _ _ => trivial) fun _ h => h
  · trivial

/-- A round begins below the step budget. -/
theorem checkBudgets_conforms (started : Rat) (stepCount : Nat) :
    (wf.checkBudgets x started stepCount).Conforms (Routine L) B
      (fun _ => stepCount < wf.limits.maxSteps) X := by
  refine (raiseIf_conforms fun _ => budgetExceeded_own hB (by decide)).bind fun _ hsteps => ?_
  refine (perfCounterSince_conforms hB started).bind fun elapsed _ => ?_
  refine (raiseIf_conforms fun _ => budgetExceeded_own hB (by decide)).bind fun _ _ => ?_
  refine withSession_conforms trivial (((getExecution_conforms hB).mono (fun _ h => h) fun _ h => h.1).bind
    fun row _ => ?_)
  cases row with
  | none => exact Nat.lt_of_not_le hsteps
  | some execution =>
      refine (checkToolBudget_conforms hB wf execution).bind fun _ _ => ?_
      refine now_conforms.bind fun time _ => ?_
      exact (raiseIf_conforms fun _ => budgetExceeded_own hB (by decide)).mono
        (fun _ _ => Nat.lt_of_not_le hsteps) fun _ h => h

/-! ## Asking the model -/

theorem recordModelCall_conforms (durationMs : Rat) (inputChars outputChars : Nat)
    (usage : Option Json) :
    (recordModelCall x durationMs inputChars outputChars usage).Conforms (Routine L) B
      (fun _ => True) (Failing X) := by
  refine withSession_conforms trivial ((getExecution_conforms hB).bind fun row hrow => ?_)
  cases row with
  | none => trivial
  | some l =>
      refine now_conforms.bind fun time _ => ?_
      exact commit_conforms
        ⟨l, durationMs, inputChars, outputChars, usage, time, hrow l rfl, rfl⟩ 
        fun e applied he => ⟨hB.commit _ _ e applied he, hB.commitError _ _ e applied he⟩

/-- **A model call** returns or raises what the adapter makes of the reply. -/
theorem modelCall_conforms (prompt : Text) (model : ResponseModel) :
    (modelCall x prompt model).Conforms (Routine L) B
      (fun response => ∃ reply, (OllamaLLMProvider.interpret model reply).2 = .ok response)
      (fun e => Failing X e ∨ ∃ reply, B (.chat prompt model) reply ∧
        (OllamaLLMProvider.interpret model reply).2 = .error e) := by
  refine perfCounter_conforms.bind fun started _ => ?_
  refine (issue_conforms (Q := B (.chat prompt model)) trivial fun _ h => h).bind
    fun reply hreply => ?_
  refine (perfCounterSince_conforms hB started).bind
    fun elapsed _ => ?_
  refine ((recordModelCall_conforms hB _ _ _ _).mono (fun _ h => h) fun _ => .inl).bind
    fun _ _ => ?_
  exact conforms_answer.mpr ⟨fun _ hr => ⟨reply, hr⟩, fun e he => .inr ⟨reply, hreply, he⟩⟩

theorem renderPrompt_conforms (template : PromptTemplate) (values : Dict Text Text) :
    (renderPrompt template values).Conforms (Routine L) B (fun _ => True) X := by
  refine ⟨trivial, fun r hr => conforms_answer.mpr ⟨fun _ _ => trivial, fun e he => ?_⟩⟩
  exact hB.render template values e (he ▸ hr)

theorem buildPlannerPrompt_conforms (event : IncidentCreatedEvent) (steps : List AgentStep)
    (lastError : Text) (requiredTool : Option Text) :
    (wf.buildPlannerPrompt event steps lastError requiredTool).Conforms (Routine L) B
      (fun _ => True) X :=
  (renderPrompt_conforms hB _ _).bind fun _ _ => trivial

/-- The decision calls the tool that is required, if one is. -/
def MeetsRequirement (required : Option Text) (d : PlannerDecision) : Prop :=
  (required = some ("get_incident" : Text) → ∃ h n,
    d.nextAction = .tool ⟨"get_incident", h⟩ [("incident_id", .int n)]) ∧
  (required = some ("retrieve_runbooks" : Text) → ∃ h arguments,
    d.nextAction = .tool ⟨"retrieve_runbooks", h⟩ arguments)

/-- **Planning**: a required tool cannot be skipped, and the arguments are a dictionary. -/
theorem plan_conforms (prompt : Text) (required : Option Text) :
    (plan x prompt required).Conforms (Routine L) B
      (fun d => MeetsRequirement required d ∧ (ParsesDicts → d.Keyed))
      (fun e => X e ∨ e.isA .providerResponseError = true) := by
  have hcall : ∀ model : ResponseModel, (modelCall x prompt model).Conforms (Routine L) B
      (fun response => ∃ reply, (OllamaLLMProvider.interpret model reply).2 = .ok response)
      (fun e => X e ∨ e.isA .providerResponseError = true) := by
    refine fun model => (modelCall_conforms hB prompt model).mono (fun _ h => h) fun e he => ?_
    rcases he with he | ⟨reply, hreply, he⟩
    · exact .inl he.1
    · cases hr : e.isA .providerResponseError with
      | true => exact .inr rfl
      | false => exact .inl (hB.reply prompt model reply e hreply he hr)
  have hne : ("get_incident" : Text) ≠ "retrieve_runbooks" := by decide
  unfold plan
  by_cases hincident : required = some ("get_incident" : Text)
  · rw [if_pos hincident]
    refine (hcall _).bind fun raw _ => ?_
    have hvalid := modelValidate_required "get_incident" (by decide) (·.modelDump) raw
      [("incident_id", .int raw.toolArguments.incidentId.1)] rfl
    refine conforms_answer.mpr ⟨fun d hd => ?_, fun e he => ?_⟩
    · obtain rfl := Except.ok.inj (hvalid.symm.trans hd)
      refine ⟨⟨fun _ => ⟨by decide, raw.toolArguments.incidentId.1, rfl⟩, fun h => ?_⟩, fun _ => ?_⟩
      · exact absurd (Option.some.inj (hincident.symm.trans h)) hne
      · rintro name arguments ⟨⟩
        exact List.nodup_singleton _
    · cases hvalid.symm.trans he
  · rw [if_neg hincident]
    by_cases hretrieve : required = some ("retrieve_runbooks" : Text)
    · rw [if_pos hretrieve]
      refine (hcall _).bind fun raw _ => ?_
      have hvalid := modelValidate_required "retrieve_runbooks" (by decide) (·.modelDump) raw
        [("query", .str raw.toolArguments.query.1),
          ("classification", Json.ofText (raw.toolArguments.classification.map (·.1))),
          ("top_k", .int raw.toolArguments.topK.1)] rfl
      refine conforms_answer.mpr ⟨fun d hd => ?_, fun e he => ?_⟩
      · obtain rfl := Except.ok.inj (hvalid.symm.trans hd)
        refine ⟨⟨fun h => absurd h hincident, fun _ => ⟨by decide, _, rfl⟩⟩, fun _ => ?_⟩
        rintro name arguments ⟨⟩
        exact (by decide : List.Nodup [("query" : Text), "classification", "top_k"])
      · cases hvalid.symm.trans he
    · rw [if_neg hretrieve]
      refine (hcall .plannerDecision).mono (fun d hd => ?_) fun _ h => h
      obtain ⟨reply, hreply⟩ := hd
      exact ⟨⟨fun h => absurd h hincident, fun h => absurd h hretrieve⟩,
        fun hdicts => keyed_of_interpret hdicts hreply⟩

/-- The state after a planning round: only the repairs are counted, and there is a decision or
a repair attempt left. -/
structure Planned (st st' : LoopState) (decision : Option PlannerDecision) : Prop where
  steps : st'.steps = st.steps
  results : st'.results = st.results
  toolCalls : st'.toolCalls = st.toolCalls
  signatures : st'.signatures = st.signatures
  repair : st' = st ∨ st'.repairCount = st.repairCount + 1
  again : decision = none →
    st'.repairCount = st.repairCount + 1 ∧ st'.repairCount ≤ wf.limits.repairAttempts
  meets : ∀ d, decision = some d → MeetsRequirement (missingRequiredEvidence st.steps).head? d
  keyed : ParsesDicts → ∀ d, decision = some d → d.Keyed
  fallback : ∀ d, decision = some d → st' = st ∨
    d.nextAction = .final ∧ missingRequiredEvidence st.steps = []

/-- **A planning round.** -/
theorem nextDecision_conforms (event : IncidentCreatedEvent) (st : LoopState) :
    (wf.nextDecision x event st).Conforms (Routine L) B
      (fun out => Planned wf st out.1 out.2) X := by
  refine (buildPlannerPrompt_conforms hB wf event st.steps st.lastError _).bind fun prompt _ => ?_
  refine tryExcept_conforms ((plan_conforms hB prompt _).bind fun d hd => ?_)
    (fun e he hcaught => ?_) fun e he huncaught => ?_
  · exact ⟨rfl, rfl, rfl, rfl, .inl rfl, nofun, fun d' hd' => Option.some.inj hd' ▸ hd.1,
      fun hdicts d' hd' => Option.some.inj hd' ▸ hd.2 hdicts, fun _ _ => .inl rfl⟩
  · dsimp only
    by_cases hleft : st.repairCount + 1 ≤ wf.limits.repairAttempts
    · rw [if_pos hleft]
      exact ⟨rfl, rfl, rfl, rfl, .inr rfl, fun _ => ⟨rfl, hleft⟩, nofun, fun _ => nofun,
        nofun⟩
    rw [if_neg hleft]
    by_cases hstop : missingRequiredEvidence st.steps ≠ [] ∨
        e.isA .structuredOutputValidationError = false
    · rw [if_pos hstop]
      exact hB.own _ (by simp [validationFailed, ownClasses]) (by decide)
    · rw [if_neg hstop]
      have hnil : missingRequiredEvidence st.steps = [] := not_not.mp (not_or.mp hstop).1
      refine ⟨rfl, rfl, rfl, rfl, .inr rfl, nofun, fun d hd => ?_, fun _ d hd => ?_, fun d hd => ?_⟩
      · rw [hnil]
        exact ⟨nofun, nofun⟩
      · obtain rfl := Option.some.inj hd
        exact nofun
      · obtain rfl := Option.some.inj hd
        exact .inr ⟨rfl, hnil⟩
  · rcases he with he | he
    · exact he
    · rw [PyExc.isAny_of_mem (List.mem_singleton.mpr rfl) he] at huncaught
      cases huncaught

/-! ## Running a tool -/

/-- An exception that a tool may raise: the executor turns it into a rejection, or it may
leave the workflow. -/
def Contained (X : PyExc → Prop) (e : PyExc) : Prop :=
  e.isAny [.providerUnavailableError, .sqlalchemyError, .toolTimeoutError] = true → X e

/-- The evidence of an output can be followed, when that of the results so far can. -/
def Follows (grounded : Prop) (before : Results) (output : ToolOutput) : Prop :=
  grounded → NamedResults before →
    ∃ pairs, Traceable (namedPairs before) pairs output.data output.evidenceReferences.1

/-- **What an output is built of.** -/
structure BuiltOf (summary : Text) (data : Dict Text Json) (refs : List (Option EvidenceReference))
    (output : ToolOutput) : Prop where
  summary : output.summary.1 = summary
  data : output.data = data
  refs : refs = output.evidenceReferences.1.map some

omit hB [Runtime] in
theorem toolOutput_built {A : Op → Prop} {summary : Text} {data : Dict Text Json}
    {refs : List (Option EvidenceReference)} :
    (toolOutput summary data refs).Conforms A B (BuiltOf summary data refs)
      fun e => e.cls = .validationError := by
  unfold toolOutput
  cases hrefs : refs.mapM id with
  | none => rfl
  | some found =>
      have hall : refs = found.map some := by
        have h := forall₂_of_mapM hrefs
        clear hrefs
        induction h with
        | nil => rfl
        | cons hx _ ih => rw [List.map_cons, ← ih, ← hx, id]
      dsimp only
      cases hs : field (fun s : Text => 1 ≤ s.length ∧ s.length ≤ 2000) summary with
      | none => rfl
      | some s =>
          cases hf : field (fun l : List EvidenceReference => l.length ≤ 20) found with
          | none => rfl
          | some l => exact ⟨field_eq_some hs, rfl, field_eq_some hf ▸ hall⟩

omit hB [Runtime] in
theorem toolOutput_conforms {summary : Text} {data : Dict Text Json}
    {refs : List (Option EvidenceReference)} {Q : ToolOutput → Prop}
    (hQ : ∀ summary refs', refs = refs'.1.map some → Q ⟨summary, data, refs'⟩) :
    (toolOutput summary data refs).Conforms (Routine L) B Q (Contained X) := by
  refine toolOutput_built.mono (fun output h => ?_) fun e he hcaught => ?_
  · obtain ⟨summary', data', refs'⟩ := output
    obtain ⟨-, rfl, hrefs⟩ := h
    exact hQ summary' refs' hrefs
  · simp only [PyExc.isAny, List.any_cons, List.any_nil, PyExc.isA, he] at hcaught
    cases hcaught

theorem select_contained {query : Query} :
    (select query).Conforms (Routine L) B (fun rows => B (.select query) (.ok rows))
      (Contained X) :=
  select_conforms trivial (fun e he _ => hB.select _ e he) fun _ h => h

theorem requireIncident_conforms (id : Int) :
    (requireIncident id).Conforms (Routine L) B (fun _ => True) (Contained X) := by
  refine (select_contained hB).bind fun row _ => ?_
  cases row with
  | some incident => trivial
  | none => exact fun h => nomatch h

omit hB [Runtime] in
/-- An output without runbook references. -/
theorem followed_of_ids {before : Results} {data : Dict Text Json}
    {refs : List (Option EvidenceReference)} {summary : Text}
    (hdata : ("chunks" : Text) ∉ data.keys)
    (hrefs : ∀ ref, some ref ∈ refs → ref.evidenceType ≠ .runbook) :
    (toolOutput summary data refs).Conforms (Routine L) B (Follows grounded before)
      (Contained X) := by
  refine toolOutput_conforms fun s refs' hall _ _ => ⟨[], .of_others (fun ref hm => ?_) hdata⟩
  exact hrefs ref (hall ▸ List.mem_map.mpr ⟨ref, hm, rfl⟩)

omit hB [Runtime] [Pydantic] in
theorem ofId_type {type : EvidenceType} {id : Text} {ref : EvidenceReference}
    (h : EvidenceReference.ofId type id = some ref) : ref.evidenceType = type := by
  obtain ⟨_, _, h⟩ := Option.bind_eq_some_iff.mp h
  cases h
  rfl

theorem getIncidentTool_conforms (input : GetIncidentInput) (context : ToolContext) :
    (getIncidentTool input context).Conforms (Routine L) B
      (Follows grounded context.previousResults) (Contained X) := by
  refine (withSession_conforms trivial (requireIncident_conforms hB _)).bind fun incident _ => ?_
  refine followed_of_ids (by simp [Dict.keys]) fun ref hm => ?_
  rw [ofId_type (List.mem_singleton.mp hm).symm]
  decide

theorem searchSimilarIncidentsTool_conforms (input : IncidentScopedListInput)
    (context : ToolContext) :
    (searchSimilarIncidentsTool input context).Conforms (Routine L) B
      (Follows grounded context.previousResults) (Contained X) := by
  refine (withSession_conforms (Q := fun _ => True) trivial ?_).bind fun found _ => ?_
  · refine (requireIncident_conforms hB _).bind fun current _ => ?_
    exact (select_contained hB).bind fun candidates _ => trivial
  · refine followed_of_ids (by simp [Dict.keys]) fun ref hm => ?_
    obtain ⟨row, -, href⟩ := List.mem_map.mp hm
    rw [ofId_type href]
    decide

theorem getPreviousResolutionsTool_conforms (input : IncidentScopedListInput)
    (context : ToolContext) :
    (getPreviousResolutionsTool input context).Conforms (Routine L) B
      (Follows grounded context.previousResults) (Contained X) := by
  refine (withSession_conforms (Q := fun _ => True) trivial ?_).bind fun found _ => ?_
  · refine (requireIncident_conforms hB _).bind fun current _ => ?_
    exact (select_contained hB).mono (fun _ _ => trivial) fun _ h => h
  · refine followed_of_ids (by simp [Dict.keys]) fun ref hm => ?_
    obtain ⟨row, -, href⟩ := List.mem_map.mp hm
    rw [ofId_type href]
    decide

omit hB [Runtime] [Pydantic] in
theorem forall₂_of_map_eq {α β γ : Type} {f : α → γ} {g : β → γ} :
    ∀ {xs : List α} {ys : List β}, xs.map f = ys.map g →
      List.Forall₂ (fun x y => f x = g y) xs ys
  | [], [], _ => .nil
  | x :: xs, y :: ys, h => by
      rw [List.map_cons, List.map_cons, List.cons.injEq] at h
      exact .cons h.1 (forall₂_of_map_eq h.2)

omit hB [Pydantic] [Runtime] in
theorem ofChunk_pair {referenceId sourceId : Text} {chunkId : Int} {ref : EvidenceReference}
    (h : EvidenceReference.ofChunk referenceId sourceId chunkId = some ref) :
    ref.runbookPair? = some (sourceId, chunkId) := by
  simp only [EvidenceReference.ofChunk, Option.bind_eq_bind, Option.bind_eq_some_iff] at h
  obtain ⟨id, -, source, hsource, chunk, hchunk, h⟩ := h
  cases h
  rw [EvidenceReference.runbookPair?_eq_some]
  refine ⟨rfl, ?_⟩
  rw [EvidenceReference.pair, Option.map_some, Option.map_some, field_eq_some hsource,
    field_eq_some hchunk]

theorem retrieveRunbooksTool_conforms (input : RetrieveRunbooksInput) (context : ToolContext) :
    (retrieveRunbooksTool input context).Conforms (Routine L) B
      (Follows grounded context.previousResults) (Contained X) := by
  refine ⟨trivial, fun r hr => ?_⟩
  cases r with
  | error e => exact hB.retrieve _ _ _ e hr
  | ok chunks =>
      refine toolOutput_conforms fun s refs hall hg _ =>
        ⟨chunks.map fun c => (c.sourceId, c.chunkId), ?_⟩
      have hrefs := forall₂_of_map_eq hall
      refine .of_chunks ?_ ?_ (fun p hp => ?_) ?_
      · rw [List.forall₂_map_left_iff, List.forall₂_map_right_iff, List.forall₂_same]
        exact fun c _ => ⟨_, _, _, _, rfl⟩
      · rw [List.length_map, hrefs.length_eq]
        have := refs.2
        omega
      · obtain ⟨c, hc, rfl⟩ := List.mem_map.mp hp
        exact hB.corpus hg _ _ _ chunks hr c hc
      · rw [List.forall₂_map_left_iff]
        exact hrefs.imp fun c ref h => ofChunk_pair h

omit hB [Pydantic] in
/-- A stored chunk of a named pair is read back as a chunk with a reference to it. -/
theorem contextReference_of_isChunk {p : ChunkPair} {item : Json} {entries : Dict Text Json}
    (hc : IsChunk p item) (hp : p.Named) (hentries : dictOf item = some entries) :
    IsChunk p (.obj (contextData entries)) ∧
      ∃ id, contextReference (contextData entries) =
        some (EvidenceReference.ofChunk id p.1 p.2) := by
  obtain ⟨title, category, content, similarity, rfl⟩ := hc
  cases hentries
  refine ⟨⟨_, _, _, _, rfl⟩, chunkReferenceId p.1 (Json.toText (.int p.2)), ?_⟩
  have hne : p.1 ≠ [] := List.ne_nil_of_length_pos (by have := hp.1.1; omega)
  have htruthy : Json.truthy (.str p.1) = true := decide_eq_true hne
  exact if_pos htruthy

omit hB [Pydantic] in
/-- Stored chunks of named pairs are read back as chunks with a reference to each. -/
theorem contextReferences_of_chunks {items : List Json} {found : List (Dict Text Json)}
    (hfound : List.Forall₂ (fun item entries => dictOf item = some entries) items found)
    (hstored : ∀ item ∈ items, ∃ p : ChunkPair, IsChunk p item ∧ p.Named) :
    ∃ pairs : List ChunkPair,
      List.Forall₂ IsChunk pairs ((found.map contextData).map .obj) ∧ (∀ p ∈ pairs, p.Named) ∧
      List.Forall₂ (fun p ref => ∃ id, ref = EvidenceReference.ofChunk id p.1 p.2) pairs
        ((found.map contextData).filterMap contextReference) := by
  induction hfound with
  | nil => exact ⟨[], .nil, nofun, .nil⟩
  | @cons item entries _ _ he _ ih =>
      obtain ⟨pairs, hchunks, hnamed, hids⟩ :=
        ih fun item hm => hstored item (List.mem_cons_of_mem _ hm)
      obtain ⟨p, hc, hp⟩ := hstored item List.mem_cons_self
      obtain ⟨hc', id, hid⟩ := contextReference_of_isChunk hc hp he
      refine ⟨p :: pairs, .cons hc' hchunks, fun q hq => ?_, ?_⟩
      · rcases List.mem_cons.mp hq with rfl | hq
        · exact hp
        · exact hnamed q hq
      · rw [List.map_cons, List.filterMap_cons_some hid]
        exact .cons ⟨id, rfl⟩ hids

omit hB in
/-- Evidence that is read back from stored chunks. -/
theorem followed_of_context {before : Results} {items : List Json}
    {found : List (Dict Text Json)} {summary : Text} (hfound : items.mapM dictOf = some found)
    (hlen : items.length ≤ 8)
    (hstored : grounded → ∀ item ∈ items, ∃ p : ChunkPair, IsChunk p item ∧ p.Named) :
    (toolOutput summary [("chunks", .arr ((found.map contextData).map .obj))]
      ((found.map contextData).filterMap contextReference)).Conforms (Routine L) B
      (Follows grounded before) (Contained X) := by
  have hfound := forall₂_of_mapM hfound
  refine toolOutput_conforms fun s refs hall hg _ => ?_
  obtain ⟨pairs, hchunks, hnamed, hids⟩ := contextReferences_of_chunks hfound (hstored hg)
  refine ⟨pairs, .of_chunks hchunks ?_ (fun p hp => (hnamed p hp).1) ?_⟩
  · rw [List.length_map, List.length_map, ← hfound.length_eq]
    omega
  · rw [hall, List.forall₂_map_right_iff] at hids
    refine hids.imp fun p ref h => ?_
    obtain ⟨id, h⟩ := h
    exact ofChunk_pair h.symm

theorem getIncidentResolutionContextTool_conforms (input : ResolutionContextInput)
    (context : ToolContext) :
    (getIncidentResolutionContextTool input context).Conforms (Routine L) B
      (Follows grounded context.previousResults) (Contained X) := by
  refine (withSession_conforms trivial (select_contained hB)).bind fun row hrow => ?_
  cases row with
  | none =>
      have hnone : ∀ item ∈ ([] : List Json), ∃ p : ChunkPair, IsChunk p item ∧ p.Named := nofun
      exact followed_of_context rfl (Nat.zero_le _) fun _ => hnone
  | some resolution =>
      have hstored : grounded →
          ∀ item ∈ ((resolution : Resolution).retrievedContext.getD []).take 8,
            ∃ p : ChunkPair, IsChunk p item ∧ p.Named :=
        fun hg item hm => hB.context hg _ _ hrow item (List.mem_of_mem_take hm)
      dsimp only
      cases hread : (((resolution : Resolution).retrievedContext.getD []).take 8).mapM dictOf with
      | none => exact fun h => nomatch h
      | some found => exact followed_of_context hread (List.length_take_le _ _) hstored

omit hB [Runtime] in
theorem summarizeEvidenceTool_conforms (input : SummarizeEvidenceInput) (context : ToolContext) :
    (summarizeEvidenceTool input context).Conforms (Routine L) B
      (Follows grounded context.previousResults) (Contained X) := by
  refine toolOutput_conforms fun s refs hall _ hbefore => ⟨[], ?_⟩
  -- every reference is one of a previous result
  have hrefs : ∀ ref ∈ refs.1, ∃ r ∈ context.previousResults.values,
      ref ∈ r.evidenceReferences.1 := by
    intro ref hm
    have hm' : some ref ∈ refs.1.map some := List.mem_map.mpr ⟨ref, hm, rfl⟩
    rw [← hall] at hm'
    obtain ⟨ref', hm', heq⟩ := List.mem_map.mp hm'
    cases heq
    obtain ⟨r, hr, href⟩ := List.mem_flatMap.mp (mem_fromKeys.mp hm')
    obtain ⟨number, -, hnumber⟩ := List.mem_filterMap.mp hr
    obtain ⟨n, -, hn⟩ := Option.bind_eq_some_iff.mp hnumber
    exact ⟨r, Dict.mem_values_of_get? hn, href⟩
  refine ⟨fun ref hm => ?_, .inr ⟨by simp [Dict.keys], rfl⟩, nofun, fun p hp => .inr ?_⟩
  · obtain ⟨r, hr, href⟩ := hrefs ref hm
    exact hbefore r hr ref href
  · obtain ⟨ref, hm, hpair⟩ := List.mem_filterMap.mp hp
    obtain ⟨r, hr, href⟩ := hrefs ref hm
    exact List.mem_flatMap.mpr ⟨r, hr, List.mem_filterMap.mpr ⟨ref, href, hpair⟩⟩

/-! ## The executor -/

/-- **Every registered tool** leaves evidence that can be followed. -/
theorem tool_conforms {tool : AgentTool} (ht : tool ∈ ToolRegistry.tools) (input : tool.Input)
    (context : ToolContext) :
    (tool.execute input context).Conforms (Routine L) B (Follows grounded context.previousResults)
      (Contained X) := by
  simp only [ToolRegistry.tools, List.mem_cons, List.not_mem_nil, or_false] at ht
  rcases ht with rfl | rfl | rfl | rfl | rfl | rfl
  · exact getIncidentTool_conforms hB input context
  · exact retrieveRunbooksTool_conforms hB input context
  · exact searchSimilarIncidentsTool_conforms hB input context
  · exact getPreviousResolutionsTool_conforms hB input context
  · exact getIncidentResolutionContextTool_conforms hB input context
  · exact summarizeEvidenceTool_conforms input context

section
omit hB

/-- What is found under a name is registered under it. -/
theorem get?_registered {name : Text} {tool : AgentTool} (h : ToolRegistry.get? name = some tool) :
    tool ∈ ToolRegistry.tools ∧ tool.name = name := by
  unfold ToolRegistry.get? at h
  exact ⟨List.mem_of_find?_eq_some h, by simpa using List.find?_some h⟩

theorem registered_name {tool : AgentTool} (ht : tool ∈ ToolRegistry.tools) :
    (1 ≤ tool.name.length ∧ tool.name.length ≤ 80) ∧ Text.storable tool.name = true := by
  simp only [ToolRegistry.tools, List.mem_cons, List.not_mem_nil, or_false] at ht
  rcases ht with rfl | rfl | rfl | rfl | rfl | rfl <;> dsimp only <;> decide

/-- The input of `get_incident` is the incident that it names. -/
theorem registered_getIncident {tool : AgentTool} (ht : tool ∈ ToolRegistry.tools)
    (hname : tool.name = "get_incident") {value : Json} {arguments : tool.Input}
    (h : tool.validate value = some arguments) :
    ∃ input, GetIncidentInput.ofJson value = some input ∧
      tool.incidentId arguments = some input.incidentId.1 := by
  simp only [ToolRegistry.tools, List.mem_cons, List.not_mem_nil, or_false] at ht
  rcases ht with rfl | rfl | rfl | rfl | rfl | rfl
  · exact ⟨arguments, h, rfl⟩
  all_goals
    dsimp only at hname
    exact absurd hname (by decide)

end

/-- An exception that rejects a request, after which the loop goes on. -/
def Rejected (e : PyExc) : Prop :=
  e.isAny [.toolExecutionError, .agentValidationError] = true ∧ e.isA .toolTimeoutError = false

omit hB [Runtime] [Pydantic] in
/-- What a tool may raise leaves the workflow or rejects the request. -/
theorem Contained.rejected {e : PyExc} (h : Contained X e)
    (hc : e.isAny [.toolExecutionError, .providerUnavailableError, .sqlalchemyError] = true) :
    X e ∨ Rejected e := by
  cases hleave : e.isAny [.providerUnavailableError, .sqlalchemyError, .toolTimeoutError] with
  | true => exact .inl (h hleave)
  | false =>
      simp only [PyExc.isAny, List.any_cons, List.any_nil, Bool.or_false, Bool.or_eq_false_iff]
        at hleave
      simp only [PyExc.isAny, List.any_cons, List.any_nil, Bool.or_false, hleave.1, hleave.2.1]
        at hc
      exact .inr ⟨by simp [PyExc.isAny, hc], hleave.2.2⟩

theorem callTool_conforms {name : Text} (hname : Text.storable name = true) {call : Py ToolOutput}
    {Q : ToolOutput → Prop} (hcall : call.Conforms (Routine L) B Q (Contained X)) :
    (ToolExecutor.callTool name call).Conforms (Routine L) B Q (fun e => X e ∨ Rejected e) := by
  have htimed : toolTimedOut.Conforms (Routine L) B (fun _ => True) (fun e => X e ∨ Rejected e) :=
    issue_conforms trivial fun _ _ => trivial
  refine htimed.bind fun timedOut _ => ?_
  have hown : X ⟨.toolTimeoutError, "Tool timed out: " ++ name⟩ :=
    hB.own _ (by simp [ownClasses]) (Text.storable_append (s := "Tool timed out: ") (by decide) hname)
  refine (raiseIf_conforms fun _ => .inl hown).bind fun _ _ => ?_
  · refine hcall.tryCatch fun e he => ?_
    cases hc : e.isAny [.toolExecutionError, .providerUnavailableError, .sqlalchemyError] with
    | true =>
        rw [if_pos rfl]
        exact he.rejected hc
    | false =>
        rw [if_neg (by simp)]
        exact .inr ⟨rfl, rfl⟩

/-- **A result of the executor** for a request in a state of the loop. -/
structure Executed (maxToolCalls : Nat) (request : ToolRequest) (context : ToolContext)
    (grounded : Prop) (currentToolCalls : Nat) (result : ToolResult) : Prop where
  budget : currentToolCalls < maxToolCalls
  valid : ∃ tool arguments, ToolRegistry.get? request.toolName.1 = some tool ∧
    tool.validate (.obj request.arguments) = some arguments
  incident : request.toolName.1 = "get_incident" → ∃ input,
    GetIncidentInput.ofJson (.obj request.arguments) = some input ∧
      input.incidentId.1 = context.incidentId
  follows : grounded → NamedResults context.previousResults → ∃ pairs,
    Traceable (namedPairs context.previousResults) pairs result.data result.evidenceReferences.1

omit hB in
/-- The result of a tool's output can be built. -/
theorem toolResult_eq_ok {name : Text} (hname : 1 ≤ name.length ∧ name.length ≤ 80)
    (output : ToolOutput) {elapsed : Rat} (h : 0 ≤ elapsed) :
    ∃ result, ToolExecutor.toolResult name output (elapsed * 1000) = .ok result ∧
      result.data = sanitizeDict output.data ∧
      result.evidenceReferences = output.evidenceReferences := by
  have hsummary : 1 ≤ (sanitizeText output.summary.1).length ∧
      (sanitizeText output.summary.1).length ≤ 2000 := by
    refine ⟨List.length_pos_of_ne_nil (sanitizeText_ne_nil ?_), length_sanitizeText_le _⟩
    exact List.ne_nil_of_length_pos output.summary.2.1
  have hduration : Float64.le 0 (.finite (elapsed * 1000)) = true :=
    decide_eq_true (mul_nonneg h (by decide))
  refine ⟨⟨⟨name, hname⟩, .succeeded, ⟨_, hsummary⟩, sanitizeDict output.data,
    output.evidenceReferences, ⟨_, hduration⟩⟩, ?_, rfl, rfl⟩
  have hname' := field_self (p := fun s : Text => 1 ≤ s.length ∧ s.length ≤ 80) ⟨name, hname⟩
  have hsummary' := field_self (p := fun s : Text => 1 ≤ s.length ∧ s.length ≤ 2000)
    ⟨_, hsummary⟩
  have hduration' := field_self (p := fun f : Float64 => Float64.le 0 f = true) ⟨_, hduration⟩
  simp only [ToolExecutor.toolResult, hname', hsummary', hduration']

omit hB in
theorem toolResult_data {name : Text} {output : ToolOutput} {durationMs : Rat} {result : ToolResult}
    (h : ToolExecutor.toolResult name output durationMs = .ok result) :
    result.data = sanitizeDict output.data := by
  rw [ToolExecutor.toolResult] at h
  split at h
  · cases h
    rfl
  · cases h

/-- **The executor.** -/
theorem execute_conforms (maxToolCalls : Nat) (request : ToolRequest) (context : ToolContext)
    (currentToolCalls : Nat) :
    (ToolExecutor.execute maxToolCalls request context currentToolCalls).Conforms (Routine L) B
      (Executed maxToolCalls request context grounded currentToolCalls)
      (fun e => X e ∨ Rejected e) := by
  have hbudget : X ⟨.agentBudgetExceededError, "Maximum tool-call budget reached"⟩ :=
    hB.own _ (by simp [ownClasses]) (by decide)
  have hrejected : ∀ message, Rejected ⟨.toolExecutionError, message⟩ := fun _ => ⟨rfl, rfl⟩
  refine (raiseIf_conforms fun _ => .inl hbudget).bind fun _ hcalls => ?_
  refine (raiseIf_conforms fun _ => .inr (hrejected _)).bind fun _ _ => ?_
  cases hget : ToolRegistry.get? request.toolName.1 with
  | none => exact .inr ⟨rfl, rfl⟩
  | some tool =>
      obtain ⟨htool, hname⟩ := get?_registered hget
      dsimp only
      unfold ToolExecutor.runTool
      cases hvalid : tool.validate (.obj request.arguments) with
      | none => exact .inr (hrejected _)
      | some arguments =>
          refine (raiseIf_conforms fun _ => .inr ⟨rfl, rfl⟩).bind fun _ hincident => ?_
          refine perfCounter_conforms.bind
            fun started _ => ?_
          refine (callTool_conforms hB (registered_name htool).2
            (tool_conforms hB htool arguments context)).bind fun output houtput => ?_
          refine (perfCounterSince_conforms hB started).bind
            fun elapsed helapsed => ?_
          generalize (ToolExecutor.outputJson output).utf8Length = size
          refine (raiseIf_conforms fun _ => .inr (hrejected _)).bind fun _ _ => ?_
          obtain ⟨result, hresult, hdata, hrefs⟩ :=
            toolResult_eq_ok (registered_name htool).1 output helapsed
          rw [hresult]
          refine ⟨Nat.lt_of_not_le hcalls, ⟨tool, arguments, hget, hvalid⟩, fun hget => ?_,
            fun hg hbefore => ?_⟩
          · obtain ⟨input, hinput, hid⟩ := registered_getIncident htool (hname.trans hget) hvalid
            rw [hid, Option.getD_some, not_not] at hincident
            exact ⟨input, hinput, hincident⟩
          · obtain ⟨pairs, h⟩ := houtput hg hbefore
            exact ⟨pairs, hdata ▸ hrefs ▸ h.sanitize 1⟩

theorem runRequest_conforms (wf : ControlledAgentWorkflow) (event : IncidentCreatedEvent)
    (request : ToolRequest) (st : LoopState) :
    (wf.runRequest event request st).Conforms (Routine L) B
      (fun out => ∀ result, out = .ok result →
        Executed wf.limits.maxToolCalls request (wf.toolContext event st) grounded st.toolCalls
          result) X := by
  refine tryExcept_conforms ((execute_conforms hB _ _ _ _).bind fun result hresult => ?_)
    (fun e he hcaught => ?_) fun e he huncaught => ?_
  · exact fun result' h => Except.ok.inj h ▸ hresult
  · cases ht : e.isA .toolTimeoutError with
    | true =>
        rw [if_pos rfl]
        rcases he with he | he
        · exact he
        · cases ht.symm.trans he.2
    | false =>
        rw [if_neg (by simp)]
        exact fun _ h => nomatch h
  · rcases he with he | he
    · exact he
    · rw [he.1] at huncaught
      cases huncaught

/-! ## The final response -/

/-- **A validated final response**, for the tools that ran and the references of their
evidence. -/
structure Validated (actualTools : List Text) (references : List EvidenceReference)
    (final : AgentFinalResponse) : Prop where
  toolsUsed : final.toolsUsed = actualTools
  distinct : (final.citedSources.map (·.pair)).Nodup
  allowed : ∀ c ∈ final.citedSources, c.pair ∈ allowedPairs references
  cited : allowedPairs references ≠ [] → final.citedSources ≠ []
  ungrounded : allowedPairs references = [] → final.confidence.le (.finite (1 / 2)) = true ∧
    final.escalationRequired = true ∧ final.humanReviewRecommended = true ∧ final.limitations ≠ []

omit hB [Runtime] [Pydantic] in
theorem capped_le (confidence : Float64) : (capped confidence).le (.finite (1 / 2)) = true := by
  unfold capped
  split
  · assumption
  · exact decide_eq_true (le_refl (1 / 2 : Rat))

omit hB [Pydantic] in
/-- **The local validation**: what passes it is valid, and its errors can be recorded. -/
theorem validateFinal_spec (final : AgentFinalResponse) (actualTools : List Text)
    (references : List EvidenceReference) :
    (∀ f, validateFinal final actualTools references = .ok f → Validated actualTools references f) ∧
      ∀ e, validateFinal final actualTools references = .error e →
        e.cls = .agentValidationError ∧ Text.storable e.message = true := by
  have hfail : ∀ message : Text, Text.storable message = true →
      (∀ f, (Except.error (validationFailed message) : Except PyExc AgentFinalResponse) = .ok f →
        Validated actualTools references f) ∧
        ∀ e, (Except.error (validationFailed message) : Except PyExc AgentFinalResponse) = .error e →
          e.cls = .agentValidationError ∧ Text.storable e.message = true := by
    refine fun message hm => ⟨fun f h => (nomatch h), fun e h => ?_⟩
    cases h
    exact ⟨rfl, hm⟩
  have hnames : ∀ names, Text.storable (PromptTemplate.sortedNames names) = true := fun names =>
    Text.storable_reprList fun t ht => by
      obtain ⟨s, -, rfl⟩ := List.mem_map.mp ht
      exact Text.storable_repr s
  have hpairs : ∀ cited : List SourceCitation,
      Text.storable (Text.reprList (cited.map pairText)) = true := fun cited =>
    Text.storable_reprList fun t ht => by
      obtain ⟨c, -, rfl⟩ := List.mem_map.mp ht
      exact Text.storable_append (Text.storable_append (Text.storable_append
        (Text.storable_append (by decide) (Text.storable_repr _)) (by decide))
        (Text.storable_ofInt _)) (by decide)
  unfold validateFinal
  dsimp only
  by_cases hdup : ¬ final.toolsUsed.Nodup
  · rw [if_pos hdup]
    exact hfail _ (by decide)
  rw [if_neg hdup]
  by_cases hunknown : (final.toolsUsed.filter fun t => t ∉ actualTools) ≠ []
  · rw [if_pos hunknown]
    exact hfail _ (Text.storable_append (by decide) (hnames _))
  rw [if_neg hunknown]
  by_cases hdistinct : ¬ (final.citedSources.map (·.pair)).Nodup
  · rw [if_pos hdistinct]
    exact hfail _ (by decide)
  rw [if_neg hdistinct]
  by_cases hinvalid : (final.citedSources.filter fun c => c.pair ∉ allowedPairs references) ≠ []
  · rw [if_pos hinvalid]
    exact hfail _ (Text.storable_append (by decide) (hpairs _))
  rw [if_neg hinvalid]
  by_cases homitted : allowedPairs references ≠ [] ∧ final.citedSources = []
  · rw [if_pos homitted]
    exact hfail _ (by decide)
  rw [if_neg homitted]
  split
  · exact hfail _ (by decide)
  refine ⟨fun f hf => ?_, fun e he => (nomatch he)⟩
  cases hf
  have hallowed : ∀ c ∈ final.citedSources, c.pair ∈ allowedPairs references := by
    intro c hc
    have hnil := List.filter_eq_nil_iff.mp (not_not.mp hinvalid) c hc
    simpa using hnil
  by_cases hany : allowedPairs references = []
  · -- without a citable reference the response is marked as such
    have hground : groundFinal final actualTools (decide (allowedPairs references ≠ [])) =
        groundFinal final actualTools false := by rw [hany]; rfl
    rw [hground]
    refine ⟨rfl, not_not.mp hdistinct, hallowed, fun h => absurd hany h,
      fun _ => ⟨capped_le _, rfl, rfl, ?_⟩⟩
    change (if final.limitations = [] then _ else final.limitations) ≠ []
    split
    · exact List.cons_ne_nil _ _
    · assumption
  · have hground : groundFinal final actualTools (decide (allowedPairs references ≠ [])) =
        groundFinal final actualTools true := by rw [decide_eq_true hany]
    rw [hground]
    exact ⟨rfl, not_not.mp hdistinct, hallowed, fun h he => homitted ⟨h, he⟩,
      fun h => absurd h hany⟩

omit hB [Runtime] [Pydantic] in
theorem storable_safeError {e : PyExc} (h : Text.storable e.message = true) :
    Text.storable e.safeError = true :=
  Text.storable_take (Text.storable_replace (Text.storable_replace h (by decide) _) (by decide) _) _

theorem attemptsExhausted_own {detail : Text} (h : Text.storable detail = true) :
    X (attemptsExhausted detail) := by
  refine hB.own _ (by simp [attemptsExhausted, validationFailed, ownClasses]) ?_
  exact Text.storable_append
    (s := "Final response remained invalid after repair attempts: ") (by decide) h

omit hB [Runtime] [Pydantic] in
/-- A class below a given one is found by going through the classes. -/
theorem sqlalchemyError_only {e : PyExc} (h : e.isA .sqlalchemyError = true) :
    e.isAny [.providerResponseError, .agentValidationError] = false := by
  rcases e with ⟨cls, message⟩
  cases cls <;> first | rfl | exact absurd h (by simp [PyExc.isA, ExcClass.bases])

theorem tryFinal_conforms (actualTools : List Text) (references : List EvidenceReference)
    (prompt : Text) :
    (tryFinal x actualTools references prompt).Conforms (Routine L) B
      (fun out => (∀ final, out = .ok final → Validated actualTools references final) ∧
        ∀ e, out = .error e → X (attemptsExhausted e.safeError)) X := by
  refine tryExcept_conforms
    (Y := fun e => (e.isAny [.providerResponseError, .agentValidationError] = true →
      X (attemptsExhausted e.safeError)) ∧
        (e.isAny [.providerResponseError, .agentValidationError] = false → X e))
    ?_ (fun e he hcaught => ?_) fun e he huncaught => he.2 huncaught
  · refine Conforms.bind (Q := fun _ => True) ?_ fun final _ => Conforms.bind
      (Q := Validated actualTools references) ?_ fun final hfinal => ?_
    · refine (modelCall_conforms hB prompt .agentFinalResponse).mono (fun _ _ => trivial) fun e he => ?_
      rcases he with he | ⟨reply, hreply, he⟩
      · exact ⟨fun h => (by cases (sqlalchemyError_only he.2).symm.trans h), fun _ => he.1⟩
      · refine ⟨fun _ => hB.exhausted prompt reply e hreply he, fun h => ?_⟩
        refine hB.reply prompt _ reply e hreply he ?_
        simp only [PyExc.isAny, List.any_cons, Bool.or_eq_false_iff] at h
        exact h.1
    · obtain ⟨hok, herror⟩ := validateFinal_spec final actualTools references
      refine conforms_answer.mpr ⟨hok, fun e he => ?_⟩
      obtain ⟨hcls, hmessage⟩ := herror e he
      refine ⟨fun _ => attemptsExhausted_own hB (storable_safeError hmessage), fun h => ?_⟩
      simp [PyExc.isAny, PyExc.isA, hcls, ExcClass.bases] at h
    · exact ⟨fun f hf => Except.ok.inj hf ▸ hfinal, fun e he => (by cases he)⟩
  · refine ⟨fun final hf => (by cases hf), fun e' he' => ?_⟩
    cases he'
    exact he.1 hcaught

theorem attemptFinal_conforms (actualTools : List Text) (references : List EvidenceReference) :
    ∀ (attempts : Nat) (prompt detail : Text), X (attemptsExhausted detail) →
      (attemptFinal x actualTools references attempts prompt detail).Conforms (Routine L) B
        (Validated actualTools references) X
  | 0, _, _, h => h
  | attempts + 1, prompt, _, _ => by
      refine (tryFinal_conforms hB actualTools references prompt).bind fun out hout => ?_
      cases out with
      | ok final => exact hout.1 final rfl
      | error e =>
          exact attemptFinal_conforms actualTools references attempts _ _ (hout.2 e rfl)

/-- **Generating the final response.** -/
theorem generateFinal_conforms (wf : ControlledAgentWorkflow) (event : IncidentCreatedEvent)
    (steps : List AgentStep) (results : Results) :
    (wf.generateFinal x event steps results).Conforms (Routine L) B
      (Validated (fromKeys (succeededTools steps)) (evidenceReferences results)) X := by
  refine (renderPrompt_conforms hB _ _).bind fun prompt _ => ?_
  exact attemptFinal_conforms hB _ _ _ _ _ (attemptsExhausted_own hB (by decide))

end

end SupportPlatform

