import SupportPlatform.Json

/-! # Records

The rows of the database, as `app/db/models.py` maps them, and the enumerations their
columns range over.  A primary or foreign key that is the text of a UUID is a `Uuid`.

An ORM object is written back column by column: an UPDATE sets the columns whose
value differs from the one that was loaded, and leaves the others as the row has
them now.  `put` is that rule for one column, and the `merge` of a table the rule
for a row.
-/
namespace SupportPlatform

/-- A UUID. -/
abbrev Uuid := BitVec 128

/-- An instant in UTC, in microseconds. -/
abbrev Timestamp := Int

/-! ## Enumerations -/

/-- `Severity`. -/
inductive Severity
  | low | medium | high | critical
  deriving DecidableEq

/-- `IncidentClassification`. -/
inductive IncidentClassification
  | authenticationError | databaseConnectionError | timeoutError | unknownError
  deriving DecidableEq

/-- `AgentStatus`: the durable execution and human-review states. -/
inductive AgentStatus
  | pending | running | waitingForTool | completed | retryable | failed | cancelled
  | awaitingReview | approved | rejected
  deriving DecidableEq

/-- `AIResolutionStatus` as the table's CHECK constraint admits it. -/
inductive AIResolutionStatus
  | processing | retryable | completed | failed
  deriving DecidableEq

/-- `EvidenceReference.evidence_type`. -/
inductive EvidenceType
  | incident | runbook | similarIncident | resolution
  deriving DecidableEq

/-- `AgentStepRecord.action_type`. -/
inductive ActionType
  | tool | final
  deriving DecidableEq

/-- `AgentStepRecord.outcome`. -/
inductive StepOutcome
  | succeeded | repeatedToolCall | toolRequestRejected | finalMissingRequiredEvidence | completed
  deriving DecidableEq

/-- `ResolutionFeedbackRecord.outcome`. -/
inductive FeedbackOutcome
  | feedback | approved | rejected
  deriving DecidableEq

namespace Severity

/-- `severity.value`. -/
def value : Severity → Text
  | low => "low"
  | medium => "medium"
  | high => "high"
  | critical => "critical"

end Severity

namespace IncidentClassification

/-- `classification.value`. -/
def value : IncidentClassification → Text
  | authenticationError => "authentication_error"
  | databaseConnectionError => "database_connection_error"
  | timeoutError => "timeout_error"
  | unknownError => "unknown_error"

end IncidentClassification

namespace AgentStatus

/-- `status.value`. -/
def value : AgentStatus → Text
  | pending => "pending"
  | running => "running"
  | waitingForTool => "waiting_for_tool"
  | completed => "completed"
  | retryable => "retryable"
  | failed => "failed"
  | cancelled => "cancelled"
  | awaitingReview => "awaiting_review"
  | approved => "approved"
  | rejected => "rejected"

end AgentStatus

namespace EvidenceType

/-- The literal of the type. -/
def value : EvidenceType → Text
  | incident => "incident"
  | runbook => "runbook"
  | similarIncident => "similar_incident"
  | resolution => "resolution"

end EvidenceType

namespace ActionType

/-- The literal of the action. -/
def value : ActionType → Text
  | tool => "tool"
  | final => "final"

end ActionType

namespace StepOutcome

/-- The text of the outcome. -/
def value : StepOutcome → Text
  | succeeded => "succeeded"
  | repeatedToolCall => "repeated_tool_call"
  | toolRequestRejected => "tool_request_rejected"
  | finalMissingRequiredEvidence => "final_missing_required_evidence"
  | completed => "completed"

end StepOutcome

/-! ## Rows -/

/-- `IncidentRecord`. -/
structure Incident where
  id : Int
  service : Text
  error : Text
  log : Text
  requestedSeverity : Option Severity
  resolvedSeverity : Severity
  classification : IncidentClassification
  probableCause : Text
  recommendedActions : List Text
  createdAt : Timestamp
  deriving DecidableEq

/-- `OutboxEventRecord`. -/
structure OutboxEvent where
  eventId : Uuid
  incidentId : Int
  eventType : Text
  topic : Text
  payload : Json
  attempts : Nat
  nextAttemptAt : Timestamp
  lastError : Option Text
  publishedAt : Option Timestamp
  createdAt : Timestamp
  deriving DecidableEq

/-- `ProcessedEventRecord`. -/
structure ProcessedEvent where
  eventId : Uuid
  eventType : Text
  eventVersion : Nat
  incidentId : Int
  consumerGroup : Text
  processingResult : Json
  deriving DecidableEq

/-- `AgentExecutionRecord`. -/
structure Execution where
  executionId : Uuid
  incidentId : Int
  eventId : Uuid
  status : AgentStatus
  provider : Text
  model : Text
  plannerPromptName : Text
  plannerPromptVersion : Text
  resolverPromptName : Text
  resolverPromptVersion : Text
  stepCount : Nat
  toolCallCount : Nat
  modelCallCount : Nat
  retryCount : Nat
  retrievedChunkCount : Nat
  totalDurationMs : Option Float64
  providerDurationMs : Float64
  retrievalDurationMs : Float64
  toolDurationMs : Float64
  approximateInputChars : Nat
  approximateOutputChars : Nat
  providerUsage : Option Json
  errorType : Option Text
  errorMessageSafe : Option Text
  startedAt : Option Timestamp
  completedAt : Option Timestamp
  createdAt : Timestamp
  updatedAt : Timestamp
  deriving DecidableEq

/-- `AgentStepRecord`. -/
structure AgentStep where
  executionId : Uuid
  stepNumber : Nat
  actionType : ActionType
  toolName : Option Text
  sanitizedArguments : Option Json
  resultSummary : Option Json
  evidenceReferences : List Json
  reasonSummary : Text
  expectedEvidence : Text
  outcome : StepOutcome
  durationMs : Float64
  deriving DecidableEq

/-- `AIResolutionRecord`. -/
structure Resolution where
  id : Int
  incidentId : Int
  eventId : Uuid
  status : AIResolutionStatus
  attemptCount : Nat
  summary : Option Text
  rootCause : Option Text
  recommendedActions : Option (List Text)
  confidence : Option Float64
  citedSources : Option (List Json)
  evidenceSummary : Option Text
  toolsUsed : Option (List Text)
  limitations : Option (List Text)
  escalationRequired : Option Bool
  humanReviewRecommended : Option Bool
  retrievedContext : Option (List Json)
  llmProvider : Option Text
  llmModel : Option Text
  embeddingProvider : Option Text
  embeddingModel : Option Text
  promptName : Option Text
  promptVersion : Option Text
  errorMessage : Option Text
  processingStartedAt : Option Timestamp
  completedAt : Option Timestamp
  updatedAt : Timestamp
  deriving DecidableEq

/-- `ResolutionFeedbackRecord`. -/
structure Feedback where
  id : Int
  incidentId : Int
  resolutionId : Int
  rating : Option Nat
  outcome : FeedbackOutcome
  accepted : Bool
  edited : Bool
  comment : Option Text
  reviewer : Text
  deriving DecidableEq

/-! ## Writing back -/

/-- What an UPDATE leaves in a column: the edited value where it differs from the
loaded one, the present value elsewhere. -/
def put {α : Type} [DecidableEq α] (loaded edited current : α) : α :=
  if edited = loaded then current else edited

section put
variable {α : Type} [DecidableEq α]

@[simp] theorem put_unedited (a current : α) : put a a current = current := if_pos rfl

theorem put_current (loaded edited : α) : put loaded edited loaded = edited := by
  by_cases h : edited = loaded <;> simp [put, h]

/-- A column that is written keeps its value or takes the edited one. -/
theorem put_eq_or (loaded edited current : α) :
    put loaded edited current = current ∨
      edited ≠ loaded ∧ put loaded edited current = edited := by
  by_cases h : edited = loaded
  · exact .inl (if_pos h)
  · exact .inr ⟨h, if_neg h⟩

end put

/-- The row `current` after the UPDATE of an object loaded as `l` and edited to `e`. -/
def OutboxEvent.merge (l e current : OutboxEvent) : OutboxEvent where
  eventId := current.eventId
  incidentId := put l.incidentId e.incidentId current.incidentId
  eventType := put l.eventType e.eventType current.eventType
  topic := put l.topic e.topic current.topic
  payload := put l.payload e.payload current.payload
  attempts := put l.attempts e.attempts current.attempts
  nextAttemptAt := put l.nextAttemptAt e.nextAttemptAt current.nextAttemptAt
  lastError := put l.lastError e.lastError current.lastError
  publishedAt := put l.publishedAt e.publishedAt current.publishedAt
  createdAt := put l.createdAt e.createdAt current.createdAt

/-- The row `current` after the UPDATE of an object loaded as `l` and edited to `e`. -/
def Execution.merge (l e current : Execution) : Execution where
  executionId := current.executionId
  incidentId := put l.incidentId e.incidentId current.incidentId
  eventId := put l.eventId e.eventId current.eventId
  status := put l.status e.status current.status
  provider := put l.provider e.provider current.provider
  model := put l.model e.model current.model
  plannerPromptName := put l.plannerPromptName e.plannerPromptName current.plannerPromptName
  plannerPromptVersion :=
    put l.plannerPromptVersion e.plannerPromptVersion current.plannerPromptVersion
  resolverPromptName := put l.resolverPromptName e.resolverPromptName current.resolverPromptName
  resolverPromptVersion :=
    put l.resolverPromptVersion e.resolverPromptVersion current.resolverPromptVersion
  stepCount := put l.stepCount e.stepCount current.stepCount
  toolCallCount := put l.toolCallCount e.toolCallCount current.toolCallCount
  modelCallCount := put l.modelCallCount e.modelCallCount current.modelCallCount
  retryCount := put l.retryCount e.retryCount current.retryCount
  retrievedChunkCount :=
    put l.retrievedChunkCount e.retrievedChunkCount current.retrievedChunkCount
  totalDurationMs := put l.totalDurationMs e.totalDurationMs current.totalDurationMs
  providerDurationMs := put l.providerDurationMs e.providerDurationMs current.providerDurationMs
  retrievalDurationMs :=
    put l.retrievalDurationMs e.retrievalDurationMs current.retrievalDurationMs
  toolDurationMs := put l.toolDurationMs e.toolDurationMs current.toolDurationMs
  approximateInputChars :=
    put l.approximateInputChars e.approximateInputChars current.approximateInputChars
  approximateOutputChars :=
    put l.approximateOutputChars e.approximateOutputChars current.approximateOutputChars
  providerUsage := put l.providerUsage e.providerUsage current.providerUsage
  errorType := put l.errorType e.errorType current.errorType
  errorMessageSafe := put l.errorMessageSafe e.errorMessageSafe current.errorMessageSafe
  startedAt := put l.startedAt e.startedAt current.startedAt
  completedAt := put l.completedAt e.completedAt current.completedAt
  createdAt := put l.createdAt e.createdAt current.createdAt
  updatedAt := put l.updatedAt e.updatedAt current.updatedAt

/-- The row `current` after the UPDATE of an object loaded as `l` and edited to `e`. -/
def Resolution.merge (l e current : Resolution) : Resolution where
  id := current.id
  incidentId := put l.incidentId e.incidentId current.incidentId
  eventId := put l.eventId e.eventId current.eventId
  status := put l.status e.status current.status
  attemptCount := put l.attemptCount e.attemptCount current.attemptCount
  summary := put l.summary e.summary current.summary
  rootCause := put l.rootCause e.rootCause current.rootCause
  recommendedActions := put l.recommendedActions e.recommendedActions current.recommendedActions
  confidence := put l.confidence e.confidence current.confidence
  citedSources := put l.citedSources e.citedSources current.citedSources
  evidenceSummary := put l.evidenceSummary e.evidenceSummary current.evidenceSummary
  toolsUsed := put l.toolsUsed e.toolsUsed current.toolsUsed
  limitations := put l.limitations e.limitations current.limitations
  escalationRequired := put l.escalationRequired e.escalationRequired current.escalationRequired
  humanReviewRecommended :=
    put l.humanReviewRecommended e.humanReviewRecommended current.humanReviewRecommended
  retrievedContext := put l.retrievedContext e.retrievedContext current.retrievedContext
  llmProvider := put l.llmProvider e.llmProvider current.llmProvider
  llmModel := put l.llmModel e.llmModel current.llmModel
  embeddingProvider := put l.embeddingProvider e.embeddingProvider current.embeddingProvider
  embeddingModel := put l.embeddingModel e.embeddingModel current.embeddingModel
  promptName := put l.promptName e.promptName current.promptName
  promptVersion := put l.promptVersion e.promptVersion current.promptVersion
  errorMessage := put l.errorMessage e.errorMessage current.errorMessage
  processingStartedAt :=
    put l.processingStartedAt e.processingStartedAt current.processingStartedAt
  completedAt := put l.completedAt e.completedAt current.completedAt
  updatedAt := put l.updatedAt e.updatedAt current.updatedAt

/-- Writing back to the row that was loaded gives the edited row. -/
theorem OutboxEvent.merge_loaded {l e : OutboxEvent} (h : e.eventId = l.eventId) :
    l.merge e l = e := by
  cases l
  cases e
  simp only [OutboxEvent.merge, put_current]
  simp_all

@[simp] theorem OutboxEvent.merge_self (l current : OutboxEvent) :
    l.merge l current = current := by
  simp [OutboxEvent.merge]

@[simp] theorem Execution.merge_self (l current : Execution) : l.merge l current = current := by
  simp [Execution.merge]

end SupportPlatform
