import SupportPlatform.Calls

/-! # The Kafka worker

`IncidentEventProcessor.process` (`app/workers/processor.py`), and
`IncidentMessageHandler.handle` and `KafkaIncidentWorker.run` (`app/workers/runner.py`).
The processor takes any resolution workflow, the handler any processor and the consumer
loop any handler, as the classes of the source do.
-/
namespace SupportPlatform
open Program

/-! ## The processor -/

/-- `ProcessingOutcome`. -/
inductive ProcessingOutcome
  | processed | duplicate | failed
  deriving DecidableEq

/-- `ResolutionWorkflowOutcome`. -/
inductive ResolutionWorkflowOutcome
  | completed | failed
  deriving DecidableEq

/-- `outcome.value`. -/
def ResolutionWorkflowOutcome.value : ResolutionWorkflowOutcome → Text
  | completed => "completed"
  | failed => "failed"

/-- `ResolutionWorkflow`: a phase and the resolution of an event. -/
structure ResolutionWorkflow where
  phase : Nat
  resolve : IncidentCreatedEvent → Py ResolutionWorkflowOutcome

namespace IncidentEventProcessor

/-- The lookup before the workflow: whether the event has been processed already. -/
def isDuplicate (event : IncidentCreatedEvent) : Py Bool := withSession do
  match ← getProcessed event.eventId with
  | some _ => return true
  | none =>
      match ← getIncident event.incidentId with
      | some _ => return false
      | none =>
          throw ⟨.retryableProcessingError,
            "Incident " ++ Text.ofInt event.incidentId ++ " is not visible in PostgreSQL"⟩

/-- The `processing_result` of an event. -/
def processingResult (event : IncidentCreatedEvent) (phase : Nat) (status : Text) : Json :=
  .obj [("phase", .int phase), ("status", .str status),
    ("routing_key", .str (event.classification.value ++ ":" ++ event.severity.value))]

/-- Run the configured workflow, or the deterministic processing of the third phase. -/
def runWorkflow (workflow : Option ResolutionWorkflow) (event : IncidentCreatedEvent) :
    Py (Json × ProcessingOutcome) :=
  match workflow with
  | none => return (processingResult event 3 "prepared_for_future_ai_processing", .processed)
  | some workflow => do
      let outcome ← tryExcept (workflow.resolve event) [.retryableResolutionError] fun exc =>
        throw ⟨.retryableProcessingError, exc.message⟩
      return (processingResult event workflow.phase outcome.value,
        match outcome with
        | .completed => .processed
        | .failed => .failed)

/-- The insertion of the idempotency marker. -/
def insertMarker (consumerGroup : Text) (event : IncidentCreatedEvent) (result : Json)
    (outcome : ProcessingOutcome) : Py ProcessingOutcome := withSession do
  match ← getProcessed event.eventId with
  | some _ => return .duplicate
  | none =>
      tryExcept
        (do
          commit .marker [.insertProcessed
            { eventId := event.eventId
              eventType := incidentCreatedEventType
              eventVersion := incidentCreatedEventVersion
              incidentId := event.incidentId
              consumerGroup := consumerGroup
              processingResult := result }]
          return outcome)
        [.integrityError] fun _ => do
          issue .closeSession
          return .duplicate

/-- `process(event)`. -/
def process (consumerGroup : Text) (workflow : Option ResolutionWorkflow)
    (event : IncidentCreatedEvent) : Py ProcessingOutcome := do
  if ← isDuplicate event then return .duplicate
  let (result, outcome) ← runWorkflow workflow event
  insertMarker consumerGroup event result outcome

end IncidentEventProcessor

/-! ## The message handler -/

/-- `IncidentMessageHandler.handle(value)`. -/
def IncidentMessageHandler.handle [Pydantic]
    (process : IncidentCreatedEvent → Py ProcessingOutcome) (value : Option Bytes) :
    Py MessageOutcome :=
  match value with
  | none => return .malformed
  | some value => do
      let event ← tryExcept (some <$> answer (IncidentCreatedEvent.deserialize value))
        [.validationError, .valueError, .unicodeDecodeError] fun _ => return none
      match event with
      | none => return .malformed
      | some event =>
          let outcome ← tryExcept (some <$> process event) [.retryableProcessingError]
            fun _ => return none
          match outcome with
          | none => return .retry
          | some .duplicate => return .duplicate
          | some .failed => return .failed
          | some .processed => return .processed

/-! ## The consumer loop -/

namespace KafkaIncidentWorker

/-- `_seek_to_message(message)`. -/
def seekToMessage (m : Message) : Py Unit := do
  answer (← issue (.seek m.source m.offset))

/-- `consumer.commit(message=message, asynchronous=False)`. -/
def commitMessage (m : Message) : Py Unit := do
  answer (← issue (.commitOffset m.source m.offset)).result

/-- `wait_until_ready(stop)`, for at most `fuel` attempts. -/
def waitUntilReady (topic : Text) : Nat → Py Bool
  | 0 => return false
  | fuel + 1 => do
      if ← stopRequested then return false
      let ready ← tryExcept
        (do
          answer (← issue (.ensureTopic topic))
          issue (.subscribe topic)
          return true)
        [.eventPublishError] fun _ => return false
      if ready then return true
      waitUntilReady topic fuel

/-- What the loop does with one message. -/
def processMessage (handle : Option Bytes → Py MessageOutcome) (m : Message) : Py Unit := do
  let outcome ← tryException (some <$> handle m.value) fun _ => do
    seekToMessage m
    return none
  match outcome with
  | none => return
  | some outcome =>
      issue (.observe m outcome)
      if outcome = .retry then seekToMessage m
      else tryExcept (commitMessage m) [.kafkaException] fun _ => seekToMessage m

/-- The polling loop, for at most `fuel` polls. -/
def consume (handle : Option Bytes → Py MessageOutcome) : Nat → Py Unit
  | 0 => return
  | fuel + 1 => do
      if ← stopRequested then return
      match ← answer (← issue .poll) with
      | .nothing => consume handle fuel
      | .error => consume handle fuel
      | .message m => do
          processMessage handle m
          consume handle fuel

/-- `run(stop)`.  Closing the consumer at the end has no effect on offsets. -/
def run (topic : Text) (handle : Option Bytes → Py MessageOutcome) (fuel : Nat) : Py Unit := do
  if ← waitUntilReady topic fuel then consume handle fuel

end KafkaIncidentWorker

end SupportPlatform
