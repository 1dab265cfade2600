import SupportPlatform.Calls

/-! # The transactional outbox

`KafkaEventProducer.publish`, `OutboxDispatcher` and the retry loop around it
(`app/events/producer.py`, `app/events/dispatcher.py`, `app/repositories/outbox.py`).
Spans, metrics and log lines are left out.
-/
namespace SupportPlatform
open Program
variable [Runtime] [Pydantic]

/-- `KafkaEventProducer.publish`: one acknowledged send, or `EventPublishError`. -/
def publish (event : IncidentCreatedEvent) (topic : Text) : Py Unit := do
  answer (← issue (.ensureTopic topic))
  match ← issue (.produce event topic) with
  | .acknowledged _ => pure ()
  | .raised e _ => throw ⟨.eventPublishError, "Kafka publish failed: " ++ e.message⟩
  | .undelivered remaining _ =>
      throw ⟨.eventPublishError,
        "Kafka publish timed out with " ++ Text.ofNat remaining ++ " undelivered message(s)"⟩
  | .deliveryError first _ => throw ⟨.eventPublishError, "Kafka delivery failed: " ++ first⟩

/-- `DispatchOutcome`. -/
inductive DispatchOutcome
  | published | deferred | unavailable
  deriving DecidableEq

namespace OutboxDispatcher

/-- `_retry_delay(attempt)`, in microseconds. -/
def retryDelay (attempt : Nat) : Int := (min (2 ^ min attempt 6) 60 : Nat) * 1000000

/-- The `except` clause of `dispatch_event`. -/
def deferEvent (record : OutboxEvent) (exc : PyExc) : Py DispatchOutcome := do
  let attempts := record.attempts + 1
  let time ← now
  commit .dispatch [.updateOutbox record
    { record with
      attempts := attempts
      lastError := some (exc.message.take 2000)
      nextAttemptAt := time + retryDelay attempts }]
  return .deferred

/-- What follows a publish that returned. -/
def markPublished (record : OutboxEvent) : Py DispatchOutcome := do
  let time ← now
  commit .dispatch [.updateOutbox record
    { record with
      attempts := record.attempts + 1
      publishedAt := some time
      lastError := none }]
  return .published

/-- The `try` block of `dispatch_event`: the exception its `except` clause handles, if any. -/
def attemptPublish (record : OutboxEvent) : Py (Option PyExc) :=
  tryExcept
    (do
      let event ← answer (IncidentCreatedEvent.modelValidate record.payload)
      publish event record.topic
      return none)
    [.eventPublishError, .valueError] fun exc => return some exc

/-- `dispatch_event(event_id)`. -/
def dispatchEvent (eventId : Uuid) : Py DispatchOutcome := withSession do
  match ← answer (← issue (.getForDispatch eventId)) with
  | none => return .unavailable
  | some record =>
      match ← attemptPublish record with
      | some exc => deferEvent record exc
      | none => markPublished record

/-- The loop of `dispatch_pending` over the listed identifiers. -/
def dispatchAll : List Uuid → Nat → Py Nat
  | [], published => return published
  | eventId :: eventIds, published => do
      match ← dispatchEvent eventId with
      | .published => dispatchAll eventIds (published + 1)
      | .deferred => return published
      | .unavailable => dispatchAll eventIds published

/-- `dispatch_pending()`. -/
def dispatchPending (batchSize : Nat) : Py Nat := do
  let eventIds ← withSession do
    let time ← now
    select (.pendingIds time batchSize)
  dispatchAll eventIds 0

/-- `OutboxRetryService._run`, for at most `fuel` rounds. -/
def retryLoop (batchSize : Nat) : Nat → Py Unit
  | 0 => return
  | fuel + 1 => do
      if ← stopRequested then return
      tryException (do let _ ← dispatchPending batchSize) fun _ => return
      retryLoop batchSize fuel

end OutboxDispatcher

end SupportPlatform
