import SupportPlatform.Database
import SupportPlatform.EventModels
import SupportPlatform.Program
import SupportPlatform.Prompts

/-! # The world of the processes

Everything the modelled processes share, and every call by which they touch it: the
statements and transactions of the database, the broker and its consumer positions, the
model server, the retriever, the clocks.

A call is described by two functions.  `permits` says which answers it may get in a
state, `after` what the state is after an answer.  PostgreSQL is taken at READ
COMMITTED: a statement reads what is committed, a change waits while another
transaction holds a lock it needs, and a commit is atomic.  Kafka is taken as it
documents itself: an acknowledged message is in the log, a consumer's position moves with
`poll` and `seek`, and a partition is resumed at the committed offset.
-/
namespace SupportPlatform

/-! ## Calls -/

/-- The partition of a topic. -/
structure TopicPartition where
  topic : Text
  partition : Nat
  deriving DecidableEq

/-- A consumed Kafka message. -/
structure Message where
  source : TopicPartition
  offset : Nat
  value : Option Bytes

/-- What one poll of the consumer returns. -/
inductive PollResult
  | nothing
  | error
  | message (m : Message)

/-- `MessageOutcome`. -/
inductive MessageOutcome
  | processed | duplicate | malformed | retry | failed
  deriving DecidableEq

/-- What the producer client reports of one message.  `landed` is the partition where a
message that was not acknowledged was written nevertheless. -/
inductive ProduceReport
  | acknowledged (partition : Nat)
  | raised (e : PyExc) (landed : Option Nat)
  | undelivered (remaining : Nat) (landed : Option Nat)
  | deliveryError (first : Text) (landed : Option Nat)

/-- What a COMMIT reports.  A commit that failed may have taken effect, which its caller
is not told. -/
inductive CommitReport
  | committed
  | failed (e : PyExc) (applied : Bool)

/-- The response models a provider is asked for. -/
inductive ResponseModel
  | requiredIncidentDecision | requiredRetrievalDecision | plannerDecision | agentFinalResponse
  deriving DecidableEq

/-- What the model server answers: no connection, an HTTP error, or a body, which is
`none` when it is not JSON.  `raised` is any exception of the HTTP client that the adapter
does not translate. -/
inductive ChatReply
  | unreachable (message : Text)
  | status (code : Nat) (detail : Text)
  | body (json : Option Json)
  | raised (e : PyExc)

/-- `RetrievedChunk`. -/
structure RetrievedChunk where
  chunkId : Int
  sourceId : Text
  title : Text
  category : Text
  content : Text
  similarity : Rat
  deriving DecidableEq

/-- The transactions of the source that end in a commit. -/
inductive Transaction
  | intake | dispatch | marker | claim | modelMetadata | setStatus | toolStep | rejectedStep
  | final | failure | terminalFailure | review
  deriving DecidableEq

/-- The calls of the processes.  A monotonic clock is read at or after an earlier reading. -/
inductive Op
  | now
  | perfCounter (since : Option Rat)
  | uuid4
  | select (query : Query)
  | lockExecution (incidentId : Int)
  | getForDispatch (eventId : Uuid)
  | flushIncident (row : Incident)
  | flush (changes : List Change)
  | commit (txn : Transaction) (changes : List Change)
  | refreshFeedback (row : Feedback)
  | closeSession
  | ensureTopic (topic : Text)
  | produce (event : IncidentCreatedEvent) (topic : Text)
  | subscribe (topic : Text)
  | stopRequested
  | poll
  | seek (source : TopicPartition) (offset : Nat)
  | commitOffset (source : TopicPartition) (offset : Nat)
  | observe (m : Message) (outcome : MessageOutcome)
  | render (template : PromptTemplate) (values : Dict Text Text)
  | chat (prompt : Text) (model : ResponseModel)
  | retrieve (query : Text) (limit : Nat) (category : Option Text)
  | toolTimedOut

/-- The answers of a call. -/
def Resp : Op → Type
  | .now => Timestamp
  | .perfCounter _ => Rat
  | .uuid4 => Uuid
  | .select query => Except PyExc query.Result
  | .lockExecution _ => Except PyExc (Option Execution)
  | .getForDispatch _ => Except PyExc (Option OutboxEvent)
  | .flushIncident _ => Except PyExc Int
  | .flush _ => Except PyExc Unit
  | .commit _ _ => CommitReport
  | .refreshFeedback _ => Except PyExc Feedback
  | .closeSession => Unit
  | .ensureTopic _ => Except PyExc Unit
  | .produce _ _ => ProduceReport
  | .subscribe _ => Unit
  | .stopRequested => Bool
  | .poll => Except PyExc PollResult
  | .seek _ _ => Except PyExc Unit
  | .commitOffset _ _ => CommitReport
  | .observe _ _ => Unit
  | .render _ _ => Except PyExc Text
  | .chat _ _ => ChatReply
  | .retrieve _ _ _ => Except PyExc (List RetrievedChunk)
  | .toolTimedOut => Bool

/-- A function of the code: it issues calls, and returns or raises. -/
abbrev Py (α : Type) := Program Resp PyExc α

/-- The execution that a change writes. -/
def Change.execution? : Change → Option Uuid
  | .insertExecution r => some r.executionId
  | .updateExecution l _ => some l.executionId
  | _ => none

/-! ## States -/

/-- What happened so far, as far as the properties of the code speak of it.  No answer
depends on it. -/
structure History (W : Type) where
  /-- How many publishes of an event were acknowledged. -/
  acked : Uuid → Nat
  /-- How many of these were followed by a crash or a failed commit of the publisher. -/
  lost : Uuid → Nat
  /-- The event a process got acknowledged and has not committed yet. -/
  owing : W → Option Uuid
  /-- The messages that were handled to an outcome other than RETRY, in order. -/
  handled : List (TopicPartition × Nat)
  /-- The process whose transaction of a kind was the last to write an execution. -/
  writer : Transaction → Uuid → Option W

/-- The shared state. -/
structure World (W : Type) where
  db : Database
  /-- The process that holds a lock. -/
  locks : RowKey → Option W
  /-- The changes a process has sent and not committed. -/
  staged : W → List Change
  /-- The last value of the sequence of incident identifiers. -/
  incidentSeq : Int
  log : TopicPartition → List (Option Bytes)
  committed : TopicPartition → Nat
  position : W → TopicPartition → Option Nat
  hist : History W

namespace World
variable {W : Type} [DecidableEq W]

/-- Whether `w` can lock a key without waiting. -/
def Free (s : World W) (w : W) (k : RowKey) : Prop := s.locks k = none ∨ s.locks k = some w

instance (s : World W) (w : W) : DecidablePred (s.Free w) := fun k =>
  inferInstanceAs (Decidable (s.locks k = none ∨ s.locks k = some w))

/-- Whether `w` can send the changes without waiting. -/
def CanWrite (s : World W) (w : W) (cs : List Change) : Prop := ∀ c ∈ cs, ∀ k ∈ c.keys, s.Free w k

instance (s : World W) (w : W) : DecidablePred (s.CanWrite w) := fun cs =>
  inferInstanceAs (Decidable (∀ c ∈ cs, ∀ k ∈ c.keys, s.Free w k))

/-- `w` locks the keys. -/
def lock (s : World W) (w : W) (ks : List RowKey) : World W :=
  { s with locks := fun k => if k ∈ ks then some w else s.locks k }

/-- The end of `w`'s transaction: its locks are gone, and what it sent without commit. -/
def rollback (s : World W) (w : W) : World W :=
  { s with
    locks := fun k => if s.locks k = some w then none else s.locks k
    staged := Function.update s.staged w [] }

/-- The outbox row that a SELECT ... FOR UPDATE SKIP LOCKED finds. -/
def dispatchable (s : World W) (w : W) (eventId : Uuid) : Option OutboxEvent :=
  (s.db.outbox? eventId).filter fun r => r.publishedAt = none ∧ s.Free w (.outbox eventId)

/-- A message is written to a partition. -/
def append (s : World W) (source : TopicPartition) (value : Option Bytes) : World W :=
  { s with log := Function.update s.log source (s.log source ++ [value]) }

/-- The process has no use any more for what it got acknowledged: its commit failed, or
it crashed. -/
def forfeit (s : World W) (w : W) : World W :=
  match s.hist.owing w with
  | none => s
  | some id =>
      { s with hist := { s.hist with
          lost := Function.update s.hist.lost id (s.hist.lost id + 1)
          owing := Function.update s.hist.owing w none } }

/-- The transaction's changes take effect. -/
def settle (s : World W) (w : W) (txn : Transaction) (cs : List Change) : World W :=
  let all := s.staged w ++ cs
  { s.rollback w with
    db := s.db.applyAll all
    hist := { s.hist with
      writer := fun t x =>
        if t = txn ∧ some x ∈ all.map Change.execution? then some w
        else s.hist.writer t x } }

end World

/-! ## Answers and effects -/

/-- What the environment of the processes can do: whether statements can fail for
operational reasons, and which chunks the knowledge base holds. -/
structure Environment where
  dbFaults : Bool
  corpus : RetrievedChunk → Bool

namespace Environment
variable (env : Environment)

/-- An operational failure of the database. -/
def Fault (e : PyExc) : Prop := env.dbFaults = true ∧ e.cls = .operationalError

/-- A statement that reads `v` answers `v`, or fails. -/
def Answers {α : Type} (v : α) : Except PyExc α → Prop
  | .ok x => x = v
  | .error e => env.Fault e

instance : DecidablePred env.Fault := fun e =>
  inferInstanceAs (Decidable (env.dbFaults = true ∧ e.cls = .operationalError))

instance {α : Type} [DecidableEq α] (v : α) : DecidablePred (env.Answers v) := fun r =>
  match r with
  | .ok x => inferInstanceAs (Decidable (x = v))
  | .error e => inferInstanceAs (Decidable (env.Fault e))

variable {W : Type} [DecidableEq W]

/-- The changes can be sent and meet every constraint. -/
def Accepts (s : World W) (w : W) (cs : List Change) : Prop :=
  s.CanWrite w cs ∧ s.db.admitsAll (s.staged w ++ cs) ∧ ∀ c ∈ cs, c.storable

/-- Why sending the changes can fail. -/
def Refuses (s : World W) (w : W) (cs : List Change) (e : PyExc) : Prop :=
  env.Fault e ∨ (∃ c ∈ cs, ¬ c.storable) ∧ e.cls = .dataError ∨
    s.CanWrite w cs ∧ ¬ s.db.admitsAll (s.staged w ++ cs) ∧ e.cls = .integrityError

instance (s : World W) (w : W) (cs : List Change) : Decidable (Accepts s w cs) :=
  inferInstanceAs (Decidable (_ ∧ _ ∧ _))

instance (s : World W) (w : W) (cs : List Change) (e : PyExc) :
    Decidable (env.Refuses s w cs e) :=
  inferInstanceAs (Decidable (_ ∨ _ ∨ _))

end Environment

section
variable {W : Type} [DecidableEq W]

/-- The answers that a call of `w` can get. -/
def permits [Runtime] (env : Environment) (w : W) (s : World W) : (o : Op) → Resp o → Prop
  | .now, t => Timestamp.InCalendar t
  | .perfCounter since, r => ∀ t ∈ since, t ≤ r
  | .uuid4, _ => True
  | .select query, r => env.Answers (s.db.eval query) r
  | .lockExecution i, r =>
      env.Answers (s.db.executionOf i) r ∧
        ∀ x ∈ (s.db.executionOf i).toList, s.Free w (.execution x.executionId)
  | .getForDispatch id, r => env.Answers (s.dispatchable w id) r
  | .flushIncident row, r => match r with
      | .ok id => id = s.incidentSeq + 1 ∧ (Change.insertIncident row).storable
      | .error e => env.Refuses s w [.insertIncident row] e
  | .flush cs, r => match r with
      | .ok _ => Environment.Accepts s w cs
      | .error e => env.Refuses s w cs e
  | .commit _ cs, r => match r with
      | .committed => Environment.Accepts s w cs
      | .failed e applied =>
          applied = true ∧ env.Fault e ∧ Environment.Accepts s w cs ∨
            applied = false ∧ env.Refuses s w cs e
  | .refreshFeedback row, r => match r with
      | .ok x => x ∈ s.db.feedback ∧ { x with id := row.id } = row
      | .error e => env.Fault e
  | .closeSession, _ => True
  | .ensureTopic _, r => match r with
      | .ok _ => True
      | .error e => e.cls = .eventPublishError
  | .produce _ _, r => match r with
      | .undelivered remaining _ => 0 < remaining
      | _ => True
  | .subscribe _, _ => True
  | .stopRequested, _ => True
  | .poll, r => match r with
      | .ok (.message m) => (s.log m.source)[m.offset]? = some m.value ∧
          (s.position w m.source = some m.offset ∨ s.committed m.source = m.offset)
      | _ => True
  | .seek _ _, _ => True
  | .commitOffset _ _, _ => True
  | .observe _ _, _ => True
  | .render template values, r => r = template.render values
  | .chat _ _, _ => True
  | .retrieve _ limit _, r => match r with
      | .ok chunks => chunks.length ≤ limit ∧ ∀ c ∈ chunks, env.corpus c
      | .error _ => True
  | .toolTimedOut, _ => True

/-- The state after a call of `w` and its answer. -/
def after [Runtime] [Pydantic] (w : W) (s : World W) : (o : Op) → Resp o → World W
  | .lockExecution _, r => match r with
      | .ok (some x) => s.lock w [.execution x.executionId]
      | _ => s
  | .getForDispatch id, r => match r with
      | .ok (some _) => s.lock w [.outbox id]
      | _ => s
  | .flushIncident row, r => match r with
      | .ok id => { s with
          incidentSeq := id
          staged := Function.update s.staged w
            (s.staged w ++ [.insertIncident { row with id := id }]) }
      | .error _ => s
  | .flush cs, r => match r with
      | .ok _ => { s.lock w (cs.flatMap Change.keys) with
          staged := Function.update s.staged w (s.staged w ++ cs) }
      | .error _ => s
  | .commit txn cs, r => match r with
      | .committed => { s.settle w txn cs with
          hist := { (s.settle w txn cs).hist with owing := Function.update s.hist.owing w none } }
      | .failed _ true => (s.settle w txn cs).forfeit w
      | .failed _ false => s.forfeit w
  | .closeSession, _ => s.rollback w
  | .produce event topic, r =>
      let landed := match r with
        | .acknowledged p => some p
        | .raised _ landed | .undelivered _ landed | .deliveryError _ landed => landed
      let s := match landed with
        | some p => s.append ⟨topic, p⟩ (some event.serialize)
        | none => s
      match r with
      | .acknowledged _ => { s with hist := { s.hist with
          acked := Function.update s.hist.acked event.eventId (s.hist.acked event.eventId + 1)
          owing := Function.update s.hist.owing w (some event.eventId) } }
      | _ => s
  | .poll, r => match r with
      | .ok (.message m) => { s with
          position := Function.update s.position w
            (Function.update (s.position w) m.source (some (m.offset + 1))) }
      | _ => s
  | .seek source offset, r => match r with
      | .ok _ => { s with
          position := Function.update s.position w
            (Function.update (s.position w) source (some offset)) }
      | .error _ => s
  | .commitOffset source offset, r => match r with
      | .committed | .failed _ true =>
          { s with committed := Function.update s.committed source (offset + 1) }
      | .failed _ false => s
  | .observe m outcome, _ =>
      if outcome = .retry then s
      else { s with hist := { s.hist with handled := s.hist.handled ++ [(m.source, m.offset)] } }
  | _, _ => s

/-- **A crash of `w`**: its transaction is rolled back and its consumer is gone. -/
def World.crash (w : W) (s : World W) : World W :=
  { (s.rollback w).forfeit w with position := Function.update s.position w fun _ => none }

/-- **The system** of processes on the shared world. -/
def platform [Runtime] [Pydantic] (env : Environment) : Program.System Resp W (World W) where
  act w o s r s' := permits env w s o r ∧ s' = after w s o r
  abort w s := s.crash w

end

end SupportPlatform
