import SupportPlatform.IncidentDelivery
import SupportPlatform.WorkflowCalls

/-! # Every accepted incident is kept

The whole platform at work: intakes, dispatchers, the retry loop, workers of one consumer group
and review requests, in any number and any order, crashing anywhere.  Its runs are in two
disciplines at once, that of the delivery and that of consumption.  In the first, what was
handled is discharged; in the second, what lies below a committed offset was handled.
-/
namespace SupportPlatform
open Program World

/-! ## The jobs -/

/-- What a process of the platform does. -/
inductive PlatformJob
  | intake (topic : Text) (incident : IncidentRequest)
  | dispatchEvent (eventId : Uuid)
  | dispatchPending (batchSize : Nat)
  | retryLoop (batchSize fuel : Nat)
  | worker (topic consumerGroup : Text) (workflow : Option ControlledAgentWorkflow) (fuel : Nat)
  | review (incidentId : Int) (feedback : FeedbackRequest) (outcome : FeedbackOutcome)

section
variable [Runtime] [Pydantic]

/-- The handler of a worker. -/
def incidentHandler (consumerGroup : Text) (workflow : Option ControlledAgentWorkflow) :
    Option Bytes → Py MessageOutcome :=
  IncidentMessageHandler.handle
    (IncidentEventProcessor.process consumerGroup (workflow.map (·.workflow)))

/-- Its program. -/
def PlatformJob.main : PlatformJob → Py Unit
  | intake topic incident => analyzeAndPersistIncident topic incident >>= fun _ => ret ()
  | dispatchEvent eventId => OutboxDispatcher.dispatchEvent eventId >>= fun _ => ret ()
  | dispatchPending batchSize => OutboxDispatcher.dispatchPending batchSize >>= fun _ => ret ()
  | retryLoop batchSize fuel => OutboxDispatcher.retryLoop batchSize fuel
  | worker topic consumerGroup workflow fuel =>
      KafkaIncidentWorker.run topic (incidentHandler consumerGroup workflow) fuel
  | review incidentId feedback outcome =>
      recordFeedback incidentId feedback outcome >>= fun _ => ret ()

/-! ## The calls of the outbox -/

/-- A change of the outbox. -/
def Change.OfOutbox : Change → Prop
  | .insertOutbox _ | .updateOutbox _ _ => True
  | _ => False

/-- **The calls by which events are filed and dispatched** are allowed. -/
structure OutboxCalls (A : Op → Prop) : Prop where
  now : A .now
  uuid4 : A .uuid4
  stopRequested : A .stopRequested
  pendingIds : ∀ time limit, A (.select (.pendingIds time limit))
  getForDispatch : ∀ eventId, A (.getForDispatch eventId)
  ensureTopic : ∀ topic, A (.ensureTopic topic)
  produce : ∀ event topic, A (.produce event topic)
  flushIncident : ∀ row, A (.flushIncident row)
  flush : ∀ cs : List Change, (∀ c ∈ cs, c.OfOutbox) → A (.flush cs)
  commit : ∀ (txn : Transaction) (cs : List Change), (∀ c ∈ cs, c.OfOutbox) → A (.commit txn cs)
  closeSession : A .closeSession

section
variable {α : Type} {A : Op → Prop}

section
omit [Runtime] [Pydantic]

theorem session_only {body : Py α} (hclose : A .closeSession) (h : body.Only A) :
    (withSession body).Only A := h.andFinally (only_ask.mpr hclose)

theorem tryExcept_only {p : Py α} {classes : List ExcClass} {handler : PyExc → Py α}
    (hp : p.Only A) (hh : ∀ e, (handler e).Only A) : (tryExcept p classes handler).Only A := by
  refine hp.tryCatch fun e => ?_
  split
  · exact hh e
  · trivial

theorem select_only {query : Query} (h : A (.select query)) : (select query).Only A :=
  Only.bind (only_ask.mpr h) fun _ => only_answer _

theorem commit_only {txn : Transaction} {cs : List Change} (h : A (.commit txn cs)) :
    (commit txn cs).Only A :=
  Only.bind (only_ask.mpr h) fun _ => only_answer _

theorem flush_only {cs : List Change} (h : A (.flush cs)) : (flush cs).Only A :=
  Only.bind (only_ask.mpr h) fun _ => only_answer _

end

variable (hA : OutboxCalls A)
include hA

omit [Runtime] in
theorem dispatchEvent_only (eventId : Uuid) : (OutboxDispatcher.dispatchEvent eventId).Only A := by
  refine session_only hA.closeSession (Only.bind (only_ask.mpr (hA.getForDispatch _)) fun r =>
    Only.bind (only_answer _) fun found => ?_)
  cases found with
  | none => trivial
  | some record =>
      have hrecord : ∀ edited, (commit .dispatch [.updateOutbox record edited]).Only A :=
        fun _ => commit_only (hA.commit _ _ (List.forall_mem_singleton.mpr trivial))
      refine Only.bind (tryExcept_only ?_ fun _ => trivial) fun failure => ?_
      · refine Only.bind (only_answer _) fun event => Only.bind ?_ fun _ => trivial
        refine Only.bind (only_ask.mpr (hA.ensureTopic _)) fun _ => Only.bind (only_answer _) fun _ =>
          Only.bind (only_ask.mpr (hA.produce _ _)) fun report => ?_
        cases report <;> trivial
      · cases failure with
        | none => exact Only.bind (only_ask.mpr hA.now) fun _ => Only.bind (hrecord _) fun _ => trivial
        | some exc =>
            exact Only.bind (only_ask.mpr hA.now) fun _ => Only.bind (hrecord _) fun _ => trivial

omit [Runtime] in
theorem dispatchPending_only (batchSize : Nat) :
    (OutboxDispatcher.dispatchPending batchSize).Only A := by
  refine Only.bind (session_only hA.closeSession (Only.bind (only_ask.mpr hA.now) fun _ =>
    select_only (hA.pendingIds _ _))) fun eventIds => ?_
  suffices h : ∀ published, (OutboxDispatcher.dispatchAll eventIds published).Only A from h 0
  induction eventIds with
  | nil => exact fun _ => trivial
  | cons eventId eventIds ih =>
      intro published
      refine Only.bind (dispatchEvent_only hA eventId) fun outcome => ?_
      cases outcome with
      | published => exact ih _
      | deferred => trivial
      | unavailable => exact ih _

omit [Runtime] in
theorem retryLoop_only (batchSize fuel : Nat) :
    (OutboxDispatcher.retryLoop batchSize fuel).Only A := by
  induction fuel with
  | zero => trivial
  | succ fuel ih =>
      refine Only.bind (only_ask.mpr hA.stopRequested) fun stop => ?_
      cases stop with
      | true => trivial
      | false =>
          refine Only.bind (Only.tryCatch ?_ fun _ => trivial) fun _ => ih
          exact Only.bind (dispatchPending_only hA batchSize) fun _ => trivial

theorem analyzeAndPersistIncident_only (topic : Text) (incident : IncidentRequest) :
    (analyzeAndPersistIncident topic incident).Only A := by
  refine session_only hA.closeSession (Only.bind (tryExcept_only ?_ fun e => ?_) fun event => ?_)
  · refine Only.bind (Only.bind (only_ask.mpr hA.now) fun _ =>
      Only.bind (only_ask.mpr (hA.flushIncident _)) fun _ => Only.bind (only_answer _)
        fun _ => trivial) fun record => ?_
    refine Only.bind (Only.bind (only_ask.mpr hA.uuid4) fun eventId =>
      Only.bind (only_ask.mpr hA.now) fun occurredAt => ?_) fun event => ?_
    · split <;> trivial
    · refine Only.bind (Only.bind (only_ask.mpr hA.now) fun _ => flush_only (hA.flush _ ?_)) fun _ =>
        Only.bind (commit_only (hA.commit _ _ (List.forall_mem_nil _))) fun _ => trivial
      exact List.forall_mem_singleton.mpr trivial
  · exact Only.bind (only_ask.mpr hA.closeSession) fun _ => trivial
  · refine Only.bind (Only.tryCatch ?_ fun _ => trivial) fun _ => trivial
    exact Only.bind (dispatchEvent_only hA event.eventId) fun _ => trivial

end

/-! ## Calls that leave the consumer alone -/

section

omit [Runtime] [Pydantic] in
theorem outbox_leaves : OutboxCalls Op.LeavesConsumer :=
  ⟨trivial, trivial, trivial, fun _ _ => trivial, fun _ => trivial, fun _ => trivial,
    fun _ _ => trivial, fun _ => trivial, fun _ _ => trivial, fun _ _ _ => trivial, trivial⟩

omit [Runtime] [Pydantic] in
theorem recordFeedback_leaves (incidentId : Int) (feedback : FeedbackRequest)
    (outcome : FeedbackOutcome) :
    (recordFeedback incidentId feedback outcome).Only Op.LeavesConsumer := by
  refine session_only trivial (Only.bind (select_only trivial) fun incident => ?_)
  cases incident with
  | none => trivial
  | some incident =>
      refine Only.bind (select_only trivial) fun execution => ?_
      cases execution with
      | none => trivial
      | some execution =>
          dsimp only
          split
          · trivial
          refine Only.bind (Only.bind (select_only trivial) fun resolution =>
            Only.bind (select_only trivial) fun again => ?_) fun record => ?_
          · split
            · exact Only.bind (only_ask.mpr trivial) fun _ => Only.bind (commit_only trivial)
                fun _ => Only.bind (only_ask.mpr trivial) fun _ =>
                  Only.bind (only_answer _) fun _ => trivial
            · trivial
          · cases record <;> trivial

/-- **A handler** has no access to the consumer, whatever the workflow does. -/
theorem incidentHandler_leaves (consumerGroup : Text) (workflow : Option ControlledAgentWorkflow)
    (value : Option Bytes) : (incidentHandler consumerGroup workflow value).Only
      Op.LeavesConsumer := by
  have hsession : ∀ event, (IncidentEventProcessor.isDuplicate event).Only Op.LeavesConsumer := by
    intro event
    refine session_only trivial (Only.bind (select_only trivial) fun found => ?_)
    cases found with
    | some row => trivial
    | none =>
        refine Only.bind (select_only trivial) fun incident => ?_
        cases incident <;> trivial
  have hmarker : ∀ event result outcome, (IncidentEventProcessor.insertMarker consumerGroup event
      result outcome).Only Op.LeavesConsumer := by
    intro event result outcome
    refine session_only trivial (Only.bind (select_only trivial) fun found => ?_)
    cases found with
    | some row => trivial
    | none =>
        refine tryExcept_only (Only.bind (commit_only trivial) fun _ => trivial) fun _ => ?_
        exact Only.bind (only_ask.mpr trivial) fun _ => trivial
  have hworkflow : ∀ event, (IncidentEventProcessor.runWorkflow (workflow.map (·.workflow))
      event).Only Op.LeavesConsumer := by
    intro event
    cases workflow with
    | none => trivial
    | some wf =>
        refine Only.bind (tryExcept_only ?_ fun _ => trivial) fun outcome => ?_
        · have hhousekeeping : Housekeeping Op.LeavesConsumer :=
            ⟨trivial, fun _ => trivial, fun _ => trivial, fun _ => trivial, fun _ _ => trivial,
              fun _ => trivial, fun _ => trivial, fun _ _ => trivial, trivial, fun _ _ => trivial,
              trivial⟩
          exact (resolve_uses hhousekeeping wf (fun _ => trivial) (fun _ _ _ => trivial)
            (fun _ _ => trivial) event (fun _ => trivial) trivial).only
        · cases outcome <;> trivial
  cases value with
  | none => trivial
  | some value =>
      refine Only.bind (tryExcept_only ?_ fun _ => trivial) fun event => ?_
      · exact Only.bind (only_answer _) fun _ => trivial
      cases event with
      | none => trivial
      | some event =>
          refine Only.bind (tryExcept_only (Only.bind ?_ fun _ => trivial) fun _ => trivial)
            fun outcome => ?_
          · refine Only.bind (hsession event) fun found => ?_
            split
            · trivial
            · exact Only.bind (hworkflow event) fun out => hmarker event _ _
          · rcases outcome with _ | _ | _ | _ <;> trivial

end

end

/-! ## Runs -/

section
variable [Runtime] [Pydantic] {W : Type} [DecidableEq W] {env : Environment}

theorem leaves_safe {α : Type} {base : TopicPartition → Nat} {w : W} {s : World W} {p : Py α}
    (hp : p.Only Op.LeavesConsumer) :
    p.Safe (consumption env base).discipline w (fun _ _ => True) (fun _ _ => True) s := by
  refine Safe.of_only (P := fun _ => True) hp (fun o ho s t r u _ _ ⟨hL, hI⟩ ⟨_, hperm, hu⟩ => ?_)
    trivial
  subst hu
  have hsame := after_leavesConsumer (w := w) (s := t) r ho
  exact ⟨⟨⟨after_locked hL hperm, hsame.inv hI⟩,
    fun v hv => ⟨after_frame hL hperm hv, hsame.grows⟩, trivial⟩, trivial⟩

/-- Every job keeps the order of handling. -/
theorem PlatformJob.consumes (job : PlatformJob) {base : TopicPartition → Nat} {w : W}
    {s : World W} (h : CaughtUp base w s) :
    job.main.Safe (consumption env base).discipline w (fun _ _ => True) (fun _ _ => True) s := by
  cases job with
  | intake topic incident =>
      exact leaves_safe (Only.bind (analyzeAndPersistIncident_only outbox_leaves topic incident)
        fun _ => trivial)
  | dispatchEvent eventId =>
      exact leaves_safe (Only.bind (dispatchEvent_only outbox_leaves eventId) fun _ => trivial)
  | dispatchPending batchSize =>
      exact leaves_safe (Only.bind (dispatchPending_only outbox_leaves batchSize) fun _ => trivial)
  | retryLoop batchSize fuel => exact leaves_safe (retryLoop_only outbox_leaves batchSize fuel)
  | worker topic consumerGroup workflow fuel =>
      exact run_safe topic ⟨incidentHandler consumerGroup workflow,
        incidentHandler_leaves consumerGroup workflow⟩ fuel h
  | review incidentId feedback outcome =>
      exact leaves_safe (Only.bind (recordFeedback_leaves incidentId feedback outcome)
        fun _ => trivial)

omit [Runtime] [Pydantic] in
theorem recordFeedback_aside (incidentId : Int) (feedback : FeedbackRequest)
    (outcome : FeedbackOutcome) :
    ∃ body : Py Feedback, recordFeedback incidentId feedback outcome = withSession body ∧
      body.Only Op.Aside := by
  refine ⟨_, rfl, Only.bind (select_aside _) fun incident => ?_⟩
  cases incident with
  | none => trivial
  | some incident =>
      refine Only.bind (select_aside _) fun execution => ?_
      cases execution with
      | none => trivial
      | some execution =>
          dsimp only
          split
          · trivial
          refine Only.bind (Only.bind (select_aside _) fun resolution =>
            Only.bind (select_aside _) fun again => ?_) fun record => ?_
          · split
            · refine Only.bind (only_ask.mpr trivial) fun time => Only.bind (commit_aside ?_) fun _ =>
                Only.bind (only_ask.mpr trivial) fun _ => Only.bind (only_answer _) fun _ => trivial
              intro c hc
              rw [reviewChanges] at hc
              split at hc
              · rcases List.mem_pair.mp hc with rfl | rfl <;> trivial
              · rw [List.mem_singleton] at hc
                exact hc ▸ trivial
            · trivial
          · cases record <;> trivial

/-- Every job keeps the delivery. -/
theorem PlatformJob.delivers [LawfulPydantic] (job : PlatformJob) {base : TopicPartition → Nat}
    {w : W} {s : World W} (hs : s.staged w = []) :
    job.main.Safe (delivery env base).discipline w (fun _ _ => True) (fun _ _ => True) s := by
  cases job with
  | intake topic incident =>
      exact safe_bind.mpr ((analyzeAndPersistIncident_delivered topic incident hs).mono
        (fun _ _ _ => trivial) fun _ _ _ => trivial)
  | dispatchEvent eventId =>
      exact safe_bind.mpr ((dispatchEvent_delivered eventId hs).mono (fun _ _ _ => trivial)
        fun _ _ _ => trivial)
  | dispatchPending batchSize =>
      exact safe_bind.mpr ((dispatchPending_delivered batchSize hs).mono (fun _ _ _ => trivial)
        fun _ _ _ => trivial)
  | retryLoop batchSize fuel =>
      exact (retryLoop_delivered batchSize fuel hs).mono (fun _ _ _ => trivial)
        fun _ _ _ => trivial
  | worker topic consumerGroup workflow fuel =>
      exact worker_delivered topic consumerGroup workflow fuel hs
  | review incidentId feedback outcome =>
      obtain ⟨body, hbody, haside⟩ := recordFeedback_aside incidentId feedback outcome
      refine safe_bind.mpr ?_
      rw [hbody]
      exact (aside_session haside hs).mono (fun _ _ _ => trivial) fun _ _ _ => trivial

/-- A state of the platform at rest: the rows of the outbox are those of the incidents, each is
pending, in the topic or processed, and nobody is at work. -/
structure PlatformStart (s : World W) : Prop where
  listed : s.db.outbox.map (·.incidentId) = s.db.incidents.map (·.id)
  incidents : (s.db.incidents.map (·.id)).Nodup
  events : (s.db.outbox.map (·.eventId)).Nodup
  rows : ∀ r ∈ s.db.outbox, r.Accounted s.committed s
  committed : ∀ source, s.committed source ≤ (s.log source).length
  handled : s.hist.handled = []
  position : ∀ w source, s.position w source = none
  staged : ∀ w, s.staged w = []

/-- **The event of the incident is not lost** in its row: it is pending, in the topic where the
group is still to read it, or processed. -/
def OutboxEvent.Kept (s : World W) (i : Incident) (r : OutboxEvent) : Prop :=
  ∃ event, r.Carries event r.topic ∧ event.Describes i ∧ (r.publishedAt = none ∨
    (∃ partition offset, s.committed ⟨r.topic, partition⟩ ≤ offset ∧
      (s.log ⟨r.topic, partition⟩)[offset]? = some (some event.serialize)) ∨
    s.db.processed? event.eventId ≠ none)

section
variable {s s₀ : World W}

theorem PlatformStart.delivery (h : PlatformStart s₀) :
    (delivery env s₀.committed).discipline.inv s₀ := by
  have hlocked : s₀.Locked := by
    intro w c hc
    rw [h.staged w] at hc
    cases hc
  refine ⟨hlocked, h.listed, h.incidents, h.events, h.rows, h.committed, fun source offset ho => ?_⟩
  rw [h.handled] at ho
  cases ho

theorem PlatformStart.consumption (h : PlatformStart s₀) :
    (consumption env s₀.committed).discipline.inv s₀ := by
  have hstart : (SupportPlatform.delivery env s₀.committed).discipline.inv s₀ := h.delivery
  refine ⟨hstart.1, fun i source o hi => ?_, fun source o hb ho => ?_⟩
  · rw [h.handled] at hi
    cases hi
  · omega

omit [DecidableEq W] in
/-- **Where the messages up to the committed offset were handled**, a row is kept. -/
theorem OutboxEvent.Accounted.kept [LawfulPydantic] {base : TopicPartition → Nat}
    {r : OutboxEvent} {i : Incident} (h : r.Accounted base s) (hd : DeliveryInv base s)
    (hc : ConsumerInv base s) (hi : i ∈ s.db.incidents) (hr : r.incidentId = i.id) :
    r.Kept s i := by
  obtain ⟨event, hcarries, ⟨j, hj, hdescribes⟩, hsent⟩ := h
  have hij : j = i := List.inj_on_of_nodup_map hd.incidents hj hi
    (hdescribes.incidentId.symm.trans (hcarries.incidentId.symm.trans hr))
  refine ⟨event, hcarries, hij ▸ hdescribes, ?_⟩
  by_cases hpending : r.publishedAt = none
  · exact .inl hpending
  rcases hsent hpending with ⟨partition, offset, hbase, hvalue⟩ | hmarked
  · by_cases hread : s.committed ⟨r.topic, partition⟩ ≤ offset
    · exact .inr (.inl ⟨partition, offset, hread, hvalue⟩)
    · -- the group has gone past the message, so it was handled, and its event processed
      have hhandled := hc.committed ⟨r.topic, partition⟩ offset hbase (by omega)
      obtain ⟨value, hvalue', hdischarged⟩ := hd.discharged _ offset hhandled
      rw [hvalue] at hvalue'
      cases hvalue'
      exact .inr (.inr (hdischarged _ event rfl event.deserialize_serialize))
  · exact .inr (.inr hmarked)

omit [DecidableEq W] in
/-- The one row of an incident. -/
theorem DeliveryInv.row_of_incident {base : TopicPartition → Nat} (h : DeliveryInv base s)
    {i : Incident} (hi : i ∈ s.db.incidents) :
    ∃ row, (s.db.outbox.filter fun r => r.incidentId = i.id) = [row] := by
  have hmem : i.id ∈ s.db.outbox.map (·.incidentId) := by
    rw [h.listed]
    exact List.mem_map_of_mem hi
  have hnodup : (s.db.outbox.map (·.incidentId)).Nodup := by
    rw [h.listed]
    exact h.incidents
  have hcount : ((s.db.outbox.map (·.incidentId)).filter (· = i.id)).length = 1 := by
    have := List.count_eq_one_of_mem hnodup hmem
    rwa [List.count_eq_length_filter] at this
  rw [List.filter_map, List.length_map] at hcount
  exact List.length_eq_one_iff.mp hcount

section
variable [LawfulPydantic] (h₀ : PlatformStart s₀) (jobs : W → PlatformJob)
  {p q : Pool Resp PyExc Unit W (World W)}
  (hp : Pool.Reachable (platform env) (fun w => (jobs w).main) s₀ p)
include h₀ hp

/-- The delivery is as it should be in every state that is reached. -/
theorem PlatformStart.delivered : DeliveryInv s₀.committed p.world :=
  (hp.unrestricted.inv h₀.delivery fun w => (jobs w).delivers (h₀.staged w)).2

/-- **Incidents stay**, in their order, and new ones come after them. -/
theorem PlatformStart.keepsIncidents (hq : Relation.ReflTransGen (Pool.Next (platform env)) p q) :
    p.world.db.incidents <+: q.world.db.incidents := by
  refine hp.unrestricted.stable (P := fun s => p.world.db.incidents <+: s.db.incidents)
    h₀.delivery (fun w => (jobs w).delivers (h₀.staged w))
    (fun _ _ _ _ _ hg hs => hs.trans hg.2.incidents) (fun w s hs => ?_)
    (Pool.Next.unrestricted hq) List.prefix_rfl
  simpa [platform, System.restrict, World.crash, World.rollback] using hs

/-- Each incident has one row, in which its event is kept. -/
theorem PlatformStart.keepsRows {i : Incident} (hi : i ∈ p.world.db.incidents) :
    ∃ row, (p.world.db.outbox.filter fun r => r.incidentId = i.id) = [row] ∧
      row.Kept p.world i := by
  have hconsumes : ∀ w, (jobs w).main.Safe
      (SupportPlatform.consumption env s₀.committed).discipline w (fun _ _ => True)
      (fun _ _ => True) s₀ := fun w => (jobs w).consumes fun source o ho => by
    rw [h₀.position w source] at ho
    cases ho
  have hd := h₀.delivered jobs hp
  have hc := (hp.unrestricted.inv h₀.consumption hconsumes).2
  obtain ⟨row, hrow⟩ := hd.row_of_incident hi
  have hmem : row ∈ p.world.db.outbox.filter fun r => r.incidentId = i.id := by
    rw [hrow]
    exact List.mem_singleton_self row
  obtain ⟨hrow', hid⟩ := List.mem_filter.mp hmem
  exact ⟨row, hrow, (hd.rows row hrow').kept hd hc hi (of_decide_eq_true hid)⟩

end

/-- **No accepted incident is lost.**  In every run of intakes, dispatchers, workers of the
group and reviews, whatever fails and crashes: an incident that is there stays as it is, it has
exactly one outbox row, and that row carries the incident's event, which is pending, or in the
topic at an offset that the group has not committed past, or processed. -/
theorem no_incident_lost [LawfulPydantic] (jobs : W → PlatformJob) (h₀ : PlatformStart s₀)
    {p q : Pool Resp PyExc Unit W (World W)}
    (hp : Pool.Reachable (platform env) (fun w => (jobs w).main) s₀ p)
    (hq : Relation.ReflTransGen (Pool.Next (platform env)) p q) :
    ∀ i ∈ p.world.db.incidents, i ∈ q.world.db.incidents ∧
      ∃ row, (q.world.db.outbox.filter fun r => r.incidentId = i.id) = [row] ∧
        row.Kept q.world i := by
  intro i hi
  have hi' := (h₀.keepsIncidents jobs hp hq).subset hi
  exact ⟨hi', h₀.keepsRows jobs (hp.run hq) hi'⟩

/-- **Where an accepted incident is**, in every state that is reached: it has one outbox row,
and the event of this row is pending, or in the topic at an offset that is not below the
committed one, or among the processed events. -/
theorem accepted_incident_accounted [LawfulPydantic] (jobs : W → PlatformJob)
    (h₀ : PlatformStart s₀) {p : Pool Resp PyExc Unit W (World W)}
    (hp : Pool.Reachable (platform env) (fun w => (jobs w).main) s₀ p) :
    ∀ i ∈ p.world.db.incidents, ∃ row, ∃ event : IncidentCreatedEvent,
      (p.world.db.outbox.filter fun r => r.incidentId = i.id) = [row] ∧
      row.eventId = event.eventId ∧ row.payload = event.modelDump ∧ event.Describes i ∧
      (row.publishedAt = none ∨
        (∃ partition offset, p.world.committed ⟨row.topic, partition⟩ ≤ offset ∧
          (p.world.log ⟨row.topic, partition⟩)[offset]? = some (some event.serialize)) ∨
        p.world.db.processed? event.eventId ≠ none) := by
  intro i hi
  obtain ⟨row, hrow, event, hcarries, hdescribes, hkept⟩ := h₀.keepsRows jobs hp hi
  exact ⟨row, event, hrow, hcarries.eventId, hcarries.payload, hdescribes, hkept⟩

end

end

/-! ## A run -/

theorem lostError_length : 1 ≤ ("boom" : Text).length ∧ ("boom" : Text).length ≤ 1000 := by
  decide

theorem lostLog_length : 1 ≤ ("trace" : Text).length ∧ ("trace" : Text).length ≤ 20000 := by
  decide

/-- An intake, and a worker without a workflow. -/
def intakeAndWorker (intake : Bool) : PlatformJob :=
  if intake then
    .intake "incidents"
      ⟨"api", "boom", "trace", none, contendedService_length, lostError_length, lostLog_length⟩
  else .worker "incidents" "workers" none 3

/-- A poll of the worker that finds the first message of the topic. -/
def pollsFirst : Turn Resp Bool (World Bool) := .calls false 1 fun o s =>
  match o with
  | .poll => .ok (.message ⟨⟨"incidents", 0⟩, 0, ((s.log ⟨"incidents", 0⟩)[0]?).join⟩)
  | o => plainAnswer false o s

theorem PlatformStart.blank {W : Type} : PlatformStart (World.blank : World W) :=
  ⟨rfl, List.nodup_nil, List.nodup_nil, List.forall_mem_nil _, fun _ => Nat.le_refl 0, rfl,
    fun _ _ => rfl, fun _ => rfl⟩

/-- An incident whose intake crashes right after its event was acknowledged: its row is still
pending when the worker has processed the event and committed the offset. -/
theorem no_incident_lost_crashed :
    ∃ p : Pool Resp PyExc Unit Bool (World Bool),
      Pool.Reachable (platform Environment.calm) (fun w => (intakeAndWorker w).main)
        World.blank p ∧
      p.world.db.outbox.map (·.publishedAt) = [none] ∧
      p.world.committed ⟨"incidents", 0⟩ = 1 ∧ p.world.db.processed.length = 1 ∧
      ∀ i ∈ p.world.db.incidents, ∃ row,
        (p.world.db.outbox.filter fun r => r.incidentId = i.id) = [row] ∧
          row.Kept p.world i := by
  obtain ⟨p, hp, hP⟩ := exists_run Environment.calm (fun w => (intakeAndWorker w).main)
    World.blank (fun p => p.world.db.outbox.map (·.publishedAt) = [none] ∧
      p.world.committed ⟨"incidents", 0⟩ = 1 ∧ p.world.db.processed.length = 1)
    [plain true 10, .crash true, plain false 4, pollsFirst, plain false 8] (by decide +kernel)
  simp only [decide_eq_true_eq] at hP
  refine ⟨p, hp, hP.1, hP.2.1, hP.2.2, fun i hi => ?_⟩
  exact (no_incident_lost intakeAndWorker .blank hp .refl i hi).2

/-- An intake that crashes once the incident is committed, a dispatcher, and a worker. -/
def intakeDispatched : Fin 3 → PlatformJob
  | 0 => intakeAndWorker true
  | 1 => .dispatchPending 10
  | 2 => intakeAndWorker false

/-- What the dispatcher has published is in the topic, and the group has not read it yet. -/
theorem accepted_incident_accounted_published :
    ∃ p : Pool Resp PyExc Unit (Fin 3) (World (Fin 3)),
      Pool.Reachable (platform Environment.calm) (fun w => (intakeDispatched w).main)
        World.blank p ∧
      p.world.db.incidents.map (·.id) = [1] ∧ (p.world.log ⟨"incidents", 0⟩).length = 1 ∧
      p.world.committed ⟨"incidents", 0⟩ = 0 ∧ p.world.db.processed = [] ∧
      ∀ i ∈ p.world.db.incidents, ∃ row, ∃ event : IncidentCreatedEvent,
        (p.world.db.outbox.filter fun r => r.incidentId = i.id) = [row] ∧
        row.eventId = event.eventId ∧ row.payload = event.modelDump ∧ event.Describes i ∧
        (row.publishedAt = none ∨
          (∃ partition offset, p.world.committed ⟨row.topic, partition⟩ ≤ offset ∧
            (p.world.log ⟨row.topic, partition⟩)[offset]? = some (some event.serialize)) ∨
          p.world.db.processed? event.eventId ≠ none) := by
  obtain ⟨p, hp, hP⟩ := exists_run Environment.calm (fun w => (intakeDispatched w).main)
    World.blank (fun p => p.world.db.incidents.map (·.id) = [1] ∧
      (p.world.log ⟨"incidents", 0⟩).length = 1 ∧ p.world.committed ⟨"incidents", 0⟩ = 0 ∧
      p.world.db.processed = [] ∧ p.world.db.outbox.all (·.publishedAt.isSome) = true)
    [plain 0 7, .crash 0, plain 1 9] (by decide +kernel)
  simp only [decide_eq_true_eq] at hP
  obtain ⟨hincidents, hlog, hcommitted, hprocessed, -⟩ := hP
  exact ⟨p, hp, hincidents, hlog, hcommitted, hprocessed,
    accepted_incident_accounted intakeDispatched .blank hp⟩

end SupportPlatform

