import SupportPlatform.ConsumerLoop
import SupportPlatform.EventDelivery
import SupportPlatform.HumanReview
import SupportPlatform.OutboxLedger
import SupportPlatform.RetryBudget

/-! # No accepted incident is lost

The intake, the dispatchers, the workers and the reviews on one platform.  Each of them keeps
the state of the delivery (`DeliveryInv`): most of their calls concern none of its tables
(`Op.Aside`), and what is left are the commit of an intake, an acknowledged publish and the
commit that marks its row, the commit of a marker, and a message handled.  Together with the
order of handling (`ConsumerInv`) it follows that whatever crashes or fails, an event is
pending, in the topic where the group is still to read it, or processed.
-/
namespace SupportPlatform
open Program World ControlledAgentWorkflow

section
variable [Runtime] [Pydantic] {W : Type} [DecidableEq W] {env : Environment}

/-! ## Calls aside -/

/-- The call concerns neither the tables of the delivery nor the messages. -/
def Op.Aside : Op → Prop
  | .flush cs | .commit _ cs => ∀ c ∈ cs, c.Aside
  | .flushIncident _ | .produce _ _ | .observe _ _ => False
  | _ => True

/-- The call changes neither the tables nor the messages. -/
def Op.Silent : Op → Prop
  | .commit _ _ | .produce _ _ | .observe _ _ => False
  | _ => True

/-- What `w` has sent concerns none of the tables of the delivery. -/
def SentAside (w : W) (s : World W) : Prop := ∀ c ∈ s.staged w, c.Aside

section
variable {base : TopicPartition → Nat} {w : W} {s t u : World W} {o : Op} {r : Resp o}

omit [Runtime] [Pydantic] in
@[simp] theorem forfeit_log (s : World W) (w : W) : (s.forfeit w).log = s.log := by
  unfold forfeit
  split <;> rfl

theorem after_silent (ho : o.Silent) (r : Resp o) : (after w s o r).db = s.db ∧
    (after w s o r).log = s.log ∧ (after w s o r).hist.handled = s.hist.handled := by
  cases o with
  | commit | produce | observe => exact ho.elim
  | lockExecution i => rcases r with e | _ | x <;> exact ⟨rfl, rfl, rfl⟩
  | getForDispatch id => rcases r with e | _ | x <;> exact ⟨rfl, rfl, rfl⟩
  | flushIncident row => rcases r with e | id <;> exact ⟨rfl, rfl, rfl⟩
  | flush cs => rcases r with e | _ <;> exact ⟨rfl, rfl, rfl⟩
  | poll => rcases r with e | _ | _ | m <;> exact ⟨rfl, rfl, rfl⟩
  | seek source offset => rcases r with e | _ <;> exact ⟨rfl, rfl, rfl⟩
  | commitOffset source offset => rcases r with _ | ⟨e, _ | _⟩ <;> exact ⟨rfl, rfl, rfl⟩
  | _ => exact ⟨rfl, rfl, rfl⟩

theorem after_commit_messages (txn : Transaction) (cs : List Change) (r : CommitReport) :
    (after w s (.commit txn cs) r).log = s.log ∧
      (after w s (.commit txn cs) r).hist.handled = s.hist.handled := by
  rcases r with _ | ⟨e, _ | _⟩
  · exact ⟨rfl, rfl⟩
  · exact ⟨forfeit_log s w, forfeit_handled s w⟩
  · exact ⟨forfeit_log (s.settle w txn cs) w, forfeit_handled (s.settle w txn cs) w⟩

omit [DecidableEq W] in
theorem DeliveryInv.same (h : DeliveryInv base s) (hdb : t.db = s.db) (hlog : t.log = s.log)
    (hh : t.hist.handled = s.hist.handled) : DeliveryInv base t ∧ Persists s t := by
  have hlog' : ∀ source, s.log source <+: t.log source := fun source => by rw [hlog]
  exact h.congr (by rw [hdb]; exact ⟨rfl, rfl, rfl⟩) hlog' hh

theorem DeliveryInv.silent (h : DeliveryInv base s) (o : Op) (ho : o.Silent) (r : Resp o) :
    DeliveryInv base (after w s o r) ∧ Persists s (after w s o r) := by
  obtain ⟨hdb, hlog, hh⟩ := after_silent (w := w) (s := s) ho r
  exact h.same hdb hlog hh

theorem SentAside.after (hs : SentAside w s) (ho : o.Aside) (hp : permits env w s o r) :
    SentAside w (after w s o r) := by
  cases o with
  | flushIncident | produce | observe => exact ho.elim
  | flush cs =>
      rcases r with e | _
      · exact hs
      · intro c hc
        simp only [SupportPlatform.after, Function.update_self] at hc
        exact (List.mem_append.mp hc).elim (hs c) (ho c)
  | commit txn cs =>
      intro c hc
      rcases after_commit hp with ⟨-, -, -, hstaged⟩ | ⟨-, -, hstaged⟩
      · rw [hstaged] at hc
        simp at hc
      · exact hs c (hstaged ▸ hc)
  | closeSession =>
      intro c hc
      simp [SupportPlatform.after, World.rollback] at hc
  | lockExecution i => rcases r with e | _ | x <;> exact hs
  | getForDispatch id => rcases r with e | _ | x <;> exact hs
  | poll => rcases r with e | _ | _ | m <;> exact hs
  | seek source offset => rcases r with e | _ <;> exact hs
  | commitOffset source offset => rcases r with _ | ⟨e, _ | _⟩ <;> exact hs
  | _ => exact hs

/-- **A call aside** leaves the delivery as it is. -/
theorem DeliveryInv.aside (h : DeliveryInv base s) (ho : o.Aside) (hs : SentAside w s)
    (hp : permits env w s o r) :
    DeliveryInv base (after w s o r) ∧ Persists s (after w s o r) := by
  cases o with
  | flushIncident | produce | observe => exact ho.elim
  | commit txn cs =>
      obtain ⟨hlog, hh⟩ := after_commit_messages (w := w) (s := s) txn cs r
      rcases after_commit hp with ⟨-, -, hdb, -⟩ | ⟨-, hdb, -⟩
      · have hall : ∀ c ∈ s.staged w ++ cs, c.Aside := fun c hc =>
          (List.mem_append.mp hc).elim (hs c) (ho c)
        refine h.congr ?_ (fun source => by rw [hlog]) hh
        rw [hdb]
        exact Database.sameDelivery_applyAll hall s.db
      · exact h.same hdb hlog hh
  | _ => exact h.silent _ (by trivial) r

/-- What a publish changes: a message is written to a partition, or none is. -/
theorem after_produce (event : IncidentCreatedEvent) (topic : Text) (r : ProduceReport) :
    (after w s (.produce event topic) r).db = s.db ∧
      (after w s (.produce event topic) r).hist.handled = s.hist.handled ∧
      ((after w s (.produce event topic) r).log = s.log ∨ ∃ partition,
        (after w s (.produce event topic) r).log =
          (s.append ⟨topic, partition⟩ (some event.serialize)).log) := by
  cases r with
  | acknowledged partition => exact ⟨rfl, rfl, .inr ⟨partition, rfl⟩⟩
  | raised e landed =>
      cases landed with
      | none => exact ⟨rfl, rfl, .inl rfl⟩
      | some partition => exact ⟨rfl, rfl, .inr ⟨partition, rfl⟩⟩
  | undelivered remaining landed =>
      cases landed with
      | none => exact ⟨rfl, rfl, .inl rfl⟩
      | some partition => exact ⟨rfl, rfl, .inr ⟨partition, rfl⟩⟩
  | deliveryError first landed =>
      cases landed with
      | none => exact ⟨rfl, rfl, .inl rfl⟩
      | some partition => exact ⟨rfl, rfl, .inr ⟨partition, rfl⟩⟩

/-- **A message is written** to the topic. -/
theorem DeliveryInv.produce (h : DeliveryInv base s) (event : IncidentCreatedEvent) (topic : Text)
    (r : ProduceReport) : DeliveryInv base (after w s (.produce event topic) r) ∧
      Persists s (after w s (.produce event topic) r) := by
  obtain ⟨hdb, hh, hlog⟩ := after_produce (w := w) (s := s) event topic r
  refine h.congr (by rw [hdb]; exact ⟨rfl, rfl, rfl⟩) (fun source => ?_) hh
  rcases hlog with hlog | ⟨partition, hlog⟩
  · rw [hlog]
  · rw [hlog]
    by_cases hsource : source = ⟨topic, partition⟩
    · subst hsource
      simp [World.append]
    · simp [World.append, Function.update_of_ne hsource]

/-- An acknowledged message is in the topic, behind those that were there. -/
theorem DeliveryInv.logged (h : DeliveryInv base s) (event : IncidentCreatedEvent) (topic : Text)
    (partition : Nat) :
    (after w s (.produce event topic) (.acknowledged partition)).Logged base topic event := by
  refine ⟨partition, (s.log ⟨topic, partition⟩).length, h.room _, ?_⟩
  simp [after, World.append]

end

/-! ## The discipline -/

/-- **The discipline of the delivery** of messages from the offsets `base` on. -/
def delivery (env : Environment) (base : TopicPartition → Nat) : Protocol env W where
  I := DeliveryInv base
  R _ := Persists
  G _ _ s _ t := Persists s t
  refl _ s := .refl s
  trans _ _ _ _ h h' := h.trans h'
  crash_inv w s h := (h.same (t := s.crash w) (by simp [World.crash, World.rollback])
    (by simp [World.crash, World.rollback]) (by simp [World.crash, World.rollback])).1
  crash_rely _ w s _ h := (h.same (t := s.crash _) (by simp [World.crash, World.rollback])
    (by simp [World.crash, World.rollback]) (by simp [World.crash, World.rollback])).2

section
variable {α : Type} {base : TopicPartition → Nat} {w : W} {s t : World W}
  {X : PyExc → World W → Prop}

/-- One call of a job, by what it does to the delivery. -/
theorem delivery_call {o : Op} {Q : Resp o → World W → Prop}
    (h : ∀ t, Frame w s t → Persists s t → DeliveryInv base t → ∀ r, permits env w t o r →
      (DeliveryInv base (after w t o r) ∧ Persists t (after w t o r)) ∧ Q r (after w t o r)) :
    (issue o).Safe (delivery env base).discipline w Q X s := by
  refine Protocol.safe_issue fun t hf hp _ hI r hperm => ?_
  obtain ⟨⟨hI', hp'⟩, hQ⟩ := h t hf hp hI r hperm
  exact ⟨hI', fun _ _ => hp', hp', hQ⟩

theorem silent_call {o : Op} {Q : Resp o → World W → Prop} (ho : o.Silent)
    (h : ∀ t, Frame w s t → Persists s t → DeliveryInv base t → ∀ r, permits env w t o r →
      Q r (after w t o r)) : (issue o).Safe (delivery env base).discipline w Q X s :=
  delivery_call fun t hf hp hI r hperm => ⟨hI.silent o ho r, h t hf hp hI r hperm⟩

/-- A reading of the clock. -/
theorem delivery_now {Q : Timestamp → World W → Prop}
    (h : ∀ t time, Frame w s t → Persists s t → Q time t) :
    now.Safe (delivery env base).discipline w Q X s :=
  silent_call trivial fun t hf hp _ time _ => h t time hf hp

theorem delivery_select {query : Query} {Q : query.Result → World W → Prop}
    (h : ∀ t, Frame w s t → Persists s t → Q (t.db.eval query) t)
    (hX : ∀ t e, Frame w s t → X e t) :
    (select query).Safe (delivery env base).discipline w Q X s :=
  Protocol.safe_select (fun t _ => .refl t) (fun t hf hp _ => h t hf hp)
    fun t e hf _ _ _ => hX t e hf

/-- **A session** ends with nothing sent; what it has learnt is not taken back. -/
theorem delivery_session {body : Py α} {K : α → World W → Prop}
    (hK : ∀ a t u, K a t → Persists t u → K a u)
    (h : body.Safe (delivery env base).discipline w K (fun _ _ => True) s) :
    (withSession body).Safe (delivery env base).discipline w
      (fun a t => t.staged w = [] ∧ K a t) (fun _ t => t.staged w = []) s := by
  have hclosed : ∀ t : World W, (after w t .closeSession ()).staged w = [] := fun t => by
    simp [after, World.rollback]
  refine safe_andFinally (h.mono (fun a t ht => ?_) fun _ t _ => ?_)
  · refine delivery_call fun u _ hp hI r _ => ?_
    obtain ⟨hI', hp'⟩ := hI.silent (w := w) .closeSession trivial r
    exact ⟨⟨hI', hp'⟩, hclosed u, hK a t _ ht (hp.trans hp')⟩
  · exact silent_call trivial fun u _ _ _ _ _ => hclosed u

/-- A session of which nothing is learnt. -/
theorem closed_session {body : Py α}
    (h : body.Safe (delivery env base).discipline w (fun _ _ => True) (fun _ _ => True) s) :
    (withSession body).Safe (delivery env base).discipline w (fun _ t => t.staged w = [])
      (fun _ t => t.staged w = []) s :=
  (delivery_session (fun _ _ _ hk _ => hk) h).mono (fun _ _ ht => ht.1) fun _ _ ht => ht

/-- A program of calls aside. -/
theorem aside_safe {p : Py α} (hp : p.Only Op.Aside) (hs : SentAside w s) :
    p.Safe (delivery env base).discipline w (fun _ => SentAside w) (fun _ => SentAside w) s := by
  refine Safe.of_only hp (fun o ho s t r u hs ⟨hf, _⟩ ⟨hL, hI⟩ ⟨_, hperm, hu⟩ => ?_) hs
  subst hu
  have ht : SentAside w t := fun c hc => hs c (hf.staged ▸ hc)
  obtain ⟨hI', hp'⟩ := hI.aside ho ht hperm
  exact ⟨⟨⟨after_locked hL hperm, hI'⟩, fun v hv => ⟨after_frame hL hperm hv, hp'⟩, hp'⟩,
    ht.after ho hperm⟩

/-- A session of such calls. -/
theorem aside_session {body : Py α} (hbody : body.Only Op.Aside) (hs : s.staged w = []) :
    (withSession body).Safe (delivery env base).discipline w (fun _ t => t.staged w = [])
      (fun _ t => t.staged w = []) s := by
  have hstart : SentAside w s := fun c hc => by rw [hs] at hc; cases hc
  exact closed_session ((aside_safe hbody hstart).mono (fun _ _ _ => trivial) fun _ _ _ => trivial)

/-! ## The dispatcher -/

/-- The commit of an attempt on a row that carries an event. -/
theorem recordAttempt_safe [LawfulPydantic] {record edited : OutboxEvent}
    {event : IncidentCreatedEvent} (hs : s.staged w = [])
    (hrecord : record.Carries event record.topic) (hsame : record.SameEvent edited)
    (hloaded : ∃ r ∈ s.db.outbox, record.SameEvent r)
    (hmark : edited.publishedAt = record.publishedAt ∨ s.Logged base record.topic event) :
    (commit .dispatch [.updateOutbox record edited]).Safe (delivery env base).discipline w
      (fun _ _ => True) (fun _ _ => True) s := by
  refine safe_bind.mpr (delivery_call fun t hf hp hI r hperm => ⟨?_, ?_⟩)
  · have ht : t.staged w = [] := hf.staged.trans hs
    obtain ⟨hlog, hh⟩ := after_commit_messages (w := w) (s := t) .dispatch
      [.updateOutbox record edited] r
    rcases after_commit hperm with ⟨-, -, hdb, -⟩ | ⟨-, hdb, -⟩
    · rw [ht, List.nil_append, Database.applyAll_cons, Database.applyAll_nil] at hdb
      obtain ⟨loaded, hmem, hl⟩ := hloaded
      obtain ⟨loaded', hmem', hl'⟩ := hp.rows loaded hmem
      exact hI.record hrecord hsame ⟨loaded', hmem', hl.trans hl'⟩ (hmark.imp id hp.logged) hdb
        hlog hh
    · exact hI.same hdb hlog hh
  · exact safe_answer.mpr ⟨fun _ _ => trivial, fun _ _ => trivial⟩

/-- **A publish that returned** has its event in the topic. -/
theorem publish_delivers (event : IncidentCreatedEvent) (topic : Text) :
    (publish event topic).Safe (delivery env base).discipline w
      (fun _ t => t.staged w = s.staged w ∧ Persists s t ∧ t.Logged base topic event)
      (fun _ t => t.staged w = s.staged w ∧ Persists s t) s := by
  refine safe_bind.mpr (silent_call trivial fun t hf hp _ r _ => ?_)
  refine safe_bind.mpr (safe_answer.mpr ⟨fun _ _ => ?_, fun _ _ => ⟨hf.staged, hp⟩⟩)
  refine safe_bind.mpr (delivery_call fun u hf' hp' hI r _ => ⟨hI.produce event topic r, ?_⟩)
  have hlast := (hp.trans hp').trans (hI.produce (w := w) event topic r).2
  have hstaged : u.staged w = s.staged w := hf'.staged.trans hf.staged
  cases r with
  | acknowledged partition => exact ⟨hstaged, hlast, hI.logged event topic partition⟩
  | raised e landed => exact ⟨by cases landed <;> exact hstaged, hlast⟩
  | undelivered remaining landed => exact ⟨by cases landed <;> exact hstaged, hlast⟩
  | deliveryError first landed => exact ⟨by cases landed <;> exact hstaged, hlast⟩

theorem attemptPublish_delivered [LawfulPydantic] {record : OutboxEvent}
    {event : IncidentCreatedEvent} (hrecord : record.Carries event record.topic) :
    (OutboxDispatcher.attemptPublish record).Safe (delivery env base).discipline w
      (fun failure t => t.staged w = s.staged w ∧ Persists s t ∧
        (failure = none → t.Logged base record.topic event)) (fun _ _ => True) s := by
  have hread : IncidentCreatedEvent.modelValidate record.payload = .ok event :=
    hrecord.payload ▸ event.modelValidate_modelDump
  refine safe_tryCatch.mpr (safe_bind.mpr (safe_answer.mpr ⟨fun e he => ?_, fun e he => ?_⟩))
  · obtain rfl : event = e := Except.ok.inj (hread.symm.trans he)
    refine safe_bind.mpr ((publish_delivers event record.topic).mono (fun _ t ht => ?_)
      fun e t ht => ?_)
    · exact ⟨ht.1, ht.2.1, fun _ => ht.2.2⟩
    · split
      · exact ⟨ht.1, ht.2, fun hnone => by cases hnone⟩
      · trivial
  · rw [hread] at he
    cases he

/-- **Dispatching an event** keeps the delivery. -/
theorem dispatchEvent_delivered [LawfulPydantic] (eventId : Uuid) (hs : s.staged w = []) :
    (OutboxDispatcher.dispatchEvent eventId).Safe (delivery env base).discipline w
      (fun _ t => t.staged w = []) (fun _ t => t.staged w = []) s := by
  refine closed_session ?_
  refine safe_bind.mpr (delivery_call fun t hf _ hI r hperm =>
    ⟨hI.silent (.getForDispatch eventId) trivial r, ?_⟩)
  have hstaged : (after w t (.getForDispatch eventId) r).staged w = [] := by
    rcases r with e | _ | row <;> exact hf.staged.trans hs
  have hdb := (after_silent (w := w) (s := t) (o := .getForDispatch eventId) trivial r).1
  have hI' := (hI.silent (w := w) (.getForDispatch eventId) trivial r).1
  refine safe_bind.mpr (safe_answer.mpr ⟨fun found hfound => ?_, fun _ _ => trivial⟩)
  cases found with
  | none => trivial
  | some record =>
      -- the row is one of the outbox, so it carries an event
      have hmem : record ∈ t.db.outbox := by
        have hfind : some record = t.dispatchable w eventId := by
          subst hfound
          exact hperm
        exact List.mem_of_find?_eq_some (dispatchable_eq_some.mp hfind.symm).1
      generalize after w t (.getForDispatch eventId) r = u at hstaged hdb hI'
      have hloaded : record ∈ u.db.outbox := hdb ▸ hmem
      obtain ⟨event, hrecord, -, -⟩ := hI'.rows record hloaded
      refine safe_bind.mpr ((attemptPublish_delivered hrecord).mono (fun failure v hv => ?_)
        fun _ _ hx => hx)
      obtain ⟨hstaged', hp, hlogged⟩ := hv
      cases failure with
      | some exc =>
          refine safe_bind.mpr (delivery_now fun z time hf' hp' => ?_)
          obtain ⟨row, hrow, hsame⟩ := (hp.trans hp').rows record hloaded
          have hz : z.staged w = [] := hf'.staged.trans (hstaged'.trans hstaged)
          refine safe_bind.mpr (Safe.mono (recordAttempt_safe hz hrecord ?_ ⟨row, hrow, hsame⟩
            (.inl rfl)) (fun _ _ _ => trivial) fun _ _ _ => trivial)
          exact ⟨rfl, rfl, rfl, rfl⟩
      | none =>
          refine safe_bind.mpr (delivery_now fun z time hf' hp' => ?_)
          obtain ⟨row, hrow, hsame⟩ := (hp.trans hp').rows record hloaded
          have hz : z.staged w = [] := hf'.staged.trans (hstaged'.trans hstaged)
          refine safe_bind.mpr (Safe.mono (recordAttempt_safe hz hrecord ?_ ⟨row, hrow, hsame⟩
            (.inr (hp'.logged (hlogged rfl)))) (fun _ _ _ => trivial) fun _ _ _ => trivial)
          exact ⟨rfl, rfl, rfl, rfl⟩

theorem dispatchAll_delivered [LawfulPydantic] (eventIds : List Uuid) (published : Nat)
    (hs : s.staged w = []) :
    (OutboxDispatcher.dispatchAll eventIds published).Safe (delivery env base).discipline w
      (fun _ t => t.staged w = []) (fun _ t => t.staged w = []) s := by
  induction eventIds generalizing published s with
  | nil => exact hs
  | cons eventId eventIds ih =>
      refine safe_bind.mpr ((dispatchEvent_delivered eventId hs).mono (fun outcome t ht => ?_)
        fun _ _ ht => ht)
      cases outcome with
      | published => exact ih _ ht
      | deferred => exact ht
      | unavailable => exact ih _ ht

theorem dispatchPending_delivered [LawfulPydantic] (batchSize : Nat) (hs : s.staged w = []) :
    (OutboxDispatcher.dispatchPending batchSize).Safe (delivery env base).discipline w
      (fun _ t => t.staged w = []) (fun _ t => t.staged w = []) s := by
  refine safe_bind.mpr ((aside_session ?_ hs).mono (fun eventIds t ht => ?_) fun _ _ ht => ht)
  · exact Only.bind (only_ask.mpr trivial) fun time =>
      Only.bind (only_ask.mpr trivial) fun r => only_answer r
  · exact dispatchAll_delivered eventIds 0 ht

theorem retryLoop_delivered [LawfulPydantic] (batchSize fuel : Nat) (hs : s.staged w = []) :
    (OutboxDispatcher.retryLoop batchSize fuel).Safe (delivery env base).discipline w
      (fun _ t => t.staged w = []) (fun _ t => t.staged w = []) s := by
  induction fuel generalizing s with
  | zero => exact hs
  | succ fuel ih =>
      refine safe_bind.mpr (silent_call trivial fun t hf _ _ stop _ => ?_)
      have ht : t.staged w = [] := hf.staged.trans hs
      cases stop with
      | true => exact ht
      | false =>
          refine safe_bind.mpr (safe_tryCatch.mpr (safe_bind.mpr ?_))
          exact (dispatchPending_delivered batchSize ht).mono (fun _ u hu => ih hu)
            fun _ u hu => ih hu

/-! ## The intake -/

omit [Runtime] [Pydantic] in
/-- An event that is made has the fields it is made of. -/
theorem describes_of_fields {eventId : Uuid} {occurredAt : Timestamp} {i : Incident}
    {event : IncidentCreatedEvent} (h : IncidentCreatedEvent.ofFields eventId occurredAt i.id
      i.service i.classification i.resolvedSeverity = some event) : event.Describes i := by
  rw [IncidentCreatedEvent.ofFields] at h
  split at h
  · cases h
    exact ⟨rfl, rfl, rfl, rfl⟩
  · cases h

/-- The intake's commit files the incident with its row. -/
theorem file_safe {incident : Incident} {row : OutboxEvent} {event : IncidentCreatedEvent}
    (hs : s.staged w = [.insertIncident incident, .insertOutbox row])
    (hdescribes : event.Describes incident) (hrow : row.Carries event row.topic)
    (hnew : row.publishedAt = none) :
    (commit .intake []).Safe (delivery env base).discipline w (fun _ t => t.staged w = [])
      (fun _ _ => True) s := by
  refine safe_bind.mpr (delivery_call fun t hf _ hI r hperm => ⟨?_, ?_⟩)
  · have ht : t.staged w = [.insertIncident incident, .insertOutbox row] := hf.staged.trans hs
    obtain ⟨hlog, hh⟩ := after_commit_messages (w := w) (s := t) .intake [] r
    rcases after_commit hperm with ⟨-, haccepts, hdb, -⟩ | ⟨-, hdb, -⟩
    · have hadmits := haccepts.2.1
      rw [ht, List.append_nil] at hadmits hdb
      exact hI.file hdescribes hrow hnew hadmits hdb hlog hh
    · exact hI.same hdb hlog hh
  · refine safe_answer.mpr ⟨fun _ hok => ?_, fun _ _ => trivial⟩
    rcases after_commit hperm with ⟨-, -, -, hstaged⟩ | ⟨hlost, -, -⟩
    · rw [hstaged, Function.update_self]
    · cases r with
      | committed => exact absurd trivial hlost
      | failed e applied => cases hok

/-- **The intake** keeps the delivery. -/
theorem analyzeAndPersistIncident_delivered [LawfulPydantic] (topic : Text)
    (incident : IncidentRequest) (hs : s.staged w = []) :
    (analyzeAndPersistIncident topic incident).Safe (delivery env base).discipline w
      (fun _ t => t.staged w = []) (fun _ t => t.staged w = []) s := by
  refine closed_session ?_
  refine safe_bind.mpr (safe_tryCatch.mpr (Safe.mono (Q := fun _ t => t.staged w = [])
    (X := fun _ _ => True) ?_ (fun event t ht => ?_) fun e t _ => ?_))
  · -- the incident is sent, and numbered
    refine safe_bind.mpr (safe_bind.mpr (delivery_now fun t time hf _ => ?_))
    refine safe_bind.mpr (silent_call trivial fun t hf' _ _ r _ => ?_)
    refine safe_bind.mpr (safe_answer.mpr ⟨fun id hok => ?_, fun _ _ => trivial⟩)
    subst hok
    have hsent : (after w t (.flushIncident (incidentRecord incident (analyzeIncident incident)
        time)) (.ok id)).staged w = [.insertIncident { incidentRecord incident
          (analyzeIncident incident) time with id := id }] := by
      simp [after, hf'.staged.trans (hf.staged.trans hs)]
    generalize hfiled : { incidentRecord incident (analyzeIncident incident) time with id := id } =
      filed at hsent
    have hclassification : filed.classification = (analyzeIncident incident).classification := by
      rw [← hfiled]
      rfl
    have hseverity : filed.resolvedSeverity = (analyzeIncident incident).severity := by
      rw [← hfiled]
      rfl
    -- its event tells of it
    refine safe_bind.mpr (safe_bind.mpr (silent_call trivial fun u hf _ _ eventId _ => ?_))
    have hsent : u.staged w = _ := hf.staged.trans hsent
    refine safe_bind.mpr (delivery_now fun v occurredAt hf _ => ?_)
    have hsent : v.staged w = _ := hf.staged.trans hsent
    cases hevent : IncidentCreatedEvent.ofFields eventId occurredAt filed.id filed.service
      (analyzeIncident incident).classification (analyzeIncident incident).severity with
    | none => trivial
    | some event =>
        rw [← hclassification, ← hseverity] at hevent
        have hdescribes : event.Describes filed := describes_of_fields hevent
        -- the row of the event is sent with it, and both are committed
        refine safe_bind.mpr (safe_bind.mpr (delivery_now fun z created hf _ => ?_))
        have hsent : z.staged w = _ := hf.staged.trans hsent
        refine safe_bind.mpr (silent_call trivial fun z hf _ _ r _ => ?_)
        refine safe_answer.mpr ⟨fun _ hok => ?_, fun _ _ => trivial⟩
        subst hok
        have hstaged : (after w z (.flush [.insertOutbox (outboxRecord event topic created)])
            (.ok ())).staged w = [.insertIncident filed,
              .insertOutbox (outboxRecord event topic created)] := by
          simp [after, hf.staged.trans hsent]
        exact safe_bind.mpr ((file_safe hstaged hdescribes (outboxRecord_carries created) rfl).mono
          (fun _ _ hy => hy) fun _ _ hy => hy)
  · -- one more attempt, whose failure is swallowed
    refine safe_bind.mpr (safe_tryCatch.mpr (safe_bind.mpr ?_))
    exact (dispatchEvent_delivered event.eventId ht).mono (fun _ _ _ => trivial)
      fun _ _ _ => trivial
  · split
    · exact safe_bind.mpr (silent_call trivial fun _ _ _ _ _ _ => trivial)
    · trivial

/-! ## The workflow -/

section
variable (wf : ControlledAgentWorkflow) {x : Uuid} {event : IncidentCreatedEvent}

section
omit [Runtime] [Pydantic]

theorem select_aside (query : Query) : (select query).Only Op.Aside :=
  Only.bind (only_ask.mpr trivial) fun _ => only_answer _

theorem commit_aside {txn : Transaction} {cs : List Change} (h : ∀ c ∈ cs, c.Aside) :
    (commit txn cs).Only Op.Aside :=
  Only.bind (only_ask.mpr h) fun _ => only_answer _

theorem flush_aside {cs : List Change} (h : ∀ c ∈ cs, c.Aside) : (flush cs).Only Op.Aside :=
  Only.bind (only_ask.mpr h) fun _ => only_answer _

theorem claimWith_aside (time : Timestamp) {execution : Change} (h : execution.Aside) :
    (wf.claimWith event time execution).Only Op.Aside := by
  have hexecution : ∀ c ∈ [execution], c.Aside := List.forall_mem_singleton.mpr h
  refine Only.bind (flush_aside hexecution) fun _ => Only.bind (select_aside _) fun row => ?_
  cases row with
  | none => exact commit_aside (List.forall_mem_singleton.mpr trivial)
  | some resolution => exact commit_aside (List.forall_mem_singleton.mpr trivial)

end

/-- **A claim** is one session. -/
theorem claim_delivered (hs : s.staged w = []) :
    (wf.claim event).Safe (delivery env base).discipline w (fun _ t => t.staged w = [])
      (fun _ t => t.staged w = []) s := by
  refine safe_bind.mpr (delivery_now fun t time hf _ => aside_session ?_ (hf.staged.trans hs))
  refine Only.bind (select_aside _) fun row => ?_
  cases row with
  | none => trivial
  | some incident =>
      refine Only.bind (Only.bind (only_ask.mpr trivial) fun _ => only_answer _) fun row => ?_
      cases row with
      | none =>
          refine Only.bind (only_ask.mpr trivial) fun executionId =>
            Only.bind (only_ask.mpr trivial) fun created => ?_
          exact Only.bind (claimWith_aside wf time (by trivial)) fun _ => trivial
      | some execution =>
          dsimp only
          split
          · trivial
          · split
            · trivial
            · exact Only.bind (claimWith_aside wf time (by trivial)) fun _ => trivial

/-- A step is recorded in one session. -/
theorem recordStep_delivered {stepNumber : Nat} {txn : Transaction} {record : AgentStep}
    {edit : Execution → Timestamp → Execution} (hs : s.staged w = []) :
    (recordStep x stepNumber txn record edit).Safe (delivery env base).discipline w
      (fun _ t => t.staged w = []) (fun _ t => t.staged w = []) s := by
  refine aside_session (Only.bind (flush_aside (List.forall_mem_singleton.mpr trivial)) fun _ =>
    Only.bind (select_aside _) fun row => ?_) hs
  cases row with
  | none => trivial
  | some execution =>
      refine Only.bind (only_ask.mpr trivial) fun time =>
        Only.bind (commit_aside (List.forall_mem_singleton.mpr trivial)) fun _ =>
          Only.bind (select_aside _) fun step => ?_
      cases step <;> trivial

theorem persistFinal_delivered {decision : PlannerDecision} {final : AgentFinalResponse}
    {steps : List AgentStep} {results : Results} (hs : s.staged w = []) :
    (wf.persistFinal x event decision final steps results).Safe (delivery env base).discipline w
      (fun _ t => t.staged w = []) (fun _ t => t.staged w = []) s := by
  refine safe_bind.mpr (delivery_now fun t time hf _ => ?_)
  have ht : t.staged w = [] := hf.staged.trans hs
  refine safe_bind.mpr (safe_answer.mpr ⟨fun context _ => ?_, fun _ _ => ht⟩)
  refine aside_session (Only.bind (select_aside _) fun execution =>
    Only.bind (select_aside _) fun resolution => ?_) ht
  cases execution with
  | none => trivial
  | some execution =>
      cases resolution with
      | none => trivial
      | some resolution =>
          refine commit_aside fun c hc => ?_
          simp only [List.mem_cons, List.not_mem_nil, or_false] at hc
          rcases hc with rfl | rfl | rfl <;> trivial

/-- **The planning loop** keeps the delivery. -/
theorem delivery_loop :
    LoopRule (delivery env base).discipline w wf x event (Possible env) (fun _ => True)
      (fun _ => True) False (fun _ t => t.staged w = []) (fun t => t.staged w = [])
      (fun _ t => t.staged w = []) where
  assumes := possible_assumed
  routine := by
    rintro st o ho s s₁ r s₂ hs ⟨hf, -⟩ ⟨hL, hI⟩ ⟨-, hp, rfl⟩
    have hnone : s₁.staged w = [] := hf.staged.trans hs
    have haside : o.Aside := by
      cases o with
      | flushIncident | produce | observe | flush => exact ho.elim
      | commit txn cs =>
          intro c hc
          cases txn with
          | setStatus =>
              obtain ⟨l, status, time, -, -, rfl⟩ := ho
              rw [List.mem_singleton] at hc
              exact hc ▸ trivial
          | modelMetadata =>
              obtain ⟨l, durationMs, inputChars, outputChars, usage, time, -, rfl⟩ := ho
              rw [List.mem_singleton] at hc
              exact hc ▸ trivial
          | _ => exact ho.elim
      | _ => trivial
    have hstart : SentAside w s₁ := fun c hc => by rw [hnone] at hc; cases hc
    obtain ⟨hI', hp'⟩ := hI.aside haside hstart hp
    refine ⟨⟨⟨after_locked hL hp, hI'⟩, fun v hv => ⟨after_frame hL hp hv, hp'⟩, hp'⟩,
      ⟨_, _, session_step ⟨hp, rfl⟩⟩, ?_⟩
    cases o with
    | commit txn cs =>
        rcases after_commit hp with ⟨-, -, -, hstaged⟩ | ⟨-, -, hstaged⟩
        · rw [hstaged, Function.update_self]
        · exact hstaged ▸ hnone
    | closeSession => simp [after, World.rollback]
    | now | perfCounter | select | render | chat | retrieve | toolTimedOut => exact hnone
    | _ => exact ho.elim
  frame _ _ _ _ hs := hs
  raises _ _ _ hs _ := hs
  toolStep _ _ _ _ _ hs _ := recordStep_delivered hs
  rejectedStep _ _ _ _ _ hs _ := recordStep_delivered hs
  final _ _ _ _ hs _ := persistFinal_delivered wf hs

theorem recordFailure_delivered (exc : PyExc) (retryable : Bool) (hs : s.staged w = []) :
    (wf.recordFailure x exc retryable).Safe (delivery env base).discipline w
      (fun _ t => t.staged w = []) (fun _ t => t.staged w = []) s := by
  refine safe_bind.mpr (delivery_now fun t time hf _ => aside_session ?_ (hf.staged.trans hs))
  refine Only.bind (select_aside _) fun row => ?_
  cases row with
  | none => trivial
  | some execution =>
      refine Only.bind (flush_aside (List.forall_mem_singleton.mpr trivial)) fun _ =>
        Only.bind (select_aside _) fun resolution => ?_
      cases resolution with
      | none => exact Only.bind (commit_aside (List.forall_mem_nil _)) fun _ => trivial
      | some resolution =>
          exact Only.bind (commit_aside (List.forall_mem_singleton.mpr trivial)) fun _ => trivial

theorem onFailure_delivered (exc : PyExc) (hs : s.staged w = []) :
    (wf.onFailure x exc).Safe (delivery env base).discipline w (fun _ t => t.staged w = [])
      (fun _ t => t.staged w = []) s := by
  unfold onFailure
  split
  · exact safe_bind.mpr ((recordFailure_delivered wf exc true hs).mono (fun _ _ ht => ht)
      fun _ _ ht => ht)
  split
  · refine safe_bind.mpr ((recordFailure_delivered wf exc false hs).mono (fun terminal _ ht => ?_)
      fun _ _ ht => ht)
    split <;> exact ht
  split
  · refine safe_bind.mpr (safe_bind.mpr ((aside_session ?_ hs).mono (fun found t ht => ?_)
      fun _ _ ht => ht))
    · refine Only.bind (select_aside _) fun row => ?_
      cases row with
      | none => trivial
      | some execution =>
          exact Only.bind (commit_aside (List.forall_mem_singleton.mpr trivial)) fun _ => trivial
    · split
      · exact safe_bind.mpr ((recordFailure_delivered wf exc false ht).mono (fun _ _ hu => hu)
          fun _ _ hu => hu)
      · exact ht
  · exact hs

/-- **The workflow** keeps the delivery, and leaves nothing sent. -/
theorem resolve_delivered (event : IncidentCreatedEvent) (hs : s.staged w = []) :
    (wf.resolve event).Safe (delivery env base).discipline w (fun _ t => t.staged w = [])
      (fun _ t => t.staged w = []) s := by
  refine safe_bind.mpr ((claim_delivered wf hs).mono (fun out t ht => ?_) fun _ _ ht => ht)
  obtain ⟨x, terminal⟩ := out
  cases terminal with
  | some outcome => exact ht
  | none =>
      refine safe_bind.mpr (silent_call trivial fun u hf _ _ started _ => ?_)
      have hu : u.staged w = [] := hf.staged.trans ht
      refine safe_tryCatch.mpr (Safe.mono (Q := fun _ t => t.staged w = [])
        (X := fun _ t => t.staged w = []) ?_ (fun _ _ hv => hv)
          fun e v hv => onFailure_delivered wf e hv)
      refine safe_bind.mpr ((aside_session (select_aside _) hu).mono (fun steps v hv => ?_)
        fun _ _ hv => hv)
      refine safe_bind.mpr (safe_answer.mpr ⟨fun results _ => ?_, fun _ _ => hv⟩)
      exact ((delivery_loop wf).loop_of_log started hv).mono (fun _ _ h => h.2) fun _ _ h => h

end

/-! ## The processor -/

section
variable {event : IncidentCreatedEvent}

/-- What is found processed is marked. -/
theorem getProcessed_safe {K : Option ProcessedEvent → World W → Prop}
    (h : ∀ t found, Frame w s t → Persists s t →
      (found ≠ none → t.db.Marked event.eventId) → K found t) :
    (getProcessed event.eventId).Safe (delivery env base).discipline w K (fun _ _ => True) s :=
  delivery_select (fun t hf hp => h t _ hf hp fun hn => hn) fun _ _ _ => trivial

theorem isDuplicate_safe :
    (IncidentEventProcessor.isDuplicate event).Safe (delivery env base).discipline w
      (fun found t => t.staged w = [] ∧ (found = true → t.db.Marked event.eventId))
      (fun _ t => t.staged w = []) s := by
  refine delivery_session (fun found t u hk hp hf => hp.marked _ (hk hf)) ?_
  refine safe_bind.mpr (getProcessed_safe fun t found _ _ hfound => ?_)
  cases found with
  | some row => exact fun _ => hfound (Option.some_ne_none row)
  | none =>
      refine safe_bind.mpr (delivery_select (fun u _ _ => ?_) fun _ _ _ => trivial)
      split
      · exact fun hf => by cases hf
      · trivial

/-- **The marker** is there when it is inserted, and also when its insertion is refused as a
duplicate. -/
theorem commitMarker_safe {row : ProcessedEvent} (hs : s.staged w = []) :
    (commit .marker [.insertProcessed row]).Safe (delivery env base).discipline w
      (fun _ t => t.db.Marked row.eventId)
      (fun e t => e.isAny [.integrityError] = true → t.db.Marked row.eventId) s := by
  refine safe_bind.mpr (Protocol.safe_issue fun t hf _ _ hI r hperm => ?_)
  have ht : t.staged w = [] := hf.staged.trans hs
  obtain ⟨hlog, hh⟩ := after_commit_messages (w := w) (s := t) .marker
    [.insertProcessed row] r
  rcases after_commit hperm with ⟨-, -, hdb, -⟩ | ⟨hlost, hdb, -⟩
  · rw [ht, List.nil_append, Database.applyAll_cons, Database.applyAll_nil] at hdb
    obtain ⟨hI', hp, hmarked⟩ := hI.mark hdb hlog hh
    exact ⟨hI', fun _ _ => hp, hp,
      safe_answer.mpr ⟨fun _ _ => hmarked, fun _ _ _ => hmarked⟩⟩
  · obtain ⟨hI', hp⟩ := hI.same hdb hlog hh
    refine ⟨hI', fun _ _ => hp, hp, safe_answer.mpr ⟨fun _ hok => ?_, fun e he hcls => ?_⟩⟩
    · cases r with
      | committed => exact absurd trivial hlost
      | failed e applied => cases hok
    -- a duplicate is the only reason for an integrity error
    cases r with
    | committed => cases he
    | failed e' applied =>
        cases he
        rcases hperm with ⟨happlied, -, -⟩ | ⟨-, hfault | ⟨-, hdata⟩ | ⟨-, hadmits, -⟩⟩
        · exact absurd happlied hlost
        · simp [PyExc.isAny, PyExc.isA, hfault.2, ExcClass.bases] at hcls
        · simp [PyExc.isAny, PyExc.isA, hdata, ExcClass.bases] at hcls
        · rw [ht, List.nil_append] at hadmits
          simp only [Database.admitsAll, Database.admits, Bool.and_true, List.all_eq_true,
            decide_eq_true_eq, not_forall, not_not] at hadmits
          obtain ⟨row', hmem, hid⟩ := hadmits
          rw [hdb]
          intro hnone
          have := List.find?_eq_none.mp hnone row' hmem
          simp [hid] at this

theorem insertMarker_safe (consumerGroup : Text) (result : Json) (outcome : ProcessingOutcome)
    (hs : s.staged w = []) :
    (IncidentEventProcessor.insertMarker consumerGroup event result outcome).Safe
      (delivery env base).discipline w
      (fun _ t => t.staged w = [] ∧ t.db.Marked event.eventId) (fun _ t => t.staged w = []) s := by
  refine delivery_session (fun _ t u hk hp => hp.marked _ hk) ?_
  refine safe_bind.mpr (getProcessed_safe fun t found hf _ hfound => ?_)
  have ht : t.staged w = [] := hf.staged.trans hs
  cases found with
  | some row => exact hfound (Option.some_ne_none row)
  | none =>
      refine safe_tryCatch.mpr (safe_bind.mpr ((commitMarker_safe ht).mono (fun _ _ hu => hu)
        fun e u hu => ?_))
      split
      · rename_i hcls
        refine safe_bind.mpr (silent_call trivial fun v hf hp _ r _ => ?_)
        exact (hp.marked _ (hu hcls) : v.db.Marked event.eventId)
      · trivial

/-- **The processor** returns with the event marked. -/
theorem process_safe (consumerGroup : Text) (workflow : Option ControlledAgentWorkflow) :
    (IncidentEventProcessor.process consumerGroup (workflow.map (·.workflow)) event).Safe
      (delivery env base).discipline w
      (fun _ t => t.staged w = [] ∧ t.db.Marked event.eventId) (fun _ t => t.staged w = []) s := by
  refine safe_bind.mpr (isDuplicate_safe.mono (fun found t ht => ?_) fun _ _ ht => ht)
  cases found with
  | true => exact ⟨ht.1, ht.2 rfl⟩
  | false =>
      refine safe_bind.mpr (Safe.mono (Q := fun _ u => u.staged w = [])
        (X := fun _ u => u.staged w = []) ?_ (fun out u hu => ?_) fun _ _ hu => hu)
      · cases workflow with
        | none => exact ht.1
        | some wf =>
            refine safe_bind.mpr (safe_tryCatch.mpr ((resolve_delivered wf event ht.1).mono
              (fun _ _ hu => hu) fun e u hu => ?_))
            split <;> exact hu
      · obtain ⟨result, outcome⟩ := out
        exact insertMarker_safe consumerGroup result outcome hu

/-- **A handled message** is discharged, unless it is to be retried. -/
theorem handle_delivered (consumerGroup : Text) (workflow : Option ControlledAgentWorkflow)
    (value : Option Bytes) (hs : s.staged w = []) :
    (IncidentMessageHandler.handle
      (IncidentEventProcessor.process consumerGroup (workflow.map (·.workflow))) value).Safe
      (delivery env base).discipline w
      (fun outcome t => t.staged w = [] ∧ (outcome ≠ .retry → Discharged t.db value))
      (fun _ t => t.staged w = []) s := by
  cases value with
  | none => exact ⟨hs, fun _ _ _ hv => by cases hv⟩
  | some value =>
      refine safe_bind.mpr (safe_tryCatch.mpr (safe_map.mpr (safe_answer.mpr
        ⟨fun event hread => ?_, fun e hread => ?_⟩)))
      · -- the event is processed, or to be retried
        refine safe_bind.mpr (safe_tryCatch.mpr (safe_map.mpr
          ((process_safe consumerGroup workflow).mono (fun outcome t ht => ?_) fun e t ht => ?_)))
        · have hdischarged : Discharged t.db (some value) := by
            intro bytes event' hbytes hread'
            cases hbytes
            rw [hread] at hread'
            cases hread'
            exact ht.2
          cases outcome <;> exact ⟨ht.1, fun _ => hdischarged⟩
        · split
          · exact ⟨ht, fun hne => absurd rfl hne⟩
          · exact ht
      · -- what is not read as an event holds none
        have hdischarged : Discharged s.db (some value) := by
          intro bytes event hbytes hread'
          cases hbytes
          rw [hread] at hread'
          cases hread'
        split
        · exact ⟨hs, fun _ => hdischarged⟩
        · exact hs

end

/-! ## The worker -/

/-- The position and the committed offset have no part in the delivery. -/
theorem seek_delivered (m : Message) (hs : s.staged w = []) :
    (KafkaIncidentWorker.seekToMessage m).Safe (delivery env base).discipline w
      (fun _ t => t.staged w = []) (fun _ _ => True) s := by
  refine safe_bind.mpr (silent_call trivial fun t hf _ _ r _ => ?_)
  have ht : t.staged w = [] := hf.staged.trans hs
  refine safe_answer.mpr ⟨fun _ hok => ?_, fun _ _ => trivial⟩
  subst hok
  exact ht

theorem commitMessage_delivered (m : Message) (hs : s.staged w = []) :
    (KafkaIncidentWorker.commitMessage m).Safe (delivery env base).discipline w
      (fun _ t => t.staged w = []) (fun _ t => t.staged w = []) s := by
  refine safe_bind.mpr (silent_call trivial fun t hf _ _ r _ => ?_)
  have ht : (after w t (.commitOffset m.source m.offset) r).staged w = [] := by
    rcases r with _ | ⟨e, _ | _⟩ <;> exact hf.staged.trans hs
  exact safe_answer.mpr ⟨fun _ _ => ht, fun _ _ => ht⟩

/-- **The loop body** handles the message. -/
theorem processMessage_delivered (consumerGroup : Text) (workflow : Option ControlledAgentWorkflow)
    {m : Message} (hs : s.staged w = []) (hm : (s.log m.source)[m.offset]? = some m.value) :
    (KafkaIncidentWorker.processMessage (IncidentMessageHandler.handle
      (IncidentEventProcessor.process consumerGroup (workflow.map (·.workflow)))) m).Safe
      (delivery env base).discipline w (fun _ t => t.staged w = []) (fun _ _ => True) s := by
  -- the message stays where it is while it is handled
  have hhandled : (IncidentMessageHandler.handle
      (IncidentEventProcessor.process consumerGroup (workflow.map (·.workflow))) m.value).Safe
      (delivery env base).discipline w
      (fun outcome t => t.staged w = [] ∧ (outcome ≠ .retry → Discharged t.db m.value))
      (fun _ t => t.staged w = []) s := handle_delivered consumerGroup workflow m.value hs
  have hkeep := hhandled.keep (K := fun t => (t.log m.source)[m.offset]? = some m.value)
    (fun _ _ hr hv => hr.2.value hv) (fun _ _ _ _ hg hv => hg.2.value hv) hm
  refine safe_bind.mpr (Safe.mono (Q := fun outcome t => t.staged w = [] ∧ ∀ o, outcome = some o →
    (t.log m.source)[m.offset]? = some m.value ∧ (o ≠ .retry → Discharged t.db m.value))
    (X := fun _ _ => True) ?_ (fun outcome t ht => ?_) fun _ _ _ => trivial)
  · refine safe_tryCatch.mpr (safe_map.mpr (hkeep.mono (fun outcome t ht => ?_) fun e t ht => ?_))
    · refine ⟨ht.1.1, fun o ho => ?_⟩
      cases ho
      exact ⟨ht.2, ht.1.2⟩
    · exact safe_bind.mpr ((seek_delivered m ht.1).mono (fun _ _ hu => ⟨hu, fun o ho => by cases ho⟩)
        fun _ _ _ => trivial)
  · obtain ⟨hs, ht⟩ := ht
    cases outcome with
    | none => exact hs
    | some outcome =>
        obtain ⟨hvalue, hdischarged⟩ := ht outcome rfl
        refine safe_bind.mpr (delivery_call fun u hf hp hI r _ => ?_)
        have hu : u.staged w = [] := hf.staged.trans hs
        by_cases ho : outcome = .retry
        · subst ho
          exact ⟨⟨hI, .refl u⟩, (seek_delivered m hu).mono (fun _ _ hv => hv) fun _ _ _ => trivial⟩
        · have hafter : after w u (.observe m outcome) r = { u with hist := { u.hist with
              handled := u.hist.handled ++ [(m.source, m.offset)] } } := by simp [after, ho]
          have hnone : (after w u (.observe m outcome) r).staged w = [] := by rw [hafter]; exact hu
          refine ⟨hI.handle (hp.value hvalue) (hp.discharged (hdischarged ho)) (by rw [hafter])
            (by rw [hafter]) (by rw [hafter]), ?_⟩
          rw [if_neg ho]
          refine safe_tryCatch.mpr ((commitMessage_delivered m hnone).mono (fun _ _ hv => hv)
            fun e v hv => ?_)
          split
          · exact seek_delivered m hv
          · trivial

theorem consume_delivered (consumerGroup : Text) (workflow : Option ControlledAgentWorkflow)
    (fuel : Nat) (hs : s.staged w = []) :
    (KafkaIncidentWorker.consume (IncidentMessageHandler.handle
      (IncidentEventProcessor.process consumerGroup (workflow.map (·.workflow)))) fuel).Safe
      (delivery env base).discipline w (fun _ t => t.staged w = []) (fun _ _ => True) s := by
  induction fuel generalizing s with
  | zero => exact hs
  | succ fuel ih =>
      refine safe_bind.mpr (silent_call trivial fun t hf _ _ stop _ => ?_)
      have ht : t.staged w = [] := hf.staged.trans hs
      cases stop with
      | true => exact ht
      | false =>
          refine safe_bind.mpr (silent_call trivial fun u hf _ _ r hperm => ?_)
          have hu : u.staged w = [] := hf.staged.trans ht
          have hnone : (after w u .poll r).staged w = [] := by rcases r with e | _ | _ | m <;> exact hu
          refine safe_bind.mpr (safe_answer.mpr ⟨fun result hresult => ?_, fun _ _ => trivial⟩)
          subst hresult
          cases result with
          | nothing => exact ih hnone
          | error => exact ih hnone
          | message m =>
              exact safe_bind.mpr ((processMessage_delivered consumerGroup workflow
                (s := after w u .poll (.ok (.message m))) hnone hperm.1).mono
                  (fun _ v hv => ih hv) fun _ _ _ => trivial)

theorem waitUntilReady_delivered (topic : Text) (fuel : Nat) (hs : s.staged w = []) :
    (KafkaIncidentWorker.waitUntilReady topic fuel).Safe (delivery env base).discipline w
      (fun _ t => t.staged w = []) (fun _ _ => True) s := by
  induction fuel generalizing s with
  | zero => exact hs
  | succ fuel ih =>
      refine safe_bind.mpr (silent_call trivial fun t hf _ _ stop _ => ?_)
      have ht : t.staged w = [] := hf.staged.trans hs
      cases stop with
      | true => exact ht
      | false =>
          refine safe_bind.mpr (safe_tryCatch.mpr (Safe.mono (Q := fun _ u => u.staged w = [])
            (X := fun _ u => u.staged w = []) ?_ (fun ready u hu => ?_) fun e u hu => ?_))
          · refine safe_bind.mpr (silent_call trivial fun u hf _ _ r _ => ?_)
            have hu : u.staged w = [] := hf.staged.trans ht
            refine safe_bind.mpr (safe_answer.mpr ⟨fun _ _ => ?_, fun _ _ => hu⟩)
            exact safe_bind.mpr (silent_call trivial fun v hf _ _ _ _ => hf.staged.trans hu)
          · cases ready with
            | true => exact hu
            | false => exact ih hu
          · split
            · exact ih hu
            · trivial

/-- **The worker** keeps the delivery. -/
theorem worker_delivered (topic consumerGroup : Text) (workflow : Option ControlledAgentWorkflow)
    (fuel : Nat) (hs : s.staged w = []) :
    (KafkaIncidentWorker.run topic (IncidentMessageHandler.handle
      (IncidentEventProcessor.process consumerGroup (workflow.map (·.workflow)))) fuel).Safe
      (delivery env base).discipline w (fun _ _ => True) (fun _ _ => True) s := by
  refine safe_bind.mpr ((waitUntilReady_delivered topic fuel hs).mono (fun ready t ht => ?_)
    fun _ _ _ => trivial)
  cases ready with
  | true =>
      exact (consume_delivered consumerGroup workflow fuel ht).mono (fun _ _ _ => trivial)
        fun _ _ _ => trivial
  | false => trivial

end

end

end SupportPlatform

