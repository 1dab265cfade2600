import SupportPlatform.Isolation
import SupportPlatform.ReferenceCodec
import SupportPlatform.Replay

/-! # Human review

The approve, reject and feedback requests of one incident (`_record_feedback_impl` of
`app/api/routes/incidents.py` and `AgentRepository.add_feedback`).

A request reads the execution's status, and writes its own decision in a later
transaction that checks nothing.  So two requests that both read a pending review both
decide it.  In the runs in which every decision is committed while the review is still
pending (`InTime`), there is one decision, and the status is its outcome.
-/
namespace SupportPlatform
open Program World

/-! ## The requests -/

/-- `FeedbackRequest`, stripped and within its bounds. -/
structure FeedbackRequest where
  rating : Option Nat
  comment : Option Text
  reviewer : Text
  rating_range : ∀ r ∈ rating, 1 ≤ r ∧ r ≤ 5
  comment_length : ∀ c ∈ comment, c.length ≤ 2000
  reviewer_length : 1 ≤ reviewer.length ∧ reviewer.length ≤ 120

/-- `outcome in {"approved", "rejected"}`. -/
def FeedbackOutcome.decides : FeedbackOutcome → Bool
  | .feedback => false
  | .approved | .rejected => true

/-- The status that a decision leads to. -/
def FeedbackOutcome.status : FeedbackOutcome → AgentStatus
  | .approved => .approved
  | _ => .rejected

/-- The 409 response of a request without anything to review. -/
def nothingToReview : PyExc :=
  ⟨.httpException 409, "No agent resolution is available for review"⟩

/-- The new `ResolutionFeedbackRecord`. -/
def feedbackRecord (incidentId resolutionId : Int) (feedback : FeedbackRequest)
    (outcome : FeedbackOutcome) : Feedback :=
  { id := 0
    incidentId := incidentId
    resolutionId := resolutionId
    rating := feedback.rating
    outcome := outcome
    accepted := outcome = .approved
    edited := false
    comment := feedback.comment
    reviewer := feedback.reviewer }

/-- What `add_feedback` writes: the entry, and with a decision the execution's status. -/
def reviewChanges (record : Feedback) (execution : Execution) (now : Timestamp) : List Change :=
  if record.outcome.decides then
    [.insertFeedback record, .updateExecution execution
      { execution with status := record.outcome.status, updatedAt := now }]
  else [.insertFeedback record]

/-- `AgentRepository.add_feedback`.  The session holds the execution that the request has
read already, and gives that object back for the second query. -/
def addFeedback (incidentId : Int) (feedback : FeedbackRequest) (outcome : FeedbackOutcome)
    (execution : Execution) : Py (Option Feedback) := do
  let resolution ← getResolution incidentId
  let again ← executionOf incidentId
  match resolution, again with
  | some resolution, some _ =>
      let record := feedbackRecord incidentId resolution.id feedback outcome
      let time ← now
      commit .review (reviewChanges record execution time)
      let stored ← answer (← issue (.refreshFeedback record))
      return some stored
  | _, _ => return none

/-- `_record_feedback_impl`: its result is the 201 response, an HTTP exception any other. -/
def recordFeedback (incidentId : Int) (feedback : FeedbackRequest) (outcome : FeedbackOutcome) :
    Py Feedback := withSession do
  match ← getIncident incidentId with
  | none => throw ⟨.httpException 404, "Incident not found"⟩
  | some _ =>
      match ← executionOf incidentId with
      | none => throw nothingToReview
      | some execution =>
          if outcome.decides ∧ execution.status ≠ .awaitingReview then
            throw ⟨.httpException 409,
              "Resolution review is not pending; current status is " ++ execution.status.value⟩
          else
            match ← addFeedback incidentId feedback outcome execution with
            | none => throw nothingToReview
            | some record => return record

/-! ## One decision -/

section
variable [Runtime] [Pydantic] {W : Type} [DecidableEq W] {env : Environment}

/-- The decisions that are recorded for an incident. -/
def Database.decisions (db : Database) (incidentId : Int) : List Feedback :=
  db.feedback.filter fun f => f.incidentId = incidentId ∧ f.outcome.decides

/-- The review of an execution is pending. -/
def World.ReviewPending (s : World W) (executionId : Uuid) : Prop :=
  (s.db.execution? executionId).map (·.status) = some .awaitingReview

instance (s : World W) : DecidablePred s.ReviewPending := fun executionId =>
  inferInstanceAs (Decidable ((s.db.execution? executionId).map (·.status) = _))

/-- The changes that a call commits as a review. -/
def Op.reviewed : Op → List Change
  | .commit .review changes => changes
  | _ => []

/-- What the change writes awaits its review, if it is an execution. -/
def World.AwaitsReview (s : World W) (c : Change) : Prop :=
  match c.execution? with
  | some executionId => s.ReviewPending executionId
  | none => True

instance (s : World W) : DecidablePred s.AwaitsReview := fun c =>
  match h : c.execution? with
  | some executionId => decidable_of_iff (s.ReviewPending executionId) (by simp [AwaitsReview, h])
  | none => isTrue (by simp [AwaitsReview, h])

/-- **A decision made in time**: a review that writes an execution is committed while the
review is pending, and PostgreSQL takes its texts. -/
def InTime (_ : W) (o : Op) (s : World W) (_ : Resp o) : Prop :=
  (o.reviewed.any fun c => c.execution?.isSome) = true →
    ∀ c ∈ o.reviewed, s.AwaitsReview c ∧ c.storable = true

instance (w : W) (o : Op) (s : World W) (r : Resp o) : Decidable (InTime w o s r) :=
  inferInstanceAs (Decidable (_ = true → ∀ c ∈ o.reviewed, _ ∧ _))

/-- The requests of `w` have decided: it was the last to write the execution in a review,
and the review is not pending any more. -/
def World.Decided (s : World W) (executionId : Uuid) (w : W) : Prop :=
  s.hist.writer .review executionId = some w ∧ ¬ s.ReviewPending executionId

/-- **The law of the review** of one incident: its execution is awaiting review without a
recorded decision, or its status is the outcome of the one decision. -/
structure ReviewInv (incidentId : Int) (executionId : Uuid) (s : World W) : Prop where
  incident : ∃ i, s.db.incident? incidentId = some i
  execution : ∃ x, s.db.executionOf incidentId = some x ∧ x.executionId = executionId
  decided : s.ReviewPending executionId ∧ s.db.decisions incidentId = [] ∨
    ∃ f x, s.db.decisions incidentId = [f] ∧ s.db.execution? executionId = some x ∧
      x.status = f.outcome.status

/-! ## What a review writes -/

namespace Database
variable {db : Database}

omit [Runtime] [Pydantic] in
theorem decisions_insert (r : Feedback) (i : Int) :
    (db.apply (.insertFeedback r)).decisions i =
      db.decisions i ++ if r.incidentId = i ∧ r.outcome.decides then
        [{ r with id := db.feedback.length + 1 }] else [] := by
  simp only [decisions, apply, List.filter_append, List.filter_cons, List.filter_nil]
  congr 1
  by_cases h : r.incidentId = i ∧ r.outcome.decides = true <;> simp [h]

end Database

section
variable {incidentId : Int} {executionId : Uuid} {s t : World W} {v w : W}
  {X : PyExc → World W → Prop}

section
omit [Runtime] [Pydantic] [DecidableEq W]

theorem ReviewInv.congr (h : ReviewInv incidentId executionId s) (hdb : t.db = s.db) :
    ReviewInv incidentId executionId t :=
  ⟨hdb ▸ h.incident, hdb ▸ h.execution, by
    simpa only [World.ReviewPending, hdb] using h.decided⟩

theorem World.Decided.congr (h : s.Decided executionId v) (hdb : t.db = s.db)
    (hw : t.hist.writer = s.hist.writer) : t.Decided executionId v :=
  ⟨hw ▸ h.1, by simpa only [World.ReviewPending, hdb] using h.2⟩

/-- Feedback that is not a decision leaves the review alone. -/
theorem ReviewInv.comment (h : ReviewInv incidentId executionId s) {r : Feedback}
    (hr : r.outcome.decides = false) (hdb : t.db = s.db.apply (.insertFeedback r)) :
    ReviewInv incidentId executionId t := by
  refine ⟨by rw [hdb]; exact h.incident, by rw [hdb]; exact h.execution, ?_⟩
  have hdec : t.db.decisions incidentId = s.db.decisions incidentId := by
    rw [hdb, Database.decisions_insert]
    simp [hr]
  have hexec : t.db.execution? executionId = s.db.execution? executionId := by
    rw [hdb]
    rfl
  simpa only [World.ReviewPending, hdec, hexec] using h.decided

/-- **A decision in time**: afterwards there is one decision, and the status is its outcome. -/
theorem ReviewInv.decide (h : ReviewInv incidentId executionId s) {r : Feedback} {x e : Execution}
    (hr : r.incidentId = incidentId ∧ r.outcome.decides = true)
    (hx : x.executionId = executionId) (hstatus : x.status = .awaitingReview)
    (he : e.incidentId = x.incidentId ∧ e.status = r.outcome.status)
    (hpending : s.ReviewPending executionId)
    (hdb : t.db = (s.db.apply (.insertFeedback r)).apply (.updateExecution x e)) :
    ReviewInv incidentId executionId t ∧ ¬ t.ReviewPending executionId := by
  obtain ⟨cur, hcur, hpend⟩ := Option.map_eq_some_iff.mp hpending
  have hnone : s.db.decisions incidentId = [] := by
    rcases h.decided with ⟨-, hd⟩ | ⟨f, y, -, hy, hst⟩
    · exact hd
    · -- a decided review is not pending
      rw [hcur] at hy
      cases hy
      rw [hpend] at hst
      cases hf : f.outcome <;> rw [hf] at hst <;> cases hst
  have hne : e.status ≠ x.status := by
    rw [he.2, hstatus]
    cases r.outcome <;> decide
  have hnew : t.db.execution? executionId = some (x.merge e cur) := by
    subst hx
    rw [hdb]
    exact Database.execution?_update hcur
  have hst : (x.merge e cur).status = r.outcome.status := by
    show put x.status e.status cur.status = _
    rw [put, if_neg hne, he.2]
  have hdec : t.db.decisions incidentId = [{ r with id := s.db.feedback.length + 1 }] := by
    rw [hdb]
    show (s.db.apply (.insertFeedback r)).decisions incidentId = _
    rw [Database.decisions_insert, hnone, if_pos hr]
    rfl
  refine ⟨⟨by rw [hdb]; exact h.incident, ?_, .inr ⟨_, _, hdec, hnew, hst⟩⟩, ?_⟩
  · obtain ⟨y, hy, hid⟩ := h.execution
    have hy' : (s.db.apply (.insertFeedback r)).executionOf incidentId = some y := hy
    rw [hdb, Database.executionOf_update he.1, hy']
    refine ⟨_, rfl, ?_⟩
    dsimp only
    split <;> exact hid
  · intro hawait
    obtain ⟨z, hz, hawait⟩ := Option.map_eq_some_iff.mp hawait
    rw [hnew] at hz
    cases hz
    rw [hst] at hawait
    cases ho : r.outcome <;> rw [ho] at hawait <;> cases hawait

end

/-- **The discipline of the review**: nobody takes back what another has decided. -/
def review (env : Environment) (incidentId : Int) (executionId : Uuid) : Protocol env W where
  C := InTime
  I := ReviewInv incidentId executionId
  R w s t := s.Decided executionId w → t.Decided executionId w
  G _ _ _ _ _ := True
  refl _ _ := id
  trans _ _ _ _ h h' := h' ∘ h
  crash_inv w s h := h.congr (by simp [World.crash, World.rollback])
  crash_rely v w s _ _ h := h.congr (by simp [World.crash, World.rollback])
    (by simp [World.crash, World.rollback])

/-! ## Requests keep the law -/

/-- What is left of the exceptions of a deciding request when nothing fails operationally:
the conflict. -/
def Conflict (env : Environment) (outcome : FeedbackOutcome) (e : PyExc) : Prop :=
  outcome.decides = true → env.dbFaults = false → e.cls = .httpException 409

omit [Runtime] [Pydantic] in
theorem Conflict.of_fault {outcome : FeedbackOutcome} {e : PyExc} (h : env.Fault e) :
    Conflict env outcome e := by
  intro _ hcalm
  rw [h.1] at hcalm
  cases hcalm

omit [Runtime] [Pydantic] in
/-- What the changes of a review leave, once they have taken effect. -/
theorem ReviewInv.settle (h : ReviewInv incidentId executionId s) {record : Feedback}
    {execution : Execution} {time : Timestamp} (hid : execution.executionId = executionId)
    (hrec : record.incidentId = incidentId)
    (hpend : record.outcome.decides = true → execution.status = .awaitingReview)
    (r : CommitReport) (hin : InTime w (.commit .review (reviewChanges record execution time)) s r)
    (hst : s.staged w = [])
    (hdb : t.db = (s.settle w .review (reviewChanges record execution time)).db)
    (hw : t.hist.writer = (s.settle w .review (reviewChanges record execution time)).hist.writer) :
    ReviewInv incidentId executionId t ∧ (∀ v, s.Decided executionId v → t.Decided executionId v) ∧
      (record.outcome.decides = true → t.Decided executionId w) := by
  by_cases hdec : record.outcome.decides = true
  · rw [reviewChanges, if_pos hdec] at hin hdb hw
    obtain ⟨hpending, -⟩ := hin rfl _ (List.mem_cons_of_mem _ List.mem_cons_self)
    replace hpending : s.ReviewPending executionId := hid ▸ hpending
    obtain ⟨hinv, hnot⟩ := h.decide (t := t) ⟨hrec, hdec⟩ hid (hpend hdec)
      (e := { execution with status := record.outcome.status, updatedAt := time }) ⟨rfl, rfl⟩
      hpending (by rw [hdb]; simp [World.settle, hst])
    refine ⟨hinv, fun v hv => absurd hpending hv.2, fun _ => ⟨?_, hnot⟩⟩
    rw [hw]
    simp [World.settle, hst, Change.execution?, hid]
  · rw [reviewChanges, if_neg hdec] at hdb hw
    have hdb' : t.db = s.db.apply (.insertFeedback record) := by
      rw [hdb]
      simp [World.settle, hst]
    have hexec : t.db.execution? executionId = s.db.execution? executionId := by
      rw [hdb']
      rfl
    refine ⟨h.comment (by simpa using hdec) hdb', fun v hv => ⟨?_, ?_⟩, fun hd => absurd hd hdec⟩
    · rw [hw]
      simpa [World.settle, hst, Change.execution?] using hv.1
    · simpa only [World.ReviewPending, hexec] using hv.2

/-- The commit of a request. -/
theorem reviewCommit_safe {record : Feedback} {execution : Execution} {time : Timestamp}
    (hs : s.staged w = []) (hid : execution.executionId = executionId)
    (hrec : record.incidentId = incidentId)
    (hpend : record.outcome.decides = true → execution.status = .awaitingReview) :
    (commit .review (reviewChanges record execution time)).Safe
      (review env incidentId executionId).discipline w
      (fun _ t => record.outcome.decides = true → t.Decided executionId w)
      (fun e _ => Conflict env record.outcome e) s := by
  refine safe_bind.mpr (Protocol.safe_issue_within fun t hf hR _ hI r hC hp => ?_)
  have hst : t.staged w = [] := hf.staged.trans hs
  rcases r with _ | ⟨e, _ | _⟩
  · obtain ⟨hinv, hothers, hself⟩ := hI.settle
      (t := after w t (.commit .review (reviewChanges record execution time)) .committed)
      hid hrec hpend .committed hC hst rfl rfl
    exact ⟨hinv, fun v _ => hothers v, trivial, hself⟩
  · refine ⟨hI.congr (by simp [after]), fun v _ hv => hv.congr (by simp [after]) (by simp [after]),
      trivial, ?_⟩
    rcases hp with ⟨h, -⟩ | ⟨-, hfault | ⟨⟨c, hc, hstor⟩, -⟩ | ⟨-, hadm, -⟩⟩
    · cases h
    · exact Conflict.of_fault hfault
    · -- the texts of a decision in time can be stored
      intro hd
      rw [reviewChanges, if_pos hd] at hc hC
      exact absurd (hC rfl c hc).2 hstor
    · refine absurd ?_ hadm
      rw [hst, reviewChanges]
      split <;> rfl
  · obtain ⟨hinv, hothers, -⟩ := hI.settle
      (t := after w t (.commit .review (reviewChanges record execution time)) (.failed e true))
      hid hrec hpend (.failed e true) hC hst (by simp [after]) (by simp [after])
    refine ⟨hinv, fun v _ => hothers v, trivial, ?_⟩
    rcases hp with ⟨-, hfault, -⟩ | ⟨h, -⟩
    · exact Conflict.of_fault hfault
    · cases h

/-- Storing the feedback of a request whose decision, if any, was found pending. -/
theorem addFeedback_safe {feedback : FeedbackRequest} {outcome : FeedbackOutcome}
    {execution : Execution} (hs : s.staged w = []) (hid : execution.executionId = executionId)
    (hpend : outcome.decides = true → execution.status = .awaitingReview) :
    (addFeedback incidentId feedback outcome execution).Safe
      (review env incidentId executionId).discipline w
      (fun result t => result.isSome → outcome.decides = true → t.Decided executionId w)
      (fun e _ => Conflict env outcome e) s := by
  refine safe_bind.mpr (Protocol.safe_select (fun _ _ => trivial) (fun t hf _ _ => ?_)
    fun _ _ _ _ _ => Conflict.of_fault)
  refine safe_bind.mpr (Protocol.safe_select (fun _ _ => trivial) (fun u hf' _ _ => ?_)
    fun _ _ _ _ _ => Conflict.of_fault)
  have hu : u.staged w = [] := hf'.staged.trans (hf.staged.trans hs)
  generalize t.db.eval (.resolutionOf incidentId) = resolution
  generalize u.db.eval (.executionOf incidentId) = again
  rcases resolution with _ | resolution
  · exact nofun
  rcases again with _ | again
  · exact nofun
  refine safe_bind.mpr (Protocol.safe_read (fun _ _ => rfl) fun v hf'' _ _ time _ =>
    ⟨trivial, ?_⟩)
  have hcommit : (commit .review (reviewChanges
      (feedbackRecord incidentId resolution.id feedback outcome) execution time)).Safe
      (review env incidentId executionId).discipline w
      (fun _ t => outcome.decides = true → t.Decided executionId w)
      (fun e _ => Conflict env outcome e) v :=
    reviewCommit_safe (hf''.staged.trans hu) hid rfl hpend
  refine safe_bind.mpr (hcommit.mono (fun _ a ha => ?_) fun _ _ he => he)
  refine safe_bind.mpr (Protocol.safe_read (fun _ _ => rfl) fun b _ hR _ r hp => ⟨trivial, ?_⟩)
  refine safe_bind.mpr (safe_answer.mpr ⟨fun stored _ => ?_, fun e he => ?_⟩)
  · exact fun _ hd => hR (ha hd)
  · subst he
    exact Conflict.of_fault hp

/-- Closing the session of a request keeps what it has decided. -/
theorem closeSession_safe {Q : World W → Prop}
    (h : ∀ u : World W, (s.Decided executionId w → u.Decided executionId w) → Q u) :
    (issue .closeSession).Safe (review env incidentId executionId).discipline w
      (fun _ => Q) X s := by
  refine Protocol.safe_issue fun t _ hR _ hI r _ => ?_
  refine ⟨hI.congr rfl, fun v _ hv => hv.congr rfl rfl, trivial, h _ fun hw => ?_⟩
  exact (hR hw).congr rfl rfl

/-- **A request** returns only with its decision made, and otherwise reports a conflict. -/
theorem recordFeedback_safe (feedback : FeedbackRequest) (outcome : FeedbackOutcome)
    (hs : s.staged w = []) :
    (recordFeedback incidentId feedback outcome).Safe
      (review env incidentId executionId).discipline w
      (fun _ t => outcome.decides = true → t.Decided executionId w)
      (fun e _ => Conflict env outcome e) s := by
  refine safe_andFinally (Safe.mono
    (Q := fun _ t => outcome.decides = true → t.Decided executionId w)
    (X := fun e _ => Conflict env outcome e) ?_
    (fun _ t ht => closeSession_safe fun u hu hd => hu (ht hd))
    fun e t he => closeSession_safe fun _ _ => he)
  refine safe_bind.mpr (Protocol.safe_select (fun _ _ => trivial) (fun t hf _ hI => ?_)
    fun _ _ _ _ _ => Conflict.of_fault)
  obtain ⟨incident, hincident⟩ := hI.incident
  rw [show t.db.eval (.incident incidentId) = some incident from hincident]
  refine safe_bind.mpr (Protocol.safe_select (fun _ _ => trivial) (fun u hf' _ hI' => ?_)
    fun _ _ _ _ _ => Conflict.of_fault)
  have hu : u.staged w = [] := hf'.staged.trans (hf.staged.trans hs)
  obtain ⟨execution, hexecution, hid⟩ := hI'.execution
  rw [show u.db.eval (.executionOf incidentId) = some execution from hexecution]
  dsimp only
  split
  · exact fun _ _ => rfl
  · rename_i hpend
    have hpend' : outcome.decides = true → execution.status = .awaitingReview := fun hd =>
      by_contra fun hne => hpend ⟨hd, hne⟩
    refine safe_bind.mpr ((addFeedback_safe hu hid hpend').mono (fun result v hv => ?_)
      fun _ _ he => he)
    cases result with
    | none => exact fun _ _ => rfl
    | some record => exact hv rfl

end

/-! ## Runs -/

/-- A review request of an incident. -/
structure ReviewRequest where
  feedback : FeedbackRequest
  outcome : FeedbackOutcome

/-- Its program. -/
def ReviewRequest.main (incidentId : Int) (request : ReviewRequest) : Py Feedback :=
  recordFeedback incidentId request.feedback request.outcome

/-- An execution that awaits its review, without a decision recorded and with no transaction
under way. -/
structure ReviewStart (incidentId : Int) (executionId : Uuid) (s : World W) : Prop where
  incident : ∃ i, s.db.incident? incidentId = some i
  execution : ∃ x, s.db.executionOf incidentId = some x ∧ x.executionId = executionId
  pending : s.ReviewPending executionId
  undecided : s.db.decisions incidentId = []
  staged : ∀ w, s.staged w = []

/-- **Human review decides once** in a state: at most one deciding request has returned and
every other one that has ended reported a conflict, there is at most one decision, and the
execution's status is its outcome. -/
structure DecidesOnce (env : Environment) (incidentId : Int) (executionId : Uuid)
    (requests : W → ReviewRequest) (p : Pool Resp PyExc Feedback W (World W)) : Prop where
  once : ∀ w v a b, (requests w).outcome.decides = true → (requests v).outcome.decides = true →
    p.task w = some (ret a) → p.task v = some (ret b) → w = v
  conflict : env.dbFaults = false → ∀ w e, (requests w).outcome.decides = true →
    p.task w = some (raise e) → e.cls = .httpException 409
  decision : (p.world.db.decisions incidentId).length ≤ 1
  status : ∀ f ∈ p.world.db.decisions incidentId, ∃ x,
    p.world.db.execution? executionId = some x ∧ x.status = f.outcome.status

/-- **Human review decides once, in the runs that decide in time**: in every run of any
number of review requests whose decisions are committed while the review is pending. -/
theorem decides_once_in_time {incidentId : Int} {executionId : Uuid}
    (requests : W → ReviewRequest) {s₀ : World W} (h₀ : ReviewStart incidentId executionId s₀)
    {p : Pool Resp PyExc Feedback W (World W)}
    (hp : Pool.Reachable ((platform env).restrict InTime)
      (fun w => (requests w).main incidentId) s₀ p) :
    DecidesOnce env incidentId executionId requests p := by
  have hinv : ReviewInv incidentId executionId s₀ :=
    ⟨h₀.incident, h₀.execution, .inl ⟨h₀.pending, h₀.undecided⟩⟩
  have hlocked : s₀.Locked := fun w c hc => by
    rw [h₀.staged w] at hc
    cases hc
  let post : Pool.Post (review (W := W) env incidentId executionId).discipline PyExc Feedback :=
    { returns := fun w _ t => (requests w).outcome.decides = true → t.Decided executionId w
      raises := fun w e _ => Conflict env (requests w).outcome e
      returns_stable := fun w _ s t hr h hd => hr.2 (h hd)
      raises_stable := fun _ _ _ _ _ h => h }
  have hsound : Pool.Sound (review env incidentId executionId).discipline post p :=
    hp.sound post ⟨hlocked, hinv⟩ fun w =>
      recordFeedback_safe (requests w).feedback (requests w).outcome (h₀.staged w)
  obtain ⟨⟨-, hI⟩, htasks⟩ := hsound
  refine ⟨fun w v a b hw hv ha hb => ?_, fun hcalm w e hw he => htasks w _ he hw hcalm, ?_, ?_⟩
  · have hdw := htasks w _ ha hw
    have hdv := htasks v _ hb hv
    exact Option.some.inj (hdw.1.symm.trans hdv.1)
  · rcases hI.decided with ⟨-, hd⟩ | ⟨f, x, hd, -⟩ <;> simp [hd]
  · rcases hI.decided with ⟨-, hd⟩ | ⟨f, x, hd, hx, hst⟩
    · simp [hd]
    · intro g hg
      rw [hd, List.mem_singleton] at hg
      exact ⟨x, hx, hg ▸ hst⟩

end

/-! ## Two requests that both decide -/

/-- An incident whose resolution awaits its review. -/
def awaitingReview : World Bool :=
  { World.blank with
    db := { incidents := [{ id := 1, service := [], error := [], log := [],
                            requestedSeverity := none, resolvedSeverity := .low,
                            classification := .unknownError, probableCause := [],
                            recommendedActions := [], createdAt := 0 }]
            outbox := []
            processed := []
            executions := [{ executionId := 7, incidentId := 1, eventId := 9,
                             status := .awaitingReview, provider := [], model := [],
                             plannerPromptName := [], plannerPromptVersion := [],
                             resolverPromptName := [], resolverPromptVersion := [],
                             stepCount := 3, toolCallCount := 2, modelCallCount := 4,
                             retryCount := 0, retrievedChunkCount := 0,
                             totalDurationMs := none, providerDurationMs := 0,
                             retrievalDurationMs := 0, toolDurationMs := 0,
                             approximateInputChars := 0, approximateOutputChars := 0,
                             providerUsage := none, errorType := none,
                             errorMessageSafe := none, startedAt := none,
                             completedAt := none, createdAt := 0, updatedAt := 0 }]
            steps := []
            resolutions := [{ id := 1, incidentId := 1, eventId := 9, status := .completed,
                              attemptCount := 1, summary := none, rootCause := none,
                              recommendedActions := none, confidence := none,
                              citedSources := none, evidenceSummary := none,
                              toolsUsed := none, limitations := none,
                              escalationRequired := none, humanReviewRecommended := none,
                              retrievedContext := none, llmProvider := none,
                              llmModel := none, embeddingProvider := none,
                              embeddingModel := none, promptName := none,
                              promptVersion := none, errorMessage := none,
                              processingStartedAt := none, completedAt := none,
                              updatedAt := 0 }]
            feedback := [] } }

theorem awaitingReview_start : ReviewStart 1 7 awaitingReview :=
  ⟨⟨_, rfl⟩, ⟨_, rfl, rfl⟩, rfl, rfl, fun _ => rfl⟩

/-- One reviewer approves, another one rejects. -/
def opposingRequests (approves : Bool) : ReviewRequest :=
  ⟨⟨none, none, "reviewer", nofun, nofun, by decide⟩, if approves then .approved else .rejected⟩

/-- One reviewer approves and another one rejects after it. -/
theorem decides_once_in_turn :
    ∃ p : Pool Resp PyExc Feedback Bool (World Bool),
      Pool.Reachable ((platform Environment.calm).restrict InTime)
        (fun w => (opposingRequests w).main 1) awaitingReview p ∧
      p.world.db.feedback.map (·.outcome) = [.approved] ∧
      DecidesOnce Environment.calm 1 7 opposingRequests p := by
  obtain ⟨p, hp, hP⟩ := exists_run_within Environment.calm InTime
    (fun w => (opposingRequests w).main 1) awaitingReview
    (fun p => p.world.db.feedback.map (·.outcome) = [.approved])
    [plain true 8, plain false 3] (by decide +kernel)
  exact ⟨p, hp, of_decide_eq_true hP,
    decides_once_in_time opposingRequests awaitingReview_start hp⟩

/-- Both requests read a pending review before either of them commits, and both return. -/
theorem both_requests_decide :
    ∃ p : Pool Resp PyExc Feedback Bool (World Bool),
      Pool.Reachable (platform Environment.calm) (fun w => (opposingRequests w).main 1)
        awaitingReview p ∧
      ¬ DecidesOnce Environment.calm 1 7 opposingRequests p := by
  obtain ⟨p, hp, hP⟩ := exists_run Environment.calm (fun w => (opposingRequests w).main 1)
    awaitingReview (fun p => (p.world.db.decisions 1).length = 2)
    [plain true 4, plain false 4, plain true 4, plain false 4] (by decide +kernel)
  refine ⟨p, hp, fun h => ?_⟩
  have := h.decision
  rw [of_decide_eq_true hP] at this
  omega

end SupportPlatform

