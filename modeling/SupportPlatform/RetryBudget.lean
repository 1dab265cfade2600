import SupportPlatform.AgentLoop
import SupportPlatform.Session
import SupportPlatform.Replay
import SupportPlatform.LogBlindness

/-! # The retry budget

The attempts at one event, each of which fails: `_claim` counts it, the planning raises, and
the `except` clauses of `_resolve` record a verdict.  The count is that of the attempts
before, whichever of the two ended them, so an outage is never terminal itself but brings the terminal
validation failure nearer: the verdict of an attempt is `verdictOf` of its own kind and of
its position (`deliveries_count`).
-/
namespace SupportPlatform
open Program ControlledAgentWorkflow

/-! ## Attempts and their verdicts -/

/-- What ends an attempt: the first and the second `except` clause of `_resolve`. -/
inductive FailureKind
  | outage | invalid
  deriving DecidableEq

/-- The clause that handles an exception. -/
def FailureKind.Handles : FailureKind → PyExc → Prop
  | outage, exc => exc.isAny [.providerUnavailableError, .toolTimeoutError, .sqlalchemyError] = true
  | invalid, exc =>
      exc.isAny [.providerUnavailableError, .toolTimeoutError, .sqlalchemyError] = false ∧
        exc.isAny [.agentValidationError, .toolExecutionError] = true

/-- What an attempt leaves behind. -/
inductive Verdict
  | retryable | failed
  deriving DecidableEq

/-- The status of the execution. -/
def Verdict.status : Verdict → AgentStatus
  | retryable => .retryable
  | failed => .failed

/-- How `resolve` ends. -/
def Verdict.outcome (exc : PyExc) : Verdict → Except PyExc ResolutionWorkflowOutcome
  | retryable => .error ⟨.retryableResolutionError, exc.safeError⟩
  | failed => .ok .failed

/-- The verdict of an attempt, after so many others. -/
def verdictOf (modelRetries before : Nat) (kind : FailureKind) : Verdict :=
  if kind = .invalid ∧ modelRetries ≤ before + 1 then .failed else .retryable

section
variable [Runtime] [Pydantic] {W : Type} [DecidableEq W] {env : Environment}
  {wf : ControlledAgentWorkflow} {event : IncidentCreatedEvent}

/-- The `try` block of `_resolve`. -/
def planning (wf : ControlledAgentWorkflow) (x : Uuid) (event : IncidentCreatedEvent)
    (started : Rat) : Py ResolutionWorkflowOutcome := do
  let steps ← loadSteps x
  let results ← answer (restoreResults steps)
  wf.loop x event started wf.fuel (initialState steps results)

/-- **An attempt** of `w`, which has no transaction open: it claims the execution, its planning
raises, and the failure is recorded with a verdict. -/
inductive Attempt (env : Environment) (wf : ControlledAgentWorkflow)
    (event : IncidentCreatedEvent) (w : W) : World W → FailureKind → Verdict → World W → Prop
  | mk {s₀ s₁ s₂ s₃ s₄ : World W} {x : Uuid} {started : Rat} {exc : PyExc} {kind : FailureKind}
      {verdict : Verdict} (idle : s₀.staged w = [])
      (claims : Exec (alone env w) (wf.claim event) s₀ (.ok (x, none)) s₁)
      (starts : Exec (alone env w) perfCounter s₁ (.ok started) s₂)
      (raises : Exec (alone env w) (planning wf x event started) s₂ (.error exc) s₃)
      (handled : kind.Handles exc)
      (records : Exec (alone env w) (wf.onFailure x exc) s₃ (verdict.outcome exc) s₄) :
      Attempt env wf event w s₀ kind verdict s₄

/-- An attempt is a run of `resolve` with the verdict's outcome. -/
theorem Attempt.resolves {w : W} {s t : World W} {kind : FailureKind} {verdict : Verdict}
    (h : Attempt env wf event w s kind verdict t) :
    ∃ exc, Exec (alone env w) (wf.resolve event) s (verdict.outcome exc) t := by
  obtain ⟨-, hclaim, hstart, hraise, -, hrecord⟩ := h
  exact ⟨_, hclaim.bind (hstart.bind (hraise.tryCatch hrecord))⟩

/-- What others do between two attempts: the execution of the incident is not theirs. -/
structure Elsewhere (incidentId : Int) (s t : World W) : Prop where
  execution : t.db.executionOf incidentId = s.db.executionOf incidentId
  nodup : (s.db.executions.map (·.executionId)).Nodup →
    (t.db.executions.map (·.executionId)).Nodup

/-- **The deliveries** of one event, to any of the workers: the failed attempts in order, each
with what ended it and its verdict. -/
inductive Deliveries (env : Environment) (wf : ControlledAgentWorkflow)
    (event : IncidentCreatedEvent) (s : World W) :
    List (FailureKind × Verdict) → World W → Prop
  | none : Deliveries env wf event s [] s
  | attempt {h : List (FailureKind × Verdict)} {t u : World W} {w : W} {kind : FailureKind}
      {verdict : Verdict} (hd : Deliveries env wf event s h t)
      (ha : Attempt env wf event w t kind verdict u) :
      Deliveries env wf event s (h ++ [(kind, verdict)]) u
  | elsewhere {h : List (FailureKind × Verdict)} {t u : World W}
      (hd : Deliveries env wf event s h t) (ho : Elsewhere event.incidentId t u) :
      Deliveries env wf event s h u

/-- No attempt was made at the incident yet. -/
structure Undelivered (incidentId : Int) (s : World W) : Prop where
  execution : s.db.executionOf incidentId = none
  nodup : (s.db.executions.map (·.executionId)).Nodup

/-! ## The count -/

/-- The execution `x` of the incident was claimed so many times before. -/
structure Database.Claimed (incidentId : Int) (x : Uuid) (before : Nat) (db : Database) : Prop where
  nodup : (db.executions.map (·.executionId)).Nodup
  row : ∃ row, db.executionOf incidentId = some row ∧ row.executionId = x ∧ row.retryCount = before

/-- The change adds no execution, and leaves the count and the incident of each alone. -/
def Change.KeepsCount : Change → Prop
  | .insertExecution _ => False
  | .updateExecution l e => e.incidentId = l.incidentId ∧ e.retryCount = l.retryCount
  | _ => True

namespace Database
variable {db : Database} {incidentId : Int} {x : Uuid} {before : Nat}

section
omit [Runtime] [Pydantic]

theorem nodup_update {l e : Execution} (h : (db.executions.map (·.executionId)).Nodup) :
    ((db.apply (.updateExecution l e)).executions.map (·.executionId)).Nodup := by
  have hids : (db.apply (.updateExecution l e)).executions.map (·.executionId) =
      db.executions.map (·.executionId) := by
    rw [apply, List.map_map]
    refine List.map_congr_left fun row _ => ?_
    simp only [Function.comp_apply]
    split <;> rfl
  rw [hids]
  exact h

theorem Claimed.apply (h : db.Claimed incidentId x before) {c : Change} (hc : c.KeepsCount) :
    (db.apply c).Claimed incidentId x before := by
  cases c with
  | insertExecution r => exact hc.elim
  | updateExecution l e =>
      obtain ⟨row, hrow, hid, hcount⟩ := h.row
      refine ⟨nodup_update h.nodup, ?_⟩
      rw [executionOf_update hc.1, hrow]
      refine ⟨_, rfl, ?_⟩
      dsimp only
      split
      · exact ⟨hid, by rw [Execution.merge, hc.2]; exact (put_unedited _ _).trans hcount⟩
      · exact ⟨hid, hcount⟩
  | _ => exact ⟨h.nodup, h.row⟩

theorem Claimed.applyAll (h : db.Claimed incidentId x before) {cs : List Change}
    (hcs : ∀ c ∈ cs, c.KeepsCount) : (db.applyAll cs).Claimed incidentId x before := by
  induction cs generalizing db with
  | nil => exact h
  | cons c cs ih =>
      exact ih (h.apply (hcs c List.mem_cons_self)) fun d hd => hcs d (List.mem_cons_of_mem c hd)

/-- The row of a claimed execution. -/
theorem Claimed.execution? (h : db.Claimed incidentId x before) :
    ∃ row, db.execution? x = some row ∧ db.executionOf incidentId = some row ∧
      row.executionId = x ∧ row.retryCount = before := by
  obtain ⟨row, hrow, hid, hcount⟩ := h.row
  exact ⟨row, hid ▸ execution?_of_executionOf h.nodup hrow, hrow, hid, hcount⟩

end

end Database

/-! ## Claims count -/

variable {C : (o : Op) → Session → Resp o → Prop} {a : Session} {x : Uuid} {before : Nat}

omit [Pydantic] in
/-- The second half of a claim, for an execution that counts so many claims before. -/
theorem claimWith_ends {time : Timestamp} {execution : Change} (ha : a.staged = [])
    (hnew : a.Accepts [execution] →
      (a.db.apply execution).Claimed event.incidentId x before) :
    Ends env C (wf.claimWith event time execution)
      (fun _ t => t.db.Claimed event.incidentId x before) (fun _ _ => True) a := by
  refine safe_bind.mpr (ends_flush (fun haccepts => ?_) fun _ _ => trivial)
  have hsent : (a.send [execution]).staged = [execution] := by simp [Session.send, ha]
  have hsettled : ∀ c : Change, c.KeepsCount →
      ((a.send [execution]).settle [c]).db.Claimed event.incidentId x before := by
    intro c hc
    rw [Session.settle, hsent]
    have hkeeps : ∀ d ∈ [c], d.KeepsCount := fun d hd => List.mem_singleton.mp hd ▸ hc
    exact (hnew haccepts).applyAll hkeeps
  refine safe_bind.mpr (ends_select ?_ fun _ _ => trivial)
  split
  · exact ends_commit (fun _ => hsettled _ trivial) (fun _ _ _ => trivial) fun _ _ => trivial
  · exact ends_commit (fun _ => hsettled _ trivial) (fun _ _ _ => trivial) fun _ _ => trivial

/-- What is known before the next attempt, after so many of them. -/
def Database.Awaits (incidentId : Int) (before : Nat) (db : Database) : Prop :=
  (db.executions.map (·.executionId)).Nodup ∧ match db.executionOf incidentId with
    | none => before = 0
    | some row => row.retryCount + 1 = before

omit [Runtime] [Pydantic] in
theorem nodup_insert {db : Database} {r : Execution}
    (h : (db.executions.map (·.executionId)).Nodup) (hr : db.admits (.insertExecution r) = true) :
    ((db.apply (.insertExecution r)).executions.map (·.executionId)).Nodup := by
  rw [Database.apply, List.map_append]
  refine List.nodup_append.mpr ⟨h, List.nodup_singleton _, ?_⟩
  intro y hy z hz
  rw [List.map_singleton, List.mem_singleton] at hz
  obtain ⟨row, hrow, rfl⟩ := List.mem_map.mp hy
  subst hz
  exact (of_decide_eq_true (List.all_eq_true.mp hr row hrow)).1

omit [Pydantic] in
/-- **A claim** of an execution that is not over counts the attempts before. -/
theorem claim_ends (ha : a.staged = []) (hawaits : a.db.Awaits event.incidentId before) :
    Ends env C (wf.claim event)
      (fun out t => out.2 = none → t.staged = [] ∧
        t.db.Claimed event.incidentId out.1 before ∧
        ∀ row, a.db.executionOf event.incidentId = some row → row.status ≠ .failed)
      (fun _ _ => True) a := by
  obtain ⟨hnodup, hcount⟩ := hawaits
  refine safe_bind.mpr (ends_now fun time _ _ => ends_withSession ?_)
  refine safe_bind.mpr (ends_select ?_ fun _ _ => trivial)
  split
  · trivial
  refine safe_bind.mpr (ends_lockExecution ?_ fun _ _ => trivial)
  cases hrow : a.db.executionOf event.incidentId with
  | none =>
      rw [hrow] at hcount
      dsimp only at hcount ⊢
      refine safe_bind.mpr (ends_issue fun executionId b _ hb => ?_)
      obtain rfl : b = a := hb
      refine safe_bind.mpr (ends_now fun created _ _ => ?_)
      have hclaimed : Ends env C (wf.claimWith event time
          (.insertExecution (wf.newExecution event executionId time created)))
          (fun _ t => t.db.Claimed event.incidentId executionId before) (fun _ _ => True) b := by
        refine claimWith_ends ha fun haccepts => ?_
        have hadmits := haccepts.1
        rw [ha, List.nil_append, Database.admitsAll, Database.admitsAll, Bool.and_true] at hadmits
        refine ⟨nodup_insert hnodup hadmits, wf.newExecution event executionId time created, ?_,
          rfl, hcount.symm⟩
        have hfind : b.db.executions.find? (fun row => row.incidentId = event.incidentId) = none :=
          hrow
        simp [Database.executionOf, Database.apply, hfind, newExecution]
      refine safe_bind.mpr (hclaimed.mono (fun _ t ht => ?_) fun _ _ _ => trivial)
      exact safe_ret.mpr fun _ => ⟨rfl, ht, fun _ hfound => by cases hfound⟩
  | some row =>
      rw [hrow] at hcount
      dsimp only at hcount ⊢
      split
      · exact fun h => by cases h
      rename_i hlive
      split
      · exact fun h => by cases h
      rename_i hopen
      have hclaimed : Ends env C (wf.claimWith event time
          (.updateExecution row (resumedExecution row time)))
          (fun _ t => t.db.Claimed event.incidentId row.executionId before) (fun _ _ => True) a := by
        refine claimWith_ends ha fun haccepts => ?_
        refine ⟨Database.nodup_update hnodup, row.merge (resumedExecution row time) row, ?_, rfl, ?_⟩
        · rw [Database.executionOf_update (by rfl), hrow, Option.map_some, if_pos rfl]
        · exact (put_current row.retryCount (row.retryCount + 1)).trans hcount
      refine safe_bind.mpr (hclaimed.mono (fun _ t ht => ?_) fun _ _ _ => trivial)
      refine safe_ret.mpr fun _ => ⟨rfl, ht, fun found hfound hfailed => ?_⟩
      cases hfound
      exact hopen (by simp [hfailed])

/-! ## The planning does not count -/

/-- Between two transactions of an attempt. -/
def Session.Counting (incidentId : Int) (x : Uuid) (before : Nat) (a : Session) : Prop :=
  a.staged = [] ∧ a.db.Claimed incidentId x before

omit [Runtime] [Pydantic] in
theorem Session.Counting.commits (h : a.Counting event.incidentId x before) {cs : List Change}
    (hcs : ∀ c ∈ cs, c.KeepsCount) : (a.settle cs).Counting event.incidentId x before := by
  refine ⟨rfl, ?_⟩
  rw [Session.settle, h.1]
  exact h.2.applyAll hcs

/-- An answer that a session can get. -/
def Possible (env : Environment) (o : Op) (r : Resp o) : Prop := ∃ a b, Session.Step env o a r b

omit [Runtime] [Pydantic] in
theorem fault_sqlalchemy {e : PyExc} (h : env.Fault e) : e.isA .sqlalchemyError = true := by
  rw [PyExc.isA, h.2]
  decide

omit [Runtime] [Pydantic] in
theorem refused_cls {cs : List Change} {e : PyExc} (h : a.Refuses env cs e) :
    e.cls = .operationalError ∨ e.cls = .dataError ∨ e.cls = .integrityError := by
  rcases h with h | h | h
  · exact .inl h.2
  · exact .inr (.inl h.2)
  · exact .inr (.inr h.2)

/-- What the answers of the platform are, without any further assumption. -/
theorem possible_assumed : Assumes x (Possible env) (fun _ => True) (fun _ => True) False where
  clock t r h := by
    obtain ⟨_, _, h, -⟩ := h
    exact h t rfl
  loaded _ _ := trivial
  context h := h.elim
  corpus h := h.elim
  select _ _ _ := trivial
  commit _ _ _ _ _ := trivial
  selectError q e h := by
    obtain ⟨_, _, h, -⟩ := h
    exact fault_sqlalchemy h
  commitError txn cs e applied h := by
    obtain ⟨a, b, h⟩ := h
    cases applied with
    | true => exact fault_sqlalchemy h.1
    | false =>
        rw [PyExc.isA]
        rcases refused_cls h.1 with h | h | h <;> rw [h] <;> decide
  render _ _ _ _ := trivial
  reply _ _ _ _ _ _ _ := trivial
  exhausted _ _ _ _ _ := trivial
  retrieve _ _ _ _ _ _ := trivial
  own _ _ _ := trivial

omit [Pydantic] in
/-- The routine calls of the planning count nothing. -/
theorem routine_counting {o : Op} (ho : Routine (fun _ => True) o)
    (h : a.Counting event.incidentId x before) {r : Resp o} {b : Session}
    (hs : Session.Step env o a r b) : b.Counting event.incidentId x before := by
  cases o with
  | commit txn cs =>
      have hcs : ∀ c ∈ cs, c.KeepsCount := by
        cases txn
        case setStatus =>
          obtain ⟨l, status, time, -, -, rfl⟩ := ho
          exact fun c hc => List.mem_singleton.mp hc ▸ ⟨rfl, rfl⟩
        case modelMetadata =>
          obtain ⟨l, durationMs, inputChars, outputChars, usage, time, -, rfl⟩ := ho
          exact fun c hc => List.mem_singleton.mp hc ▸ ⟨rfl, rfl⟩
        all_goals exact ho.elim
      rcases r with _ | ⟨e, _ | _⟩
      · exact hs.2 ▸ h.commits hcs
      · exact hs.2 ▸ h
      · exact hs.2.2 ▸ h.commits hcs
  | closeSession => exact (show b = a.close from hs) ▸ ⟨rfl, h.2⟩
  | now => exact hs.2 ▸ h
  | perfCounter since => exact hs.2 ▸ h
  | select query => exact hs.2 ▸ h
  | render template values => exact hs.2 ▸ h
  | retrieve query limit category => exact hs.2 ▸ h
  | chat prompt model => exact (show b = a from hs) ▸ h
  | toolTimedOut => exact (show b = a from hs) ▸ h
  | _ => exact ho.elim

omit [Pydantic] in
/-- Recording a step counts nothing. -/
theorem recordStep_counting (h : a.Counting event.incidentId x before) {stepNumber : Nat}
    {txn : Transaction} {record : AgentStep} {edit : Execution → Timestamp → Execution}
    (hedit : ∀ row time, (edit row time).incidentId = row.incidentId ∧
      (edit row time).retryCount = row.retryCount) :
    Ends env C (recordStep x stepNumber txn record edit)
      (fun _ t => t.Counting event.incidentId x before)
      (fun _ t => t.Counting event.incidentId x before) a := by
  have hclosed : ∀ t : Session, t.db = a.db → t.close.Counting event.incidentId x before :=
    fun t ht => ⟨rfl, (congrArg _ ht).mpr h.2⟩
  refine ends_withSession (safe_bind.mpr (ends_flush (fun _ => ?_) fun _ _ => hclosed _ rfl))
  refine safe_bind.mpr (ends_select ?_ fun _ _ => hclosed _ rfl)
  split
  · exact hclosed _ rfl
  rename_i row _
  refine safe_bind.mpr (ends_now fun time _ _ => ?_)
  have hcommitted : ((a.send [.insertStep record]).settle
      [.updateExecution row (edit row time)]).Counting event.incidentId x before := by
    refine ⟨rfl, ?_⟩
    rw [Session.settle, Session.send, h.1]
    refine h.2.applyAll fun c hc => ?_
    rcases List.mem_pair.mp hc with rfl | rfl
    · trivial
    · exact hedit row time
  refine safe_bind.mpr (ends_commit (fun _ => ?_) (fun _ _ _ => ⟨rfl, hcommitted.2⟩)
    fun _ _ => hclosed _ rfl)
  refine safe_bind.mpr (ends_select ?_ fun _ _ => ⟨rfl, hcommitted.2⟩)
  split <;> exact ⟨rfl, hcommitted.2⟩

omit [Pydantic] in
/-- Recording the final response counts nothing. -/
theorem persistFinal_counting (h : a.Counting event.incidentId x before)
    (decision : PlannerDecision) (final : AgentFinalResponse) (steps : List AgentStep)
    (results : Results) :
    Ends env C (wf.persistFinal x event decision final steps results) (fun _ _ => True)
      (fun _ t => t.Counting event.incidentId x before) a := by
  refine safe_bind.mpr (ends_now fun time _ _ => ?_)
  refine safe_bind.mpr (safe_answer.mpr ⟨fun context _ => ?_, fun _ _ => h⟩)
  have hclosed : a.close.Counting event.incidentId x before := ⟨rfl, h.2⟩
  refine ends_withSession (safe_bind.mpr (ends_select ?_ fun _ _ => hclosed))
  refine safe_bind.mpr (ends_select ?_ fun _ _ => hclosed)
  generalize a.db.eval (.execution x) = execution
  generalize a.db.eval (.resolutionOf event.incidentId) = resolution
  cases execution with
  | none => exact hclosed
  | some execution =>
      cases resolution with
      | none => exact hclosed
      | some resolution =>
          refine ends_commit (fun _ => trivial) (fun _ _ _ => ?_) fun _ _ => hclosed
          refine h.commits fun c hc => ?_
          simp only [List.mem_cons, List.not_mem_nil, or_false] at hc
          rcases hc with rfl | rfl | rfl
          · trivial
          · trivial
          · exact ⟨rfl, rfl⟩

/-- **The planning** ends with the count as the claim left it. -/
theorem planning_ends (h : a.Counting event.incidentId x before) (started : Rat) :
    Ends env (fun _ _ _ => True) (planning wf x event started) (fun _ _ => True)
      (fun _ t => t.Counting event.incidentId x before) a := by
  have hrule : LoopRule (Discipline.solo (fun _ => True) :
      Discipline (System.solo (Session.act env fun _ _ _ => True))) () wf x event (Possible env)
      (fun _ => True) (fun _ => True) False (fun _ t => t.Counting event.incidentId x before)
      (fun _ => True) (fun _ t => t.Counting event.incidentId x before) :=
    { assumes := possible_assumed
      routine := by
        rintro st o ho s _ r t hs rfl - ⟨-, hstep⟩
        exact ⟨⟨trivial, trivial⟩, ⟨_, _, hstep⟩, routine_counting ho hs hstep⟩
      frame := fun _ _ _ _ hs => hs
      raises := fun _ _ _ hs _ => hs
      toolStep := fun _ _ _ _ _ hs _ => recordStep_counting hs fun _ _ => ⟨rfl, rfl⟩
      rejectedStep := fun _ _ _ _ _ hs _ => recordStep_counting hs fun _ _ => ⟨rfl, rfl⟩
      final := fun _ _ _ _ hs _ => persistFinal_counting hs _ _ _ _ }
  have hclosed : a.close.Counting event.incidentId x before := ⟨rfl, h.2⟩
  refine safe_bind.mpr (ends_withSession (ends_select ?_ fun _ _ => hclosed))
  refine safe_bind.mpr (safe_answer.mpr ⟨fun results _ => ?_, fun _ _ => hclosed⟩)
  exact (hrule.loop_of_log started hclosed).mono (fun _ _ _ => trivial) fun _ _ he => he

omit [Pydantic] in
theorem perfCounter_counting (h : a.Counting event.incidentId x before) :
    Ends env C perfCounter (fun _ t => t.Counting event.incidentId x before) (fun _ _ => True) a :=
  ends_issue fun _ _ _ hb => hb.2 ▸ h

/-! ## Recording a failure gives the verdict -/

/-- An attempt is recorded with a verdict: the execution has its status, and counts it. -/
def Database.Recorded (incidentId : Int) (before : Nat) (verdict : Verdict) (db : Database) :
    Prop :=
  (db.executions.map (·.executionId)).Nodup ∧ ∃ row, db.executionOf incidentId = some row ∧
    row.retryCount = before ∧ row.status = verdict.status

/-- The verdict that a failure is recorded with. -/
def recordedVerdict (terminal : Bool) : Verdict := if terminal then .failed else .retryable

omit [Pydantic] in
/-- **Recording a failure**: it is terminal if it is not retryable and the count of the claims
says so. -/
theorem recordFailure_ends (h : a.Counting event.incidentId x before) (exc : PyExc)
    (retryable : Bool) :
    Ends env C (wf.recordFailure x exc retryable)
      (fun terminal t => terminal = (!retryable && decide (wf.limits.modelRetries ≤ before + 1)) ∧
        t.db.Recorded event.incidentId before (recordedVerdict terminal))
      (fun e _ => e.cls ≠ .retryableResolutionError) a := by
  have hrefused : ∀ {b : Session} {cs : List Change} {e : PyExc}, b.Refuses env cs e →
      e.cls ≠ .retryableResolutionError := by
    intro b cs e he hcls
    rcases refused_cls he with h | h | h <;> rw [h] at hcls <;> cases hcls
  have hfault : ∀ e, env.Fault e → e.cls ≠ .retryableResolutionError := by
    intro e he hcls
    rw [he.2] at hcls
    cases hcls
  obtain ⟨hstaged, hclaimed⟩ := h
  obtain ⟨row, hrow, hof, hid, hcount⟩ := hclaimed.execution?
  refine safe_bind.mpr (ends_now fun time _ _ => ends_withSession ?_)
  refine safe_bind.mpr (ends_select ?_ hfault)
  rw [show a.db.eval (.execution x) = some row from hrow]
  dsimp only
  generalize hterminal : (!retryable && decide (wf.limits.modelRetries ≤ row.retryCount + 1)) =
    terminal
  rw [hcount] at hterminal
  refine safe_bind.mpr (ends_flush (fun _ => ?_) fun _ => hrefused)
  have hsent : (a.send [.updateExecution row (failedExecution row terminal exc time)]).staged =
      [.updateExecution row (failedExecution row terminal exc time)] := by
    simp [Session.send, hstaged]
  -- the row was read in the same transaction, so the edited columns are written over it
  have hrecorded : ∀ cs : List Change, (∀ db : Database, (db.applyAll cs).executions =
      db.executions) → ((a.send [.updateExecution row
        (failedExecution row terminal exc time)]).settle cs).db.Recorded event.incidentId before
          (recordedVerdict terminal) := by
    intro cs hcs
    rw [Session.settle, hsent]
    show ((a.db.apply _).applyAll cs).Recorded event.incidentId before (recordedVerdict terminal)
    have hof' : ((a.db.apply (.updateExecution row
        (failedExecution row terminal exc time))).applyAll cs).executionOf event.incidentId =
          some (row.merge (failedExecution row terminal exc time) row) := by
      rw [Database.executionOf, hcs]
      exact (Database.executionOf_update (by rfl) _).trans (by rw [hof, Option.map_some, if_pos rfl])
    refine ⟨?_, _, hof', (put_unedited _ _).trans hcount, ?_⟩
    · rw [hcs]
      exact Database.nodup_update hclaimed.nodup
    · refine (put_current _ _).trans ?_
      cases terminal <;> rfl
  refine safe_bind.mpr (ends_select ?_ hfault)
  split
  · refine safe_bind.mpr (ends_commit (fun _ => ?_) (fun e he _ => hfault e he) fun _ => hrefused)
    exact ⟨hterminal.symm, hrecorded _ fun _ => rfl⟩
  · refine safe_bind.mpr (ends_commit (fun _ => ?_) (fun e he _ => hfault e he) fun _ => hrefused)
    exact ⟨hterminal.symm, hrecorded _ fun _ => rfl⟩

omit [Pydantic] in
/-- **The `except` clauses** record the verdict of the attempt, where they end with one. -/
theorem onFailure_ends (h : a.Counting event.incidentId x before) {exc : PyExc}
    {kind : FailureKind} (hkind : kind.Handles exc) :
    Ends env C (wf.onFailure x exc)
      (fun out t => out = .failed ∧ verdictOf wf.limits.modelRetries before kind = .failed ∧
        t.db.Recorded event.incidentId before .failed)
      (fun e t => e.cls = .retryableResolutionError →
        verdictOf wf.limits.modelRetries before kind = .retryable ∧
          t.db.Recorded event.incidentId before .retryable) a := by
  unfold onFailure
  cases kind with
  | outage =>
      rw [if_pos (show exc.isAny _ = true from hkind)]
      refine safe_bind.mpr ((recordFailure_ends h exc true).mono (fun terminal t ht => ?_)
        fun e _ he hcls => absurd hcls he)
      obtain ⟨hterminal, hrecorded⟩ := ht
      rw [Bool.not_true, Bool.false_and] at hterminal
      subst hterminal
      exact fun _ => ⟨if_neg (fun h => nomatch h.1), hrecorded⟩
  | invalid =>
      rw [if_neg (by simp [hkind.1]), if_pos hkind.2]
      refine safe_bind.mpr ((recordFailure_ends h exc false).mono (fun terminal t ht => ?_)
        fun e _ he hcls => absurd hcls he)
      obtain ⟨hterminal, hrecorded⟩ := ht
      rw [Bool.not_false, Bool.true_and] at hterminal
      cases terminal with
      | true => exact ⟨rfl, if_pos ⟨rfl, of_decide_eq_true hterminal.symm⟩, hrecorded⟩
      | false =>
          exact fun _ => ⟨if_neg fun h => of_decide_eq_false hterminal.symm h.2, hrecorded⟩

/-! ## The verdicts of a history -/

/-- **An attempt**, after so many others: its verdict, and that the one before was not terminal. -/
theorem Attempt.verdict {w : W} {s t : World W} {kind : FailureKind} {verdict : Verdict}
    (h : Attempt env wf event w s kind verdict t)
    (hawaits : s.db.Awaits event.incidentId before) :
    verdict = verdictOf wf.limits.modelRetries before kind ∧
      t.db.Recorded event.incidentId before verdict ∧
      ∀ row, s.db.executionOf event.incidentId = some row → row.status ≠ .failed := by
  obtain ⟨hidle, hclaim, hstart, hraise, hkind, hrecord⟩ := h
  obtain ⟨hstaged, hclaimed, hopen⟩ := (Ends.of_exec hclaim (claim_ends hidle hawaits)).1 _ rfl rfl
  have hstarted := (Ends.of_exec hstart (perfCounter_counting ⟨hstaged, hclaimed⟩)).1 _ rfl
  have hraised := (Ends.of_exec hraise (planning_ends hstarted _)).2 _ rfl
  have hends := Ends.of_exec hrecord (onFailure_ends hraised hkind)
  cases verdict with
  | failed =>
      obtain ⟨-, hverdict, hrecorded⟩ := hends.1 _ rfl
      exact ⟨hverdict.symm, hrecorded, hopen⟩
  | retryable =>
      obtain ⟨hverdict, hrecorded⟩ := hends.2 _ rfl rfl
      exact ⟨hverdict.symm, hrecorded, hopen⟩

/-- What a history of attempts leaves: nothing yet, or the record of the last one. -/
inductive Delivered (incidentId : Int) : List (FailureKind × Verdict) → Database → Prop
  | none {db : Database} (execution : db.executionOf incidentId = Option.none)
      (nodup : (db.executions.map (·.executionId)).Nodup) : Delivered incidentId [] db
  | attempt {h : List (FailureKind × Verdict)} {kind : FailureKind} {verdict : Verdict}
      {db : Database} (recorded : db.Recorded incidentId h.length verdict) :
      Delivered incidentId (h ++ [(kind, verdict)]) db

omit [Runtime] [Pydantic] in
theorem Delivered.awaits {h : List (FailureKind × Verdict)} {db : Database} {incidentId : Int}
    (hd : Delivered incidentId h db) : db.Awaits incidentId h.length := by
  cases hd with
  | none execution nodup => exact ⟨nodup, by rw [execution]; rfl⟩
  | attempt recorded =>
      obtain ⟨hnodup, row, hrow, hcount, -⟩ := recorded
      refine ⟨hnodup, ?_⟩
      rw [hrow]
      simp [hcount]

omit [Runtime] [Pydantic] [DecidableEq W] in
theorem Delivered.elsewhere {h : List (FailureKind × Verdict)} {s t : World W} {incidentId : Int}
    (hd : Delivered incidentId h s.db) (ho : Elsewhere incidentId s t) :
    Delivered incidentId h t.db := by
  cases hd with
  | none execution nodup => exact .none (ho.execution.trans execution) (ho.nodup nodup)
  | attempt recorded =>
      obtain ⟨hnodup, row, hrow, hrest⟩ := recorded
      exact .attempt ⟨ho.nodup hnodup, row, ho.execution.trans hrow, hrest⟩

/-- The verdicts of a history, of which only the last can be terminal. -/
structure Counted (modelRetries : Nat) (h : List (FailureKind × Verdict)) : Prop where
  verdicts : h.map (·.2) = (h.map (·.1)).mapIdx (verdictOf modelRetries)
  last : ∀ p ∈ h.dropLast, p.2 = .retryable

/-- **Every history** of deliveries is counted. -/
theorem Deliveries.counted {s t : World W} {h : List (FailureKind × Verdict)}
    (hd : Deliveries env wf event s h t) (hs : Undelivered event.incidentId s) :
    Counted wf.limits.modelRetries h ∧ Delivered event.incidentId h t.db := by
  induction hd with
  | none => exact ⟨⟨rfl, nofun⟩, .none hs.execution hs.nodup⟩
  | elsewhere _ ho ih => exact ⟨ih.1, ih.2.elsewhere ho⟩
  | @attempt h t u w kind verdict _ ha ih =>
      obtain ⟨hcounted, hdelivered⟩ := ih
      obtain ⟨hverdict, hrecorded, hopen⟩ := ha.verdict hdelivered.awaits
      refine ⟨⟨?_, ?_⟩, .attempt hrecorded⟩
      · rw [List.map_append, List.map_append, List.mapIdx_append, ← hcounted.verdicts]
        simp [hverdict]
      · rw [List.dropLast_concat]
        intro p hp
        -- the attempt before did not end the execution, or this one would not have claimed it
        cases hdelivered with
        | none => cases hp
        | @attempt h' kind' verdict' _ recorded =>
            obtain ⟨-, row, hrow, -, hstatus⟩ := recorded
            rcases List.mem_append.mp hp with hp | hp
            · exact hcounted.last p (by rw [List.dropLast_concat]; exact hp)
            · rw [List.mem_singleton.mp hp]
              cases verdict' with
              | retryable => rfl
              | failed => exact absurd hstatus (hopen row hrow)

omit [Runtime] [Pydantic] in
/-- The verdict of an attempt at its position. -/
theorem Counted.verdict {modelRetries : Nat} {h : List (FailureKind × Verdict)}
    (hc : Counted modelRetries h) (n : Nat) :
    h[n]?.map (·.2) = h[n]?.map fun p => verdictOf modelRetries n p.1 := by
  have := congrArg (fun l => l[n]?) hc.verdicts
  simpa [Function.comp_def] using this

/-- **Every recorded failure counts.**  In every history of deliveries of one event, each of which
claims it, ends in an outage or in a validation failure and records that, the verdict of an attempt
is that of its own kind and its position, outages included; only the last is terminal, and the
execution has its status.
So without one of the outages every attempt before it keeps its verdict, every retryable one
after it too, and a terminal one stays terminal as long as it is not moved below
`model_retries`. -/
theorem deliveries_count {s t : World W} {h : List (FailureKind × Verdict)}
    (hs : Undelivered event.incidentId s) (hd : Deliveries env wf event s h t) :
    (∀ n kind verdict, h[n]? = some (kind, verdict) →
      verdict = verdictOf wf.limits.modelRetries n kind ∧
        (verdict = .failed → n + 1 = h.length) ∧
        (n + 1 = h.length → ∃ row, t.db.executionOf event.incidentId = some row ∧
          row.status = verdict.status)) ∧
    ∀ {s' t' : World W} {h' : List (FailureKind × Verdict)} {j : Nat},
      Undelivered event.incidentId s' → Deliveries env wf event s' h' t' →
      h[j]?.map (·.1) = some .outage → h'.map (·.1) = (h.map (·.1)).eraseIdx j →
      (∀ n < j, h'[n]? = h[n]?) ∧
      ∀ n kind verdict, j < n → h[n]? = some (kind, verdict) →
        ∃ verdict', h'[n - 1]? = some (kind, verdict') ∧
          (verdict = .retryable → verdict' = .retryable) ∧
          (verdict = .failed → (verdict' = .failed ↔ wf.limits.modelRetries ≤ n)) := by
  obtain ⟨hcounted, hdelivered⟩ := hd.counted hs
  have hverdict : ∀ {n kind verdict}, h[n]? = some (kind, verdict) →
      verdict = verdictOf wf.limits.modelRetries n kind := by
    intro n kind verdict hn
    have hv := hcounted.verdict n
    rw [hn] at hv
    exact Option.some.inj hv
  refine ⟨fun n kind verdict hn => ⟨hverdict hn, ?_, ?_⟩, ?_⟩
  · intro hfailed
    -- a terminal verdict before the last one is excluded
    by_contra hne
    have hlt : n + 1 < h.length := by
      have := (List.getElem?_eq_some_iff.mp hn).1
      omega
    have hmem : (kind, verdict) ∈ h.dropLast := by
      refine List.mem_of_getElem? (i := n) ?_
      rw [List.getElem?_dropLast, if_pos (by omega), hn]
    exact nomatch (hcounted.last _ hmem).symm.trans hfailed
  · intro hlast
    cases hdelivered with
    | none => cases hn
    | @attempt h' kind' verdict' _ recorded =>
        obtain ⟨-, row, hrow, -, hstatus⟩ := recorded
        rw [List.length_append, List.length_singleton, Nat.add_right_cancel_iff] at hlast
        rw [hlast, List.getElem?_concat_length] at hn
        cases hn
        exact ⟨row, hrow, hstatus⟩
  · intro s' t' h' j hs' hd' hj hkinds
    obtain ⟨hcounted', -⟩ := hd'.counted hs'
    have hkind : ∀ n, h'[n]?.map (·.1) = if n < j then h[n]?.map (·.1) else h[n + 1]?.map (·.1) := by
      intro n
      have hn := congrArg (fun l => l[n]?) hkinds
      simpa [List.getElem?_eraseIdx] using hn
    have hread : ∀ {n kind}, h'[n]?.map (·.1) = some kind →
        h'[n]? = some (kind, verdictOf wf.limits.modelRetries n kind) := by
      intro n kind hn
      obtain ⟨⟨kind', verdict'⟩, hp, rfl⟩ := Option.map_eq_some_iff.mp hn
      have hv := hcounted'.verdict n
      rw [hp] at hv ⊢
      rw [show verdict' = _ from Option.some.inj hv]
    refine ⟨fun n hn => ?_, fun n kind verdict hn hp => ?_⟩
    · have hk := hkind n
      rw [if_pos hn] at hk
      cases hp : h[n]? with
      | none => simpa [hp] using hk
      | some p =>
          obtain ⟨kind, verdict⟩ := p
          rw [hp] at hk
          rw [hread hk, hverdict hp]
    · have hk := hkind (n - 1)
      rw [if_neg (by omega), Nat.sub_add_cancel (by omega), hp] at hk
      refine ⟨_, hread hk, ?_, ?_⟩
      · rw [hverdict hp]
        simp only [verdictOf]
        intro hretryable
        split at hretryable
        · cases hretryable
        · rename_i hkept
          exact if_neg fun hterminal => hkept ⟨hterminal.1, by omega⟩
      · rw [hverdict hp]
        simp only [verdictOf]
        intro hfailed
        split at hfailed
        · rename_i hterminal
          rw [Nat.sub_add_cancel (by omega)]
          by_cases hr : wf.limits.modelRetries ≤ n <;> simp [hterminal.1, hr]
        · cases hfailed

end

/-! ## An outage uses up a retry -/

instance (kind : FailureKind) (exc : PyExc) : Decidable (kind.Handles exc) :=
  match kind with
  | .outage => inferInstanceAs (Decidable (_ = true))
  | .invalid => inferInstanceAs (Decidable (_ = false ∧ _ = true))

/-- Whether the two outcomes are the same. -/
def sameOutcome : Except PyExc ResolutionWorkflowOutcome →
    Except PyExc ResolutionWorkflowOutcome → Bool
  | .ok a, .ok b => a = b
  | .error e, .error e' => e = e'
  | _, _ => false

theorem sameOutcome_eq {a b : Except PyExc ResolutionWorkflowOutcome}
    (h : sameOutcome a b = true) : a = b := by
  cases a <;> cases b <;> simp_all [sameOutcome]

/-- The platform without faults as it is run. -/
abbrev calmly : Runnable Resp Bool (World Bool) := runnable Environment.calm fun _ _ _ _ => True

theorem alone_of_run {α : Type} {answer : (o : Op) → World Bool → Resp o} {p : Py α}
    {s t : World Bool} {out : Except PyExc α} (h : calmly.run true answer p s = some (out, t)) :
    Exec (alone Environment.calm true) p s out t :=
  (Runnable.exec_of_run h).simulate (f := id) fun _ _ _ _ hact =>
    ⟨(of_decide_eq_true hact.1).2, hact.2⟩

/-- One attempt, evaluated. -/
def runAttempt (answer : (o : Op) → World Bool → Resp o) (kind : FailureKind) (verdict : Verdict)
    (s : World Bool) : Option (World Bool) :=
  match calmly.run true answer (plainWorkflow.claim timeoutEvent) s with
  | some (.ok (x, none), s₁) =>
      match calmly.run true answer perfCounter s₁ with
      | some (.ok started, s₂) =>
          match calmly.run true answer (planning plainWorkflow x timeoutEvent started) s₂ with
          | some (.error exc, s₃) =>
              match calmly.run true answer (plainWorkflow.onFailure x exc) s₃ with
              | some (out, s₄) =>
                  if s.staged true = [] ∧ kind.Handles exc ∧
                    sameOutcome out (verdict.outcome exc) = true then some s₄ else none
              | none => none
          | _ => none
      | _ => none
  | _ => none

theorem attempt_of_run {answer : (o : Op) → World Bool → Resp o} {kind : FailureKind}
    {verdict : Verdict} {s t : World Bool} (h : runAttempt answer kind verdict s = some t) :
    Attempt Environment.calm plainWorkflow timeoutEvent true s kind verdict t := by
  unfold runAttempt at h
  split at h
  · rename_i x s₁ hclaim
    split at h
    · rename_i started s₂ hstart
      split at h
      · rename_i exc s₃ hraise
        split at h
        · rename_i out s₄ hrecord
          split at h
          · rename_i hends
            obtain ⟨hidle, hkind, hout⟩ := hends
            cases h
            rw [sameOutcome_eq hout] at hrecord
            exact .mk hidle (alone_of_run hclaim) (alone_of_run hstart) (alone_of_run hraise)
              hkind (alone_of_run hrecord)
          · cases h
        · cases h
      · cases h
    · cases h
  · cases h

/-- The answers while the model server is unreachable, or refuses every request. -/
def modelAnswers (reply : ChatReply) : (o : Op) → World Bool → Resp o
  | .chat _ _, _ => reply
  | o, s => plainAnswer true o s

theorem undelivered_start : Undelivered 1 (incidentWithLog []) := ⟨rfl, List.nodup_nil⟩

theorem invalid_delivery : ∃ t, Deliveries Environment.calm plainWorkflow timeoutEvent
    (incidentWithLog []) [(.invalid, .retryable)] t := by
  have h : (runAttempt (modelAnswers (.status 400 [])) .invalid .retryable
      (incidentWithLog [])).isSome = true := by decide +kernel
  obtain ⟨t, ht⟩ := Option.isSome_iff_exists.mp h
  exact ⟨t, Deliveries.none.attempt (attempt_of_run ht)⟩

theorem outage_delivery : ∃ t, Deliveries Environment.calm plainWorkflow timeoutEvent
    (incidentWithLog []) [(.outage, .retryable), (.invalid, .failed)] t := by
  have h : ((runAttempt (modelAnswers (.unreachable [])) .outage .retryable
      (incidentWithLog [])).bind (runAttempt (modelAnswers (.status 400 [])) .invalid
        .failed)).isSome = true := by decide +kernel
  obtain ⟨u, hu⟩ := Option.isSome_iff_exists.mp h
  obtain ⟨t, ht, hu⟩ := Option.bind_eq_some_iff.mp hu
  exact ⟨u, (Deliveries.none.attempt (attempt_of_run ht)).attempt (attempt_of_run hu)⟩

/-- An outage and a validation failure: the second delivery is the last one. -/
theorem deliveries_count_outage : ∃ t, Deliveries Environment.calm plainWorkflow timeoutEvent
    (incidentWithLog []) [(.outage, .retryable), (.invalid, .failed)] t ∧
      ∃ row, t.db.executionOf 1 = some row ∧ row.status = .failed := by
  obtain ⟨t, ht⟩ := outage_delivery
  exact ⟨t, ht, ((deliveries_count undelivered_start ht).1 1 .invalid .failed rfl).2.2 rfl⟩

/-- Without the outage before it the same validation failure is retryable. -/
theorem outage_uses_up_a_retry : ∃ (s t t' : World Bool) (h h' : List (FailureKind × Verdict))
    (j : Nat), Undelivered 1 s ∧
      Deliveries Environment.calm plainWorkflow timeoutEvent s h t ∧
      Deliveries Environment.calm plainWorkflow timeoutEvent s h' t' ∧
      h[j]?.map (·.1) = some .outage ∧ h'.map (·.1) = (h.map (·.1)).eraseIdx j ∧
      h' ≠ h.eraseIdx j := by
  obtain ⟨t, ht⟩ := outage_delivery
  obtain ⟨t', ht'⟩ := invalid_delivery
  exact ⟨_, t, t', _, _, 0, undelivered_start, ht, ht', rfl, rfl, by decide⟩

end SupportPlatform

