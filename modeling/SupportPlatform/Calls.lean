import SupportPlatform.World

/-! # Calls as the code writes them

One function for each kind of call, raising what the call raises, and the two
constructs that the code wraps around calls: `with session_factory() as session`, which
rolls back what is left uncommitted, and `try` with a list of exception classes.
-/
namespace SupportPlatform
open Program

/-- Issue a call. -/
abbrev issue (o : Op) : Py (Resp o) := ask o

/-- `with session_factory() as session`. -/
def withSession {α : Type} (body : Py α) : Py α := body.andFinally (issue .closeSession)

/-- `try` with one `except (classes) as exc` clause. -/
def tryExcept {α : Type} (p : Py α) (classes : List ExcClass) (handler : PyExc → Py α) : Py α :=
  p.tryCatch fun e => if e.isAny classes then handler e else raise e

/-- `try: ... except Exception`. -/
def tryException {α : Type} (p : Py α) (handler : PyExc → Py α) : Py α := p.tryCatch handler

/-- `if condition: raise e`. -/
def raiseIf (condition : Prop) [Decidable condition] (e : PyExc) : Py Unit :=
  if condition then throw e else return

/-- Whether a report lets the program go on. -/
def CommitReport.result : CommitReport → Except PyExc Unit
  | .committed => .ok ()
  | .failed e _ => .error e

/-- `datetime.now(UTC)`. -/
def now : Py Timestamp := issue .now

/-- `time.perf_counter()`. -/
def perfCounter : Py Rat := issue (.perfCounter none)

/-- `time.perf_counter() - started`. -/
def perfCounterSince (started : Rat) : Py Rat :=
  (fun time : Rat => time - started) <$> issue (.perfCounter (some started))

/-- `stop.is_set()`. -/
def stopRequested : Py Bool := issue .stopRequested

/-- Whether the wait for a tool runs into its timeout. -/
def toolTimedOut : Py Bool := issue .toolTimedOut

/-- `session.add(...)` and edits, then `session.commit()`. -/
def commit (txn : Transaction) (cs : List Change) : Py Unit := do
  answer (← issue (.commit txn cs)).result

/-- The changes sent by an autoflush before the next statement. -/
def flush (cs : List Change) : Py Unit := do
  answer (← issue (.flush cs))

/-- A SELECT of the session. -/
def select (query : Query) : Py query.Result := do
  answer (← issue (.select query))

/-- `session.get(ProcessedEventRecord, event_id)`. -/
def getProcessed (eventId : Uuid) : Py (Option ProcessedEvent) := select (.processed eventId)

/-- `session.get(IncidentRecord, id)`. -/
def getIncident (id : Int) : Py (Option Incident) := select (.incident id)

/-- The execution with a given identifier. -/
def getExecution (executionId : Uuid) : Py (Option Execution) := select (.execution executionId)

/-- The execution of an incident. -/
def executionOf (incidentId : Int) : Py (Option Execution) := select (.executionOf incidentId)

/-- The execution of an incident, `with_for_update()`. -/
def lockExecution (incidentId : Int) : Py (Option Execution) := do
  answer (← issue (.lockExecution incidentId))

/-- The steps of an execution in order. -/
def loadStepRows (executionId : Uuid) : Py (List AgentStep) := select (.steps executionId)

/-- The resolution of an incident. -/
def getResolution (incidentId : Int) : Py (Option Resolution) := select (.resolutionOf incidentId)

/-! ## Conformance -/

section
variable {α : Type} {A : Op → Prop} {B : (o : Op) → Resp o → Prop} {Q : α → Prop}
  {X : PyExc → Prop}

theorem withSession_conforms {body : Py α} (hclose : A .closeSession)
    (h : body.Conforms A B Q X) : (withSession body).Conforms A B Q X :=
  h.andFinally ⟨hclose, fun _ _ => trivial⟩

theorem tryExcept_conforms {p : Py α} {classes : List ExcClass} {handler : PyExc → Py α}
    {Y : PyExc → Prop} (hp : p.Conforms A B Q Y)
    (hh : ∀ e, Y e → e.isAny classes = true → (handler e).Conforms A B Q X)
    (hX : ∀ e, Y e → e.isAny classes = false → X e) :
    (tryExcept p classes handler).Conforms A B Q X := by
  refine hp.tryCatch fun e he => ?_
  cases hc : e.isAny classes with
  | true => simpa [hc] using hh e he hc
  | false => simpa [hc] using hX e he hc

theorem raiseIf_conforms {condition : Prop} [Decidable condition] {e : PyExc}
    (h : condition → X e) :
    (raiseIf condition e).Conforms A B (fun _ => ¬ condition) X := by
  unfold raiseIf
  split
  · rename_i hc
    exact h hc
  · rename_i hc
    exact hc

theorem select_conforms {query : Query} {Q : query.Result → Prop} (hA : A (.select query))
    (hX : ∀ e, B (.select query) (.error e) → X e)
    (hQ : ∀ rows, B (.select query) (.ok rows) → Q rows) :
    (select query).Conforms A B Q X := by
  refine ⟨hA, fun r hr => ?_⟩
  cases r with
  | ok rows => exact hQ rows hr
  | error e => exact hX e hr

theorem commit_conforms {txn : Transaction} {cs : List Change} (hA : A (.commit txn cs))
    (hX : ∀ e applied, B (.commit txn cs) (.failed e applied) → X e) :
    (commit txn cs).Conforms A B (fun _ => True) X := by
  refine ⟨hA, fun r hr => ?_⟩
  cases r with
  | committed => trivial
  | failed e applied => exact hX e applied hr

theorem issue_conforms {o : Op} {Q : Resp o → Prop} (hA : A o) (hQ : ∀ r, B o r → Q r) :
    (issue o).Conforms A B Q X := ⟨hA, hQ⟩

end

end SupportPlatform
