import SupportPlatform.StepWriters
import SupportPlatform.RetryBudget

/-! # Step and tool budgets

The budgets of an execution hold of its log, however many workers run it at once.  A worker
compares the limits with what it has in memory; its step is in the log only if its memory was
the whole log, so the limits hold of the log as well.
-/
namespace SupportPlatform
open Program ControlledAgentWorkflow

section
variable [Runtime] [Pydantic] {W : Type} [DecidableEq W]

/-- **The law of the budgets**: the log is within the limits, and the worker's count of its tool
calls is that of its log. -/
def budgetLaw (limits : AgentLimits) : LogLaw where
  Allows wf := wf.limits = limits
  grounded := False
  Good _ steps := steps.length ≤ limits.maxSteps ∧ succeededSteps steps ≤ limits.maxToolCalls
  Holds _ st := st.toolCalls = succeededSteps st.steps ∧
    succeededSteps st.steps ≤ limits.maxToolCalls
  nil _ := ⟨Nat.zero_le _, Nat.zero_le _⟩
  restored _ _ _ hgood _ := ⟨rfl, hgood.2⟩
  frame _ _ _ _ h := h
  tool wf event x st decision request result hlimits hholds hcall := by
    have hroom := hcall.room
    have hbudget := hcall.executed.budget
    rw [hlimits] at hroom hbudget
    rw [hholds.1] at hbudget
    have hlen : (st.steps ++
        [toolStepRecord x (st.steps.length + 1) decision request result]).length =
          st.steps.length + 1 := List.length_append
    have hcount := succeededSteps_concat st.steps
      (toolStepRecord x (st.steps.length + 1) decision request result)
    rw [toolStepRecord_calls] at hcount
    refine ⟨⟨by omega, by omega⟩, ?_, ?_⟩
    · show st.toolCalls + 1 = succeededSteps (st.steps ++ _)
      omega
    · show succeededSteps (st.steps ++ _) ≤ _
      omega
  rejected wf i x st decision request outcome hlimits hholds hr := by
    have hroom := hr.room
    rw [hlimits] at hroom
    have hlen : (st.steps ++
        [rejectedStepRecord x (st.steps.length + 1) decision request outcome]).length =
          st.steps.length + 1 := List.length_append
    have hcount := succeededSteps_concat st.steps
      (rejectedStepRecord x (st.steps.length + 1) decision request outcome)
    rw [rejectedStepRecord_calls _ _ _ _ hr.outcome.1, Nat.add_zero] at hcount
    refine ⟨⟨by omega, hcount ▸ hholds.2⟩, ?_, ?_⟩
    · exact hholds.1.trans hcount.symm
    · exact hcount ▸ hholds.2
  final wf i x st decision final hlimits hholds hcall := by
    have hroom := hcall.room
    rw [hlimits] at hroom
    have hlen : (st.steps ++ [finalStepRecord x (st.steps.length + 1) decision final
        (evidenceReferences st.results)]).length = st.steps.length + 1 := List.length_append
    have hcount := succeededSteps_concat st.steps
      (finalStepRecord x (st.steps.length + 1) decision final (evidenceReferences st.results))
    rw [finalStepRecord_calls, Nat.add_zero] at hcount
    exact ⟨by omega, hcount ▸ hholds.2⟩
  context _ _ _ h := h.elim

/-- **The step log is linear, and its counters and budgets are exact.**  For any number of
workers with the same limits, each resolving an event of its own or of others (a redelivery is
one more worker), in every interleaving of their calls and with crashes anywhere: in every
reachable state the log of an execution, as it is loaded, is numbered from one without a gap,
the execution counts its steps and its succeeded steps, and both are within the limits. -/
theorem step_log_exact {env : Environment} {limits : AgentLimits}
    {wfs : W → ControlledAgentWorkflow} {events : W → IncidentCreatedEvent}
    (hwfs : ∀ w, (wfs w).limits = limits) {s : World W} (hs : LogStart s)
    {p : Pool Resp PyExc ResolutionWorkflowOutcome W (World W)}
    (hp : Pool.Reachable (platform env) (fun w => (wfs w).resolve (events w)) s p)
    {x : Uuid} {row : Execution} (hrow : p.world.db.execution? x = some row) :
    let log := p.world.db.loadSteps x
    log.map (·.stepNumber) = List.range' 1 log.length ∧
      row.stepCount = log.length ∧ log.length ≤ limits.maxSteps ∧
      row.toolCallCount = (log.filter fun step => step.outcome = .succeeded).length ∧
      row.toolCallCount ≤ limits.maxToolCalls := by
  have h : LogState (budgetLaw limits) p.world := reachable_logged hwfs False.elim hs hp
  have hlog : p.world.db.loadSteps x = p.world.db.stepsOf x := h.inv.steps.loadSteps x
  obtain ⟨hsteps, hcalls⟩ := h.inv.steps.counted x row hrow
  obtain ⟨hroom, hbudget⟩ := h.inv.steps.good x row hrow
  intro log
  rw [show log = p.world.db.stepsOf x from hlog]
  exact ⟨h.inv.steps.numbered x, hsteps, hroom, hcalls, hcalls ▸ hbudget⟩

end

/-! ## A run -/

/-- A reply of the model server with a message. -/
def chatReply (content : Text) : ChatReply :=
  .body (some (.obj [("message", .obj [("content", .str content)])]))

/-- A text in short pieces, since the kernel takes a literal apart in quadratic time. -/
def Text.pieces (parts : List String) : Text := (parts.map String.toList).flatten

/-- A decision for `get_incident`. -/
def incidentDecision : Text :=
  Text.pieces ["\x7b\"goal\":", "\"Load it.\",", "\"next_action\":", "\"tool\",\"tool_name\":",
    "\"get_incident\",", "\"tool_arguments\":", "\x7b\"incident_id\":",
    "1\x7d,\"reason_summary\":", "\"Evidence.\",", "\"expected_evidence\":",
    "\"The incident.\"\x7d"]

/-- A decision for `retrieve_runbooks`. -/
def runbooksDecision : Text :=
  Text.pieces ["\x7b\"goal\":", "\"Find it.\",", "\"next_action\":", "\"tool\",\"tool_name\":",
    "\"retrieve_runbooks\",", "\"tool_arguments\":", "\x7b\"query\":", "\"timeout\"\x7d,",
    "\"reason_summary\":", "\"Evidence.\",", "\"expected_evidence\":", "\"A runbook.\"\x7d"]

/-- The answers in a conversation: the required tools are called, and then the planner and the
resolver say what they are given. -/
def conversation (planner resolver : Text) (w : Bool) : (o : Op) → World Bool → Resp o
  | .chat _ .requiredIncidentDecision, _ => chatReply incidentDecision
  | .chat _ .requiredRetrievalDecision, _ => chatReply runbooksDecision
  | .chat _ .plannerDecision, _ => chatReply planner
  | .chat _ .agentFinalResponse, _ => chatReply resolver
  | o, s => plainAnswer w o s

theorem conversation_plain (planner resolver : Text) (w : Bool) (n : Nat) :
    (Turn.calls w n (conversation planner resolver w)).Plain := by
  intro o s h
  cases o with
  | chat _ _ => cases h
  | _ => rfl

/-- A worker crashes after its first step, and another one makes the second. -/
theorem step_log_exact_resumed :
    ∃ (p : Pool Resp PyExc ResolutionWorkflowOutcome Bool (World Bool)) (x : Uuid) (row : Execution),
      Pool.Reachable (platform Environment.calm) (fun _ => plainWorkflow.resolve timeoutEvent)
        (incidentWithLog []) p ∧
      p.world.db.execution? x = some row ∧ row.stepCount = 2 ∧ row.retryCount = 1 ∧
      (p.world.db.loadSteps x).map (·.stepNumber) = [1, 2] := by
  have hplain := conversation_plain [] []
  obtain ⟨p, hp, hP⟩ := exists_routine_run Environment.calm
    (fun _ => plainWorkflow.resolve timeoutEvent)
    (incidentWithLog []) (fun p => (p.world.db.execution? 0).any fun row =>
      row.stepCount = 2 && row.retryCount = 1)
    [.calls true 50 (conversation [] [] true), .crash true,
      .calls false 50 (conversation [] [] false)]
    (by simp [hplain]) (by decide +kernel)
  obtain ⟨row, hrow, hcounts⟩ := (Option.any_eq_true _ _).mp hP
  rw [Bool.and_eq_true, decide_eq_true_eq, decide_eq_true_eq] at hcounts
  have hstart : LogStart (incidentWithLog []) := ⟨rfl, rfl, rfl, fun _ => rfl⟩
  obtain ⟨hnumbers, hcount, -⟩ := step_log_exact
    (fun _ => rfl) hstart hp hrow
  rw [← hcount, hcounts.1] at hnumbers
  exact ⟨p, 0, row, hp, hrow, hcounts.1, hcounts.2, hnumbers⟩

end SupportPlatform
