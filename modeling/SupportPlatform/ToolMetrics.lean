import SupportPlatform.AgentTools
import SupportPlatform.Metering
import SupportPlatform.ReferenceCodec
import SupportPlatform.Replay

/-! # The labels of the tool metrics

`app/observability/metrics.py`, and what `ToolExecutor.execute` records around a call.  The
policy of the metrics says which labels a metric may have, and leaves the values to the code that
records them.  The executor records the name that was requested, found or not, so the labels come
from the registry as long as the requested names do (`labels_fixed_iff`), and from the planner's
text otherwise.
-/
namespace SupportPlatform
open Program

/-! ## Metrics -/

/-- Attributes of a measurement: names and values. -/
abbrev MetricAttributes := Dict Text Json

/-- `METRIC_LABEL_POLICY`. -/
def metricLabelPolicy : Dict Text (List Text) :=
  List.map (fun e : String × List String => (e.1.toList, e.2.map String.toList))
  [("service_health", []), ("api_requests", ["method", "route", "status_code"]),
    ("api_request_duration_seconds", ["method", "route", "status_code"]),
    ("incidents_created", ["classification", "severity"]), ("outbox_pending", []),
    ("outbox_publish", ["event_type", "outcome"]), ("outbox_publish_failures", ["event_type"]),
    ("outbox_retry", ["event_type"]),
    ("outbox_publish_duration_seconds", ["event_type", "outcome"]),
    ("kafka_events_published", ["topic", "event_type"]),
    ("kafka_publish_failures", ["topic", "event_type"]),
    ("kafka_events_consumed", ["topic", "event_type"]),
    ("kafka_events_processed", ["event_type", "outcome"]), ("kafka_duplicates", ["event_type"]),
    ("kafka_malformed", []), ("kafka_processing_failures", ["event_type", "retryable"]),
    ("kafka_processing_duration_seconds", ["event_type", "outcome"]),
    ("kafka_offset_commit", ["topic", "outcome"]),
    ("agent_executions", ["status", "classification"]),
    ("agent_execution_failures", ["status", "classification"]),
    ("agent_execution_retries", ["classification"]),
    ("agent_planner_fallbacks", ["classification"]),
    ("agent_execution_duration_seconds", ["status", "classification"]),
    ("agent_steps", ["action_type", "outcome"]), ("agent_tool_calls", ["tool_name", "status"]),
    ("agent_tool_failures", ["tool_name"]),
    ("agent_tool_duration_seconds", ["tool_name", "status"]),
    ("agent_model_calls", ["provider", "model", "operation", "prompt_name", "prompt_version"]),
    ("agent_model_failures", ["provider", "model", "operation"]),
    ("agent_model_duration_seconds", ["provider", "model", "operation"]),
    ("agent_retrieved_chunks", ["classification"]), ("agent_review_approved", []),
    ("agent_review_rejected", []), ("rag_retrieval", ["classification", "outcome"]),
    ("rag_retrieval_failures", ["classification"]),
    ("rag_retrieval_duration_seconds", ["classification", "outcome"]),
    ("rag_chunks_returned", ["classification"]), ("rag_empty_retrieval", ["classification"]),
    ("rag_invalid_citation", ["classification"]),
    ("llm_requests", ["provider", "model", "operation", "status"]),
    ("llm_failures", ["provider", "model", "operation"]),
    ("llm_request_duration_seconds", ["provider", "model", "operation", "status"]),
    ("llm_prompt_tokens", ["provider", "model", "operation"]),
    ("llm_completion_tokens", ["provider", "model", "operation"]),
    ("review_feedback", ["outcome"]), ("review_approved", []), ("review_rejected", []),
    ("review_conflicts", ["outcome"]),
    ("database_operations", ["db_system", "operation", "outcome"]),
    ("database_failures", ["db_system", "operation"]),
    ("database_operation_duration_seconds", ["db_system", "operation", "outcome"])]

/-- `_COUNTERS`. -/
def metricCounters : List Text :=
  ["api_requests", "incidents_created", "outbox_publish", "outbox_publish_failures",
    "outbox_retry", "kafka_events_published", "kafka_publish_failures", "kafka_events_consumed",
    "kafka_events_processed", "kafka_duplicates", "kafka_malformed", "kafka_processing_failures",
    "kafka_offset_commit", "agent_executions", "agent_execution_failures",
    "agent_execution_retries", "agent_planner_fallbacks", "agent_steps", "agent_tool_calls",
    "agent_tool_failures", "agent_model_calls", "agent_model_failures", "agent_retrieved_chunks",
    "agent_review_approved", "agent_review_rejected", "rag_retrieval", "rag_retrieval_failures",
    "rag_empty_retrieval", "rag_invalid_citation", "llm_requests", "llm_failures",
    "llm_prompt_tokens", "llm_completion_tokens", "review_feedback", "review_approved",
    "review_rejected", "review_conflicts", "database_operations", "database_failures"]

/-- `_HISTOGRAMS`. -/
def metricHistograms : List Text :=
  ["api_request_duration_seconds", "outbox_publish_duration_seconds",
    "kafka_processing_duration_seconds", "agent_execution_duration_seconds",
    "agent_tool_duration_seconds", "agent_model_duration_seconds",
    "rag_retrieval_duration_seconds", "rag_chunks_returned", "llm_request_duration_seconds",
    "database_operation_duration_seconds"]

/-- A value that an exporter takes, cut off if it is a text. -/
def metricValue : Json → Option Json
  | .str s => some (.str (s.take 120))
  | .int i => some (.int i)
  | .float f => some (.float f)
  | .bool b => some (.bool b)
  | _ => none

/-- `filter_metric_attributes(metric_name, attributes)`. -/
def filterMetricAttributes (metricName : Text) (attributes : MetricAttributes) : MetricAttributes :=
  let allowed := (metricLabelPolicy.get? metricName).getD []
  attributes.filterMap fun (key, value) =>
    if key ∈ allowed then (metricValue value).map fun value => (key, value) else none

/-- A measurement as it reaches an instrument. -/
structure Measurement where
  metric : Text
  attributes : MetricAttributes

/-- A call of the platform, or of the metrics. -/
inductive MeterOp
  | call (o : Op)
  | count (name : Text) (attributes : MetricAttributes)
  | observe (name : Text) (value : Rat) (attributes : MetricAttributes)

/-- The answers to a call. -/
def MeterOp.Resp : MeterOp → Type
  | .call o => SupportPlatform.Resp o
  | .count _ _ | .observe _ _ _ => Unit

/-- What a call records: the metrics take what a declared instrument is given. -/
def MeterOp.measured : MeterOp → Option Measurement
  | .call _ => none
  | .count name attributes =>
      if name ∈ metricCounters then some ⟨name, filterMetricAttributes name attributes⟩ else none
  | .observe name value attributes =>
      if name ∈ metricHistograms ∧ 0 ≤ value then
        some ⟨name, filterMetricAttributes name attributes⟩
      else none

/-- A program with metrics. -/
abbrev Metric (α : Type) := Program MeterOp.Resp PyExc α

/-- A program that uses no metrics. -/
def unmetered {α : Type} : Py α → Metric α
  | .ret a => .ret a
  | .raise e => .raise e
  | .call o k => .call (.call o) fun r => unmetered (k r)

/-- `get_metrics().count(name, attributes=attributes)`. -/
def countMetric (name : Text) (attributes : MetricAttributes) : Metric Unit :=
  .call (.count name attributes) .ret

/-- `get_metrics().observe(name, value, attributes)`. -/
def observeMetric (name : Text) (value : Rat) (attributes : MetricAttributes) : Metric Unit :=
  .call (.observe name value attributes) .ret

/-- The outcome of a program, as a value. -/
def outcome {α : Type} (p : Metric α) : Metric (Except PyExc α) :=
  Program.tryCatch (p >>= fun a => .ret (.ok a)) fun e => .ret (.error e)

/-! ## The executor -/

section
variable [Runtime] [Pydantic]

namespace ToolExecutor

/-- `execute(request, context, current_tool_calls)` with what it records; `execute` is what it
does apart from that. -/
def executeMetered (maxToolCalls : Nat) (request : ToolRequest) (context : ToolContext)
    (currentToolCalls : Nat) : Metric ToolResult := do
  let started ← unmetered perfCounter
  let result ← outcome (unmetered (execute maxToolCalls request context currentToolCalls))
  let status : Text ← match result with
    | .ok _ => pure "success"
    | .error _ => do
        countMetric "agent_tool_failures" [("tool_name", .str request.toolName.1)]
        pure "failure"
  let attributes : MetricAttributes :=
    [("tool_name", .str request.toolName.1), ("status", .str status)]
  countMetric "agent_tool_calls" attributes
  let elapsed ← unmetered (perfCounterSince started)
  observeMetric "agent_tool_duration_seconds" elapsed attributes
  answer result

end ToolExecutor

/-- A call of the executor. -/
structure ExecutorCall where
  request : ToolRequest
  context : ToolContext
  currentToolCalls : Nat

/-- The calls of the executor in the life of a process, whatever comes of each. -/
def executorCalls (maxToolCalls : Nat) : List ExecutorCall → Metric Unit
  | [] => .ret ()
  | c :: calls => do
      let _ ← outcome (ToolExecutor.executeMetered maxToolCalls c.request c.context
        c.currentToolCalls)
      executorCalls maxToolCalls calls

/-! ## The labels -/

/-- The measurements that the registry and the two values of the status allow. -/
def registryMeasurements : List Measurement :=
  ToolRegistry.tools.flatMap fun tool =>
    ⟨"agent_tool_failures", [("tool_name", .str tool.name)]⟩ ::
      ([("success" : Text), ("failure" : Text)].flatMap fun status =>
        [⟨"agent_tool_calls", [("tool_name", .str tool.name), ("status", .str status)]⟩,
          ⟨"agent_tool_duration_seconds",
            [("tool_name", .str tool.name), ("status", .str status)]⟩])

/-- A call that records nothing that the registry does not allow. -/
def Allowed (o : MeterOp) : Prop := ∀ m ∈ o.measured, m ∈ registryMeasurements

section
omit [Runtime] [Pydantic]

theorem measured_failures (name : Text) :
    (MeterOp.count "agent_tool_failures" [("tool_name", .str name)]).measured =
      some ⟨"agent_tool_failures", [("tool_name", .str (name.take 120))]⟩ := by
  have hcounter : ("agent_tool_failures" : Text) ∈ metricCounters := by decide
  have hpolicy : metricLabelPolicy.get? "agent_tool_failures" = some [("tool_name" : Text)] := by decide
  rw [MeterOp.measured, if_pos hcounter, filterMetricAttributes, hpolicy]
  rfl

theorem measured_calls (name status : Text) :
    (MeterOp.count "agent_tool_calls"
      [("tool_name", .str name), ("status", .str status)]).measured = some ⟨"agent_tool_calls",
        [("tool_name", .str (name.take 120)), ("status", .str (status.take 120))]⟩ := by
  have hcounter : ("agent_tool_calls" : Text) ∈ metricCounters := by decide
  have hpolicy : metricLabelPolicy.get? "agent_tool_calls" =
      some [("tool_name" : Text), "status"] := by decide
  rw [MeterOp.measured, if_pos hcounter, filterMetricAttributes, hpolicy]
  rfl

theorem measured_duration (name status : Text) (value : Rat) : ∀ m ∈
    (MeterOp.observe "agent_tool_duration_seconds" value
      [("tool_name", .str name), ("status", .str status)]).measured,
    m = ⟨"agent_tool_duration_seconds",
      [("tool_name", .str (name.take 120)), ("status", .str (status.take 120))]⟩ := by
  have hpolicy : metricLabelPolicy.get? "agent_tool_duration_seconds" =
      some [("tool_name" : Text), "status"] := by decide
  intro m hm
  rw [MeterOp.measured, filterMetricAttributes, hpolicy] at hm
  split at hm
  · exact (Option.some.inj hm).symm
  · cases hm

end

/-- A name is registered. -/
def Registered (name : Text) : Prop := (ToolRegistry.get? name).isSome = true

theorem registered_iff {name : Text} :
    Registered name ↔ ∃ tool ∈ ToolRegistry.tools, tool.name = name := by
  rw [Registered, ToolRegistry.get?, List.find?_isSome]
  simp

/-- The registry allows what is recorded under a registered name. -/
theorem allowed_of_registered {name : Text} (h : Registered name) (hlength : name.length ≤ 120) :
    Allowed (.count "agent_tool_failures" [("tool_name", .str name)]) ∧
      ∀ status ∈ [("success" : Text), ("failure" : Text)],
        Allowed (.count "agent_tool_calls" [("tool_name", .str name), ("status", .str status)]) ∧
        ∀ value, Allowed (.observe "agent_tool_duration_seconds" value
          [("tool_name", .str name), ("status", .str status)]) := by
  obtain ⟨tool, htool, rfl⟩ := registered_iff.mp h
  have hname : tool.name.take 120 = tool.name := List.take_of_length_le hlength
  have hmem : ∀ m, m ∈ _ → m ∈ registryMeasurements := fun m hm =>
    List.mem_flatMap.mpr ⟨tool, htool, hm⟩
  constructor
  · intro m hm
    rw [measured_failures, hname] at hm
    obtain rfl := Option.some.inj hm
    exact hmem _ List.mem_cons_self
  · intro status hstatus
    have hcut : status.take 120 = status := by
      simp only [List.mem_cons, List.not_mem_nil, or_false] at hstatus
      rcases hstatus with rfl | rfl <;> decide
    constructor
    · intro m hm
      rw [measured_calls, hname, hcut] at hm
      obtain rfl := Option.some.inj hm
      exact hmem _ (List.mem_cons_of_mem _ (List.mem_flatMap.mpr ⟨status, hstatus,
        List.mem_cons_self⟩))
    · intro value m hm
      obtain rfl := measured_duration tool.name status value m hm
      rw [hname, hcut]
      exact hmem _ (List.mem_cons_of_mem _ (List.mem_flatMap.mpr ⟨status, hstatus,
        List.mem_cons_of_mem _ List.mem_cons_self⟩))

/-- The registry allows a count of calls under a registered name only. -/
theorem registered_of_allowed {name status : Text} (hlength : name.length ≤ 120)
    (h : Allowed (.count "agent_tool_calls" [("tool_name", .str name), ("status", .str status)])) :
    Registered name := by
  have hmem := h _ (measured_calls name status)
  rw [List.take_of_length_le hlength] at hmem
  obtain ⟨tool, htool, hm⟩ := List.mem_flatMap.mp hmem
  refine registered_iff.mpr ⟨tool, htool, ?_⟩
  rcases List.mem_cons.mp hm with hm | hm
  · simp only [Measurement.mk.injEq] at hm
    exact absurd hm.1 (by decide)
  · obtain ⟨status', -, hm⟩ := List.mem_flatMap.mp hm
    simp only [List.mem_cons, List.not_mem_nil, or_false, Measurement.mk.injEq, List.cons.injEq,
      Prod.mk.injEq, Json.str.injEq] at hm
    rcases hm with ⟨-, ⟨-, hname⟩, -⟩ | ⟨hmetric, -⟩
    · exact hname.symm
    · exact absurd hmetric (by decide)

/-! ## The calls of a process -/

omit [Runtime] [Pydantic] in
theorem unmetered_only {α : Type} {A : MeterOp → Prop} (hA : ∀ o, A (.call o)) (p : Py α) :
    (unmetered p).Only A := by
  induction p with
  | ret a => trivial
  | raise e => trivial
  | call o k ih => exact ⟨hA o, ih⟩

theorem allowed_call (o : Op) : Allowed (.call o) := nofun

omit [Runtime] [Pydantic] in
theorem outcome_only {α : Type} {A : MeterOp → Prop} {p : Metric α} (h : p.Only A) :
    (outcome p).Only A := by
  have hbind : (p >>= fun a => (.ret (.ok a) : Metric (Except PyExc α))).Only A :=
    h.bind fun _ => trivial
  exact hbind.tryCatch fun _ => trivial

omit [Runtime] [Pydantic] in
/-- What follows an outcome follows some outcome. -/
theorem only_of_outcome {α β : Type} {A : MeterOp → Prop} (hanswer : ∀ o, Nonempty (MeterOp.Resp o))
    {p : Metric α} {f : Except PyExc α → Metric β} (h : (outcome p >>= f).Only A) :
    p.Only A ∧ ∃ out, (f out).Only A := by
  induction p with
  | ret a => exact ⟨trivial, .ok a, h⟩
  | raise e => exact ⟨trivial, .error e, h⟩
  | call o k ih =>
      obtain ⟨r⟩ := hanswer o
      exact ⟨⟨h.1, fun r => (ih r (h.2 r)).1⟩, (ih r (h.2 r)).2⟩

omit [Pydantic] in
theorem answered (o : MeterOp) : Nonempty (MeterOp.Resp o) := by
  cases o with
  | call o => exact ⟨plainAnswer () o World.blank⟩
  | count name attributes => exact ⟨()⟩
  | observe name value attributes => exact ⟨()⟩

/-- Every call is counted under the name that was requested. -/
theorem calls_counted {A : MeterOp → Prop} {maxToolCalls : Nat} {request : ToolRequest}
    {context : ToolContext} {currentToolCalls : Nat}
    (h : (ToolExecutor.executeMetered maxToolCalls request context currentToolCalls).Only A) :
    ∃ status : Text, A (.count "agent_tool_calls"
      [("tool_name", .str request.toolName.1), ("status", .str status)]) := by
  -- some path leads to the count of the calls, whatever became of the call
  have hstarted := h.2 (0 : Rat)
  obtain ⟨-, result, hresult⟩ := only_of_outcome answered hstarted
  cases result with
  | ok result => exact ⟨_, hresult.1⟩
  | error e => exact ⟨_, (hresult.2 ()).1⟩

/-- **One call of the executor** records what the registry allows where it is for a registered
name. -/
theorem executeMetered_only {maxToolCalls : Nat} {request : ToolRequest} {context : ToolContext}
    {currentToolCalls : Nat} :
    (ToolExecutor.executeMetered maxToolCalls request context currentToolCalls).Only Allowed ↔
      Registered request.toolName.1 := by
  have hlength : request.toolName.1.length ≤ 120 := request.toolName.2.2.trans (by decide)
  constructor
  · intro h
    obtain ⟨status, hcalls⟩ := calls_counted h
    exact registered_of_allowed hlength hcalls
  · intro h
    obtain ⟨hfailures, hstatus⟩ := allowed_of_registered h hlength
    have hrest : ∀ (started : Rat) (status : Text) (result : Except PyExc ToolResult),
        status ∈ [("success" : Text), ("failure" : Text)] →
        (do
          countMetric "agent_tool_calls"
            [("tool_name", .str request.toolName.1), ("status", .str status)]
          let elapsed ← unmetered (perfCounterSince started)
          observeMetric "agent_tool_duration_seconds" elapsed
            [("tool_name", .str request.toolName.1), ("status", .str status)]
          answer result : Metric ToolResult).Only Allowed := by
      intro started status result hmem
      obtain ⟨hcalls, hduration⟩ := hstatus status hmem
      refine ⟨hcalls, fun _ => ?_⟩
      refine (unmetered_only allowed_call _).bind fun elapsed => ?_
      exact ⟨hduration elapsed, fun _ => only_answer result⟩
    refine (unmetered_only allowed_call _).bind fun started => ?_
    refine (outcome_only (unmetered_only allowed_call _)).bind fun result => ?_
    cases result with
    | ok result => exact hrest started "success" (.ok result) List.mem_cons_self
    | error e =>
        refine ⟨hfailures, fun _ => ?_⟩
        exact hrest started "failure" (.error e) (List.mem_cons_of_mem _ List.mem_cons_self)

theorem executorCalls_only {maxToolCalls : Nat} {calls : List ExecutorCall} :
    (executorCalls maxToolCalls calls).Only Allowed ↔
      ∀ c ∈ calls, Registered c.request.toolName.1 := by
  induction calls with
  | nil => exact iff_of_true trivial nofun
  | cons c calls ih =>
      rw [List.forall_mem_cons, ← ih, executorCalls]
      constructor
      · intro h
        obtain ⟨hcall, _, hrest⟩ := only_of_outcome answered h
        exact ⟨executeMetered_only.mp hcall, hrest⟩
      · rintro ⟨hcall, hrest⟩
        exact (outcome_only (executeMetered_only.mpr hcall)).bind fun _ => hrest

/-- **The labels come from the registry** in a process exactly when every requested name does. -/
theorem labels_fixed_iff (maxToolCalls : Nat) (calls : List ExecutorCall) :
    (∀ ops, (executorCalls maxToolCalls calls).Issues ops →
      ∀ m ∈ ops.filterMap MeterOp.measured, m ∈ registryMeasurements) ↔
    ∀ c ∈ calls, Registered c.request.toolName.1 := by
  rw [← executorCalls_only, only_iff_issues answered]
  refine forall₂_congr fun ops _ => ?_
  constructor
  · intro h o ho m hm
    exact h m (List.mem_filterMap.mpr ⟨o, ho, hm⟩)
  · intro h m hm
    obtain ⟨o, ho, hm⟩ := List.mem_filterMap.mp hm
    exact h o ho m hm

end

/-- A request for a tool whose name is one character. -/
def requestNamed (c : Char) : ToolRequest := ⟨⟨[c], Nat.le_refl 1, Nat.le_add_left 1 79⟩, []⟩

/-- A call for such a tool. -/
def callNamed (c : Char) : ExecutorCall :=
  ⟨requestNamed c, ⟨1, 4, none, 4, []⟩, 0⟩

/-- Names of one character alone give more label sets than the registry could ever allow. -/
theorem requested_names_recorded :
    ¬ ∃ allowed : List Measurement, allowed.length ≤ 50000 ∧ ∀ calls ops,
      (executorCalls 1 calls).Issues ops → ∀ m ∈ ops.filterMap MeterOp.measured, m ∈ allowed := by
  rintro ⟨allowed, hfew, hallowed⟩
  have hrecorded : ∀ c : Char, ∃ m ∈ allowed,
      m.attributes.head? = some (("tool_name" : Text), Json.str [c]) := by
    intro c
    have honly : (executorCalls 1 [callNamed c]).Only fun o => ∀ m ∈ o.measured, m ∈ allowed :=
      (only_iff_issues answered).mpr fun ops hops o ho m hm =>
        hallowed [callNamed c] ops hops m (List.mem_filterMap.mpr ⟨o, ho, hm⟩)
    obtain ⟨status, hcalls⟩ := calls_counted (only_of_outcome answered honly).1
    exact ⟨_, hcalls _ (measured_calls [c] status), rfl⟩
  -- fifty-five thousand characters, each with a label set of its own
  have hnodup : ((List.range 55000).map fun n =>
      some (("tool_name" : Text), Json.str [Char.ofNat n])).Nodup := by
    refine List.Nodup.map_on (fun n hn m hm heq => ?_) List.nodup_range
    rw [List.mem_range] at hn hm
    have hchar : Char.ofNat n = Char.ofNat m := by simpa using heq
    have hvalid : ∀ n, n < 55000 → (Char.ofNat n).toNat = n := by
      intro n hn
      have hvalid : n.isValidChar := .inl (by omega)
      rw [Char.ofNat, dif_pos hvalid]
      rfl
    rw [← hvalid n hn, hchar, hvalid m hm]
  have hsubset : ((List.range 55000).map fun n =>
      some (("tool_name" : Text), Json.str [Char.ofNat n])) ⊆ allowed.map (·.attributes.head?) := by
    intro label hlabel
    obtain ⟨n, -, rfl⟩ := List.mem_map.mp hlabel
    obtain ⟨m, hm, hhead⟩ := hrecorded (Char.ofNat n)
    exact List.mem_map.mpr ⟨m, hm, hhead⟩
  have hmany := (hnodup.subperm hsubset).length_le
  rw [List.length_map, List.length_range, List.length_map] at hmany
  omega

end SupportPlatform

