import SupportPlatform.EventModels
import SupportPlatform.Sanitization

/-! # The models of the agent

The pydantic models of `app/agent/models.py`, `app/ai/models.py` and `app/agent/workflow.py`
that the planner, the tools and the resolver exchange.  What a model's fields demand is
carried by their types, so that an instance meets it by construction; `modelValidate` is the
validation of a JSON value.
-/
namespace SupportPlatform

/-! ## Fields -/

/-- A string of bounded length. -/
abbrev BoundedText (low high : Nat) := {s : Text // low ≤ s.length ∧ s.length ≤ high}

/-- An integer in a range. -/
abbrev BoundedInt (low high : Int) := {n : Int // low ≤ n ∧ n ≤ high}

/-- A positive integer. -/
abbrev PositiveInt := {n : Int // 0 < n}

/-- The value with what its field demands, if it meets it. -/
def field {α : Type} (p : α → Prop) [DecidablePred p] (a : α) : Option {a : α // p a} :=
  if h : p a then some ⟨a, h⟩ else none

section
variable {α : Type} {p : α → Prop} [DecidablePred p]

theorem field_eq_some {a : α} {x : {a : α // p a}} (h : field p a = some x) : x.1 = a := by
  unfold field at h
  split at h
  · cases h
    rfl
  · cases h

theorem field_self (x : {a : α // p a}) : field p x.1 = some x := dif_pos x.2

end

/-- A string field. -/
def boundedText (low high : Nat) (value : Json) : Option (BoundedText low high) :=
  value.str?.bind (field _)

/-- What is read of a text is the text. -/
theorem boundedText_val {low high : Nat} {s : Text} {x : BoundedText low high}
    (h : boundedText low high (.str s) = some x) : x.1 = s := field_eq_some h

theorem boundedText_self {low high : Nat} (x : BoundedText low high) :
    boundedText low high (.str x.1) = some x := field_self x

/-- A string field of a model that strips whitespace. -/
def strippedText (low high : Nat) (value : Json) : Option (BoundedText low high) :=
  value.str?.bind fun s => field _ s.stripWhitespace

/-- A field that may be null or missing. -/
def optional {α : Type} (read : Json → Option α) : Option Json → Option (Option α)
  | none | some .null => some none
  | some value => (read value).map some

/-- A field with a default. -/
def withDefault {α : Type} (default : α) (read : Json → Option α) : Option Json → Option α
  | none => some default
  | some value => read value

/-- A list field. -/
def listOf {α : Type} (read : Json → Option α) : Json → Option (List α)
  | .arr items => items.mapM read
  | _ => none

/-- A field of type `dict[str, object]`. -/
def dictOf : Json → Option (Dict Text Json)
  | .obj entries => some entries
  | _ => none

/-- The entries of a model that forbids fields it does not have. -/
def strictEntries (fields : List Text) (value : Json) : Option (Dict Text Json) :=
  (dictOf value).bind fun entries =>
    if entries.all fun e => e.1 ∈ fields then some entries else none

theorem strictEntries_obj {fields : List Text} {entries read : Dict Text Json}
    (h : strictEntries fields (.obj entries) = some read) : read = entries := by
  rw [strictEntries, dictOf, Option.bind_some] at h
  split at h
  · exact (Option.some.inj h).symm
  · cases h

/-- The instance that validation made, or the `ValidationError`. -/
def validated [Pydantic] {α : Type} (model : Text) (input : Json) : Option α → Except PyExc α
  | some a => .ok a
  | none => .error (validationError model (some input))

/-- A nullable string as JSON. -/
def Json.ofText : Option Text → Json
  | some s => .str s
  | none => .null

/-! ## Evidence -/

/-- `EvidenceType(value)`. -/
def EvidenceType.ofValue (s : Text) : Option EvidenceType :=
  [incident, runbook, similarIncident, resolution].find? fun v => v.value = s

@[simp] theorem EvidenceType.ofValue_value (t : EvidenceType) : ofValue t.value = some t := by
  cases t <;> decide

/-- `EvidenceReference`. -/
structure EvidenceReference where
  evidenceType : EvidenceType
  referenceId : BoundedText 1 160
  sourceId : Option (BoundedText 0 120)
  chunkId : Option PositiveInt
  deriving DecidableEq

namespace EvidenceReference

/-- `(source_id, chunk_id)`. -/
def pair (r : EvidenceReference) : Option Text × Option Int :=
  (r.sourceId.map (·.1), r.chunkId.map (·.1))

/-- `EvidenceReference(...)` of a reference without a source. -/
def ofId (evidenceType : EvidenceType) (referenceId : Text) : Option EvidenceReference := do
  let referenceId ← field _ referenceId
  return ⟨evidenceType, referenceId, none, none⟩

/-- `EvidenceReference(...)` of a chunk of a runbook. -/
def ofChunk (referenceId sourceId : Text) (chunkId : Int) : Option EvidenceReference := do
  let referenceId ← field _ referenceId
  let sourceId ← field _ sourceId
  let chunkId ← field _ chunkId
  return ⟨.runbook, referenceId, some sourceId, some chunkId⟩

/-- `model_dump(mode="json")`. -/
def modelDump (r : EvidenceReference) : Json :=
  .obj [("evidence_type", .str r.evidenceType.value),
    ("reference_id", .str r.referenceId.1),
    ("source_id", Json.ofText (r.sourceId.map (·.1))),
    ("chunk_id", match r.chunkId with
      | some n => .int n.1
      | none => .null)]

/-- The validation of a JSON value. -/
def ofJson [Pydantic] (value : Json) : Option EvidenceReference := do
  let entries ← strictEntries ["evidence_type", "reference_id", "source_id", "chunk_id"] value
  let evidenceType ← ((entries.get? "evidence_type").bind Json.str?).bind EvidenceType.ofValue
  let referenceId ← (entries.get? "reference_id").bind (boundedText 1 160)
  let sourceId ← optional (boundedText 0 120) (entries.get? "source_id")
  let chunkId ← optional (fun v => (Pydantic.intOf v).bind (field _)) (entries.get? "chunk_id")
  return ⟨evidenceType, referenceId, sourceId, chunkId⟩

end EvidenceReference

/-- A list of at most so many references. -/
abbrev References := {l : List EvidenceReference // l.length ≤ 20}

/-- `list({key(ref): ref for ref in refs}.values())`, the key being all fields: the distinct
references in the order of their first occurrence. -/
def distinctReferences (refs : List EvidenceReference) : List EvidenceReference := fromKeys refs

/-- `SourceCitation`. -/
structure SourceCitation where
  sourceId : BoundedText 1 120
  chunkId : PositiveInt
  deriving DecidableEq

namespace SourceCitation

/-- `(source_id, chunk_id)`. -/
def pair (c : SourceCitation) : Option Text × Option Int := (some c.sourceId.1, some c.chunkId.1)

/-- `model_dump(mode="json")`. -/
def modelDump (c : SourceCitation) : Json :=
  .obj [("source_id", .str c.sourceId.1), ("chunk_id", .int c.chunkId.1)]

/-- The validation of a JSON value. -/
def ofJson [Pydantic] (value : Json) : Option SourceCitation := do
  let entries ← strictEntries ["source_id", "chunk_id"] value
  let sourceId ← (entries.get? "source_id").bind (boundedText 1 120)
  let chunkId ← ((entries.get? "chunk_id").bind Pydantic.intOf).bind (field _)
  return ⟨sourceId, chunkId⟩

end SourceCitation

/-! ## Tool results -/

/-- `ToolResult.status`. -/
inductive ToolStatus
  | succeeded | rejected | failed | timedOut
  deriving DecidableEq

namespace ToolStatus

/-- The literal of the status. -/
def value : ToolStatus → Text
  | succeeded => "succeeded"
  | rejected => "rejected"
  | failed => "failed"
  | timedOut => "timed_out"

/-- The status of a literal. -/
def ofValue (s : Text) : Option ToolStatus :=
  [succeeded, rejected, failed, timedOut].find? fun v => v.value = s

@[simp] theorem ofValue_value (t : ToolStatus) : ofValue t.value = some t := by
  cases t <;> decide

end ToolStatus

/-- `ToolResult`. -/
structure ToolResult where
  toolName : BoundedText 1 80
  status : ToolStatus
  summary : BoundedText 1 2000
  data : Dict Text Json
  evidenceReferences : References
  durationMs : {f : Float64 // Float64.le 0 f = true}
  deriving DecidableEq

namespace ToolResult

/-- The field names of the model. -/
def fieldNames : List Text :=
  ["tool_name", "status", "summary", "data", "evidence_references", "duration_ms"]

/-- The fields of a result as JSON values, in order. -/
def modelDumpEntries (r : ToolResult) : Dict Text Json :=
  [("tool_name", .str r.toolName.1),
    ("status", .str r.status.value),
    ("summary", .str r.summary.1),
    ("data", .obj r.data),
    ("evidence_references", .arr (r.evidenceReferences.1.map (·.modelDump))),
    ("duration_ms", .float r.durationMs.1)]

/-- `model_dump(mode="json")`. -/
def modelDump (r : ToolResult) : Json := .obj r.modelDumpEntries

/-- The validation of a JSON value. -/
def ofJson [Pydantic] (value : Json) : Option ToolResult := do
  let entries ← strictEntries fieldNames value
  let toolName ← (entries.get? "tool_name").bind (boundedText 1 80)
  let status ← ((entries.get? "status").bind Json.str?).bind ToolStatus.ofValue
  let summary ← (entries.get? "summary").bind (boundedText 1 2000)
  let data ← withDefault [] dictOf (entries.get? "data")
  let references ← withDefault [] (listOf EvidenceReference.ofJson)
    (entries.get? "evidence_references")
  let references ← field _ references
  let durationMs ← ((entries.get? "duration_ms").bind Pydantic.floatOf).bind (field _)
  return ⟨toolName, status, summary, data, references, durationMs⟩

/-- `ToolResult.model_validate(value)`. -/
def modelValidate [Pydantic] (value : Json) : Except PyExc ToolResult :=
  validated "ToolResult" value (ofJson value)

end ToolResult

/-! ## Planner decisions -/

/-- What a planner decision asks for: a tool call, whose fields are present, or the final
resolution, for which they are not. -/
inductive PlannerAction
  | tool (name : BoundedText 1 80) (arguments : Dict Text Json)
  | final

/-- `decision.next_action`. -/
def PlannerAction.type : PlannerAction → ActionType
  | tool _ _ => .tool
  | final => .final

/-- `PlannerDecision`. -/
structure PlannerDecision where
  goal : BoundedText 1 500
  nextAction : PlannerAction
  reasonSummary : BoundedText 1 500
  expectedEvidence : BoundedText 1 500

/-- `_PLANNER_ACTION_ALIASES`. -/
def plannerActionAliases : Dict Text Text :=
  [("tool", "tool"), ("tool_call", "tool"), ("call_tool", "tool"), ("final", "final"),
    ("final_answer", "final"), ("finish", "final")]

/-- The action of a payload, normalized. -/
def normalizeAction [Runtime] (payload : Dict Text Json) : Dict Text Json :=
  match payload.get? "next_action" with
  | some (.str raw) =>
      match plannerActionAliases.get? ((raw.strip.lower.replace "-" "_").replace " " "_") with
      | some action => payload.set "next_action" (.str action)
      | none => payload
  | none | some .null =>
      let explicit := match payload.get? "tool_name" with
        | some name => some name
        | none => payload.get? "tool"
      match explicit with
      | some (.str (_ :: _)) => payload.set "next_action" (.str "tool")
      | _ => payload
  | _ => payload

/-- `payload[new] = payload.pop(old)`, where only `old` is there. -/
def renameField (payload : Dict Text Json) (old new : Text) : Dict Text Json :=
  match payload.get? new, payload.get? old with
  | none, some value => (payload.erase old).set new value
  | _, _ => payload

/-- `payload[key] = None`, where the value is `empty`. -/
def dropEmpty (payload : Dict Text Json) (key : Text) (empty : Json) : Dict Text Json :=
  if payload.get? key = some empty then payload.set key .null else payload

/-- `normalize_planner_payload(value)` of a dictionary. -/
def normalizePlannerEntries [Runtime] (payload : Dict Text Json) : Dict Text Json :=
  let payload := normalizeAction payload
  if payload.get? "next_action" = some (.str "tool") then
    renameField (renameField payload "tool" "tool_name") "arguments" "tool_arguments"
  else if payload.get? "next_action" = some (.str "final") then
    dropEmpty (dropEmpty payload "tool_name" (.str [])) "tool_arguments" (.obj [])
  else payload

/-- `normalize_planner_payload(value)`. -/
def normalizePlannerPayload [Runtime] : Json → Json
  | .obj payload => .obj (normalizePlannerEntries payload)
  | value => value

namespace PlannerDecision

/-- The field names of the model. -/
def fieldNames : List Text :=
  ["goal", "next_action", "tool_name", "tool_arguments", "reason_summary", "expected_evidence"]

/-- `validate_action_shape`. -/
def actionOf (nextAction : Text) (toolName : Option (BoundedText 0 80))
    (toolArguments : Option (Dict Text Json)) : Option PlannerAction :=
  if nextAction = "tool" then
    match toolName, toolArguments with
    | some ⟨name, h⟩, some arguments =>
        if hn : 1 ≤ name.length then some (.tool ⟨name, hn, h.2⟩ arguments) else none
    | _, _ => none
  else if nextAction = "final" then
    match toolName, toolArguments with
    | none, none => some .final
    | _, _ => none
  else none

/-- The validation of a normalized value. -/
def ofJson (value : Json) : Option PlannerDecision := do
  let entries ← strictEntries fieldNames value
  let goal ← (entries.get? "goal").bind (boundedText 1 500)
  let nextAction ← (entries.get? "next_action").bind Json.str?
  let toolName ← optional (boundedText 0 80) (entries.get? "tool_name")
  let toolArguments ← optional dictOf (entries.get? "tool_arguments")
  let reasonSummary ← (entries.get? "reason_summary").bind (boundedText 1 500)
  let expectedEvidence ← (entries.get? "expected_evidence").bind (boundedText 1 500)
  let action ← actionOf nextAction toolName toolArguments
  return ⟨goal, action, reasonSummary, expectedEvidence⟩

/-- `PlannerDecision.model_validate(value)`. -/
def modelValidate [Runtime] [Pydantic] (value : Json) : Except PyExc PlannerDecision :=
  validated "PlannerDecision" value (ofJson (normalizePlannerPayload value))

/-- `model_dump(mode="json")`, which `model_dump_json()` encodes. -/
def modelDump (d : PlannerDecision) : Json :=
  .obj [("goal", .str d.goal.1),
    ("next_action", .str d.nextAction.type.value),
    ("tool_name", match d.nextAction with
      | .tool name _ => .str name.1
      | .final => .null),
    ("tool_arguments", match d.nextAction with
      | .tool _ arguments => .obj arguments
      | .final => .null),
    ("reason_summary", .str d.reasonSummary.1),
    ("expected_evidence", .str d.expectedEvidence.1)]

end PlannerDecision

/-! ## Tool inputs -/

/-- `GetIncidentInput`. -/
structure GetIncidentInput where
  incidentId : PositiveInt

/-- `RetrieveRunbooksInput`. -/
structure RetrieveRunbooksInput where
  query : BoundedText 3 2000
  classification : Option (BoundedText 0 100)
  topK : BoundedInt 1 8

/-- `IncidentScopedListInput`. -/
structure IncidentScopedListInput where
  incidentId : PositiveInt
  limit : BoundedInt 1 10

/-- `ResolutionContextInput`. -/
structure ResolutionContextInput where
  incidentId : PositiveInt

/-- `SummarizeEvidenceInput`. -/
structure SummarizeEvidenceInput where
  stepNumbers : {l : List Int // 1 ≤ l.length ∧ l.length ≤ 12}

section
variable [Pydantic]

/-- A positive integer field. -/
def positiveInt (value : Json) : Option PositiveInt := (Pydantic.intOf value).bind (field _)

/-- An integer field with a range. -/
def boundedInt (low high : Int) (value : Json) : Option (BoundedInt low high) :=
  (Pydantic.intOf value).bind (field _)

/-- The validation of a JSON value. -/
def GetIncidentInput.ofJson (value : Json) : Option GetIncidentInput := do
  let entries ← strictEntries ["incident_id"] value
  let incidentId ← (entries.get? "incident_id").bind positiveInt
  return ⟨incidentId⟩

/-- The validation of a JSON value. -/
def RetrieveRunbooksInput.ofJson (value : Json) : Option RetrieveRunbooksInput := do
  let entries ← strictEntries ["query", "classification", "top_k"] value
  let query ← (entries.get? "query").bind (strippedText 3 2000)
  let classification ← optional (strippedText 0 100) (entries.get? "classification")
  let topK ← withDefault ⟨4, by decide⟩ (boundedInt 1 8) (entries.get? "top_k")
  return ⟨query, classification, topK⟩

/-- The validation of a JSON value. -/
def IncidentScopedListInput.ofJson (value : Json) : Option IncidentScopedListInput := do
  let entries ← strictEntries ["incident_id", "limit"] value
  let incidentId ← (entries.get? "incident_id").bind positiveInt
  let limit ← withDefault ⟨5, by decide⟩ (boundedInt 1 10) (entries.get? "limit")
  return ⟨incidentId, limit⟩

/-- The validation of a JSON value. -/
def ResolutionContextInput.ofJson (value : Json) : Option ResolutionContextInput := do
  let entries ← strictEntries ["incident_id"] value
  let incidentId ← (entries.get? "incident_id").bind positiveInt
  return ⟨incidentId⟩

/-- The validation of a JSON value. -/
def SummarizeEvidenceInput.ofJson (value : Json) : Option SummarizeEvidenceInput := do
  let entries ← strictEntries ["step_numbers"] value
  let numbers ← (entries.get? "step_numbers").bind (listOf Pydantic.intOf)
  let stepNumbers ← field _ numbers
  return ⟨stepNumbers⟩

end

/-- `model_dump(mode="json")`. -/
def GetIncidentInput.modelDump (i : GetIncidentInput) : Json :=
  .obj [("incident_id", .int i.incidentId.1)]

/-- `model_dump(mode="json")`. -/
def RetrieveRunbooksInput.modelDump (i : RetrieveRunbooksInput) : Json :=
  .obj [("query", .str i.query.1),
    ("classification", Json.ofText (i.classification.map (·.1))),
    ("top_k", .int i.topK.1)]

/-! ## Decisions while evidence is required -/

/-- The literals that the server mandates, filled in.  The membership test on the tool
name hashes it, which a list or a dictionary does not allow. -/
def fillRequiredTool (toolName : Text) (payload : Dict Text Json) :
    Except PyExc (Dict Text Json) :=
  let payload : Dict Text Json := match payload.get? "next_action" with
    | none | some .null => payload.set "next_action" (.str "tool")
    | some _ => payload
  if payload.get? "next_action" = some (.str "tool") then
    match payload.get? "tool_name" with
    | some (.arr _) => .error ⟨.typeError, "unhashable type: 'list'"⟩
    | some (.obj _) => .error ⟨.typeError, "unhashable type: 'dict'"⟩
    | none | some .null | some (.str []) => .ok (payload.set "tool_name" (.str toolName))
    | some _ => .ok payload
  else .ok payload

/-- `_normalize_required_tool_payload(value, tool_name)`. -/
def normalizeRequiredToolPayload [Runtime] (toolName : Text) (value : Json) : Except PyExc Json :=
  match normalizePlannerPayload value with
  | .obj payload => do
      let payload ← fillRequiredTool toolName payload
      return normalizePlannerPayload (.obj payload)
  | value => .ok value

/-- `RequiredIncidentDecision` and `RequiredRetrievalDecision`: a call of one tool, with
that tool's input `α` as the arguments. -/
structure RequiredDecision (α : Type) where
  goal : BoundedText 1 500
  toolArguments : α
  reasonSummary : BoundedText 1 500
  expectedEvidence : BoundedText 1 500

namespace RequiredDecision
variable {α : Type}

/-- The validation of a normalized value. -/
def ofJson (toolName : Text) (input : Json → Option α) (value : Json) :
    Option (RequiredDecision α) := do
  let entries ← strictEntries PlannerDecision.fieldNames value
  let goal ← (entries.get? "goal").bind (boundedText 1 500)
  guard (entries.get? "next_action" = some (.str "tool"))
  guard (entries.get? "tool_name" = some (.str toolName))
  let toolArguments ← (entries.get? "tool_arguments").bind input
  let reasonSummary ← (entries.get? "reason_summary").bind (boundedText 1 500)
  let expectedEvidence ← (entries.get? "expected_evidence").bind (boundedText 1 500)
  return ⟨goal, toolArguments, reasonSummary, expectedEvidence⟩

/-- `model_validate(value)`. -/
def modelValidate [Runtime] [Pydantic] (model toolName : Text) (input : Json → Option α)
    (value : Json) : Except PyExc (RequiredDecision α) := do
  let normalized ← normalizeRequiredToolPayload toolName value
  validated model value (ofJson toolName input normalized)

/-- `model_dump(mode="json")`. -/
def modelDump (toolName : Text) (dump : α → Json) (d : RequiredDecision α) : Json :=
  .obj [("goal", .str d.goal.1), ("next_action", .str "tool"), ("tool_name", .str toolName),
    ("tool_arguments", dump d.toolArguments), ("reason_summary", .str d.reasonSummary.1),
    ("expected_evidence", .str d.expectedEvidence.1)]

end RequiredDecision

/-! ## The final response -/

/-- `AgentFinalResponse`.  Its copies are not validated again, so the fields are plain. -/
structure AgentFinalResponse where
  summary : Text
  rootCause : Text
  recommendedActions : List Text
  confidence : Float64
  citedSources : List SourceCitation
  evidenceSummary : Text
  toolsUsed : List Text
  limitations : List Text
  escalationRequired : Bool
  humanReviewRecommended : Bool

namespace AgentFinalResponse

/-- The field names of the model. -/
def fieldNames : List Text :=
  ["summary", "root_cause", "recommended_actions", "confidence", "cited_sources",
    "evidence_summary", "tools_used", "limitations", "escalation_required",
    "human_review_recommended"]

/-- A list of texts, within bounds. -/
def textList (low high textHigh : Nat) (value : Json) : Option (List Text) := do
  let items ← listOf (boundedText 1 textHigh) value
  guard (low ≤ items.length ∧ items.length ≤ high)
  return items.map (·.1)

/-- The validation of a JSON value. -/
def ofJson [Pydantic] (value : Json) : Option AgentFinalResponse := do
  let entries ← strictEntries fieldNames value
  let summary ← (entries.get? "summary").bind (boundedText 1 2000)
  let rootCause ← (entries.get? "root_cause").bind (boundedText 1 4000)
  let recommendedActions ← (entries.get? "recommended_actions").bind (textList 1 8 1000)
  let confidence ← (entries.get? "confidence").bind Pydantic.floatOf
  guard (Float64.le 0 confidence ∧ confidence.le 1)
  let citedSources ← (entries.get? "cited_sources").bind (listOf SourceCitation.ofJson)
  guard (citedSources.length ≤ 8)
  let evidenceSummary ← (entries.get? "evidence_summary").bind (boundedText 1 4000)
  let toolsUsed ← (entries.get? "tools_used").bind (textList 1 12 80)
  let limitations ← withDefault [] (textList 0 8 1000) (entries.get? "limitations")
  let escalationRequired ← (entries.get? "escalation_required").bind Pydantic.boolOf
  let humanReviewRecommended ← (entries.get? "human_review_recommended").bind Pydantic.boolOf
  return ⟨summary.1, rootCause.1, recommendedActions, confidence, citedSources,
    evidenceSummary.1, toolsUsed, limitations, escalationRequired, humanReviewRecommended⟩

/-- `model_dump(mode="json")`. -/
def modelDump (f : AgentFinalResponse) : Json :=
  .obj [("summary", .str f.summary),
    ("root_cause", .str f.rootCause),
    ("recommended_actions", .arr (f.recommendedActions.map .str)),
    ("confidence", .float f.confidence),
    ("cited_sources", .arr (f.citedSources.map (·.modelDump))),
    ("evidence_summary", .str f.evidenceSummary),
    ("tools_used", .arr (f.toolsUsed.map .str)),
    ("limitations", .arr (f.limitations.map .str)),
    ("escalation_required", .bool f.escalationRequired),
    ("human_review_recommended", .bool f.humanReviewRecommended)]

end AgentFinalResponse

end SupportPlatform
