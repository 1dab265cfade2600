import SupportPlatform.AgentModels
import SupportPlatform.Calls

/-! # The tools of the agent

`app/agent/tools.py`: the six read-only tools, and `ToolExecutor`, which checks a requested
call, runs the tool and sanitizes what it returns.  `retrieve_query` of the retriever is a
call of the environment; what it does around the search is not part of its result.
-/
namespace SupportPlatform
open Program

/-- `MAX_TOOL_ARGUMENT_BYTES`. -/
def maxToolArgumentBytes : Nat := 8000

/-- `MAX_TOOL_RESULT_BYTES`. -/
def maxToolResultBytes : Nat := 24000

/-- `ToolOutput`. -/
structure ToolOutput where
  summary : BoundedText 1 2000
  data : Dict Text Json
  evidenceReferences : References

/-- `ToolRequest`, which a decision's fields always make a valid one. -/
structure ToolRequest where
  toolName : BoundedText 1 80
  arguments : Dict Text Json

/-- The results of the tool steps by step number. -/
abbrev Results := Dict Nat ToolResult

/-- `ToolContext`. -/
structure ToolContext where
  incidentId : Int
  retrieverTopK : Int
  classification : Option Text
  maxRetrievalChunks : Int
  previousResults : Results

/-- `AgentTool`: a name, an input model, which may have a field `incident_id`, and what the
tool does. -/
structure AgentTool where
  name : Text
  Input : Type
  validate : Json → Option Input
  incidentId : Input → Option Int
  execute : Input → ToolContext → Py ToolOutput

/-! ## What the tools share -/

section
variable [Runtime] [Pydantic]

/-- `_bounded_text(value, limit)` of a text. -/
def boundText (value : Text) (limit : Nat) : Text :=
  (((Regex.plus Text.isSpace).sub " " value).strip).take limit

/-- `_bounded_text(value, limit)` as JSON. -/
def boundJson (value : Option Text) (limit : Nat) : Json :=
  Json.ofText (value.map fun s => boundText s limit)

/-- `round(x, 6)`. -/
def round6 (x : Rat) : Rat :=
  let scaled := x * 1000000
  let low := scaled.floor
  let rest := scaled - low
  let nearest := if rest < 1 / 2 then low else if 1 / 2 < rest then low + 1
    else if low % 2 = 0 then low else low + 1
  nearest / 1000000

/-- `ToolOutput(...)` with references that are built beside it. -/
def toolOutput (summary : Text) (data : Dict Text Json) (refs : List (Option EvidenceReference)) :
    Py ToolOutput :=
  match refs.mapM id with
  | none => throw (validationError "EvidenceReference" none)
  | some refs =>
      match field _ summary, field _ refs with
      | some summary, some refs => return ⟨summary, data, refs⟩
      | _, _ => throw (validationError "ToolOutput" none)

/-- The incident of a call, `Incident not found` when there is none. -/
def requireIncident (id : Int) : Py Incident := do
  match ← getIncident id with
  | some incident => return incident
  | none => throw ⟨.toolExecutionError, "Incident not found"⟩

/-! ## The tools -/

/-- `GetIncidentTool.execute`. -/
def getIncidentTool (validated : GetIncidentInput) (_ : ToolContext) : Py ToolOutput := do
  let incident ← withSession (requireIncident validated.incidentId.1)
  toolOutput
    ("Loaded incident " ++ Text.ofInt incident.id ++ ": " ++ incident.classification.value ++
      ", severity " ++ incident.resolvedSeverity.value ++ ".")
    [("incident_id", .int incident.id),
      ("service", .str incident.service),
      ("error", .str (boundText incident.error 1000)),
      ("classification", .str incident.classification.value),
      ("severity", .str incident.resolvedSeverity.value),
      ("probable_cause", .str (boundText incident.probableCause 1500)),
      ("recommended_actions", .arr ((incident.recommendedActions.take 8).map .str)),
      ("created_at", .str (Runtime.isoformat incident.createdAt)),
      ("raw_log_omitted", .bool true)]
    [EvidenceReference.ofId .incident (Text.ofInt incident.id)]

/-- The knowledge category of a classification. -/
def categoryOf (classification : Text) : Option Text :=
  Dict.get? [(("authentication_error" : Text), ("authentication" : Text)),
    ("database_connection_error", "database"), ("timeout_error", "http")] classification

/-- `a or b` of optional texts. -/
def orText (a b : Option Text) : Option Text :=
  match a with
  | some (c :: s) => some (c :: s)
  | _ => b

/-- A chunk as the tool returns it. -/
def chunkData (item : RetrievedChunk) : Json :=
  .obj [("source_id", .str item.sourceId),
    ("chunk_id", .int item.chunkId),
    ("title", .str item.title),
    ("category", .str item.category),
    ("content", .str (boundText item.content 1200)),
    ("similarity", .float (.finite (round6 item.similarity)))]

/-- The `reference_id` of a chunk. -/
def chunkReferenceId (sourceId chunkId : Text) : Text := sourceId ++ ':' :: chunkId

/-- `RetrieveRunbooksTool.execute`. -/
def retrieveRunbooksTool (validated : RetrieveRunbooksInput) (context : ToolContext) :
    Py ToolOutput := do
  let classification := validated.classification.map (·.1)
  let category := match categoryOf ((orText context.classification classification).getD []) with
    | some category => some category
    | none => classification
  let topK := min validated.topK.1 context.maxRetrievalChunks
  let limit := min (if topK = 0 then context.retrieverTopK else topK) context.retrieverTopK
  let chunks ← answer (← issue (.retrieve validated.query.1 limit.toNat category))
  toolOutput ("Retrieved " ++ Text.ofNat chunks.length ++ " approved runbook chunks.")
    [("chunks", .arr (chunks.map chunkData))]
    (chunks.map fun item => EvidenceReference.ofChunk
      (chunkReferenceId item.sourceId (Text.ofInt item.chunkId)) item.sourceId item.chunkId)

/-- `re.findall(r"[a-z0-9]+", error.lower())` as a set. -/
def errorTerms (error : Text) : List Text :=
  fromKeys (Text.runs (fun c => c.isLower || c.isDigit) error.lower)

/-- `_incident_similarity(current, candidate)`. -/
def incidentSimilarity (current candidate : Incident) : Nat :=
  (if candidate.classification = current.classification then 4 else 0) +
    (if candidate.service = current.service then 3 else 0) +
    (if candidate.resolvedSeverity = current.resolvedSeverity then 2 else 0) +
    min ((errorTerms current.error).filter fun t => t ∈ errorTerms candidate.error).length 3

/-- `SearchSimilarIncidentsTool.execute`. -/
def searchSimilarIncidentsTool (validated : IncidentScopedListInput) (_ : ToolContext) :
    Py ToolOutput := do
  let (current, candidates) ← withSession do
    let current ← requireIncident validated.incidentId.1
    let candidates ← select (.recentIncidents validated.incidentId.1)
    return (current, candidates)
  let scored : List (Nat × Incident) :=
    candidates.map fun item => (incidentSimilarity current item, item)
  let ranked := (scored.insertionSort fun a b =>
    b.1 < a.1 ∨ a.1 = b.1 ∧ b.2.id ≤ a.2.id).take validated.limit.1.toNat
  let matched := ranked.filter fun row => 0 < row.1
  toolOutput ("Found " ++ Text.ofNat matched.length ++ " similar incident records.")
    [("incidents", .arr (matched.map fun (score, item) => .obj
      [("incident_id", .int item.id),
        ("service", .str item.service),
        ("error", .str (boundText item.error 500)),
        ("classification", .str item.classification.value),
        ("severity", .str item.resolvedSeverity.value),
        ("probable_cause", .str (boundText item.probableCause 800)),
        ("similarity_score", .int score),
        ("raw_log_omitted", .bool true)]))]
    (matched.map fun (_, item) => EvidenceReference.ofId .similarIncident (Text.ofInt item.id))

/-- A nullable float as JSON. -/
def Json.ofFloat : Option Float64 → Json
  | some f => .float f
  | none => .null

/-- `GetPreviousResolutionsTool.execute`. -/
def getPreviousResolutionsTool (validated : IncidentScopedListInput) (_ : ToolContext) :
    Py ToolOutput := do
  let rows ← withSession do
    let current ← requireIncident validated.incidentId.1
    select (.previousResolutions validated.incidentId.1 current.classification
      validated.limit.1.toNat)
  let rows : List (Resolution × Incident) := rows
  toolOutput ("Loaded " ++ Text.ofNat rows.length ++ " previous resolution summaries.")
    [("resolutions", .arr (rows.map fun (resolution, incident) => .obj
      [("incident_id", .int incident.id),
        ("resolution_id", .int resolution.id),
        ("service", .str incident.service),
        ("summary", boundJson resolution.summary 800),
        ("root_cause", boundJson resolution.rootCause 1000),
        ("recommended_actions",
          .arr (((resolution.recommendedActions.getD []).take 8).map .str)),
        ("confidence", Json.ofFloat resolution.confidence),
        ("cited_sources", .arr ((resolution.citedSources.getD []).take 8))]))]
    (rows.map fun (resolution, _) =>
      EvidenceReference.ofId .resolution (Text.ofInt resolution.id))

/-- A persisted context item as the tool returns it. -/
def contextData (item : Dict Text Json) : Dict Text Json :=
  let text (key : Text) (limit : Nat) : Json :=
    .str (boundText ((item.get? key).getD (.str [])).toText limit)
  [("source_id", (item.get? "source_id").getD .null),
    ("chunk_id", (item.get? "chunk_id").getD .null),
    ("title", text "title" 255),
    ("category", text "category" 100),
    ("content", text "content" 1200),
    ("similarity", (item.get? "similarity").getD .null)]

/-- `int(value)` of what `isinstance(value, int)` holds of. -/
def intInstance? : Json → Option Int
  | .int i => some i
  | .bool b => some (if b then 1 else 0)
  | _ => none

/-- The reference of a context item, if it names a source and a chunk. -/
def contextReference (item : Dict Text Json) : Option (Option EvidenceReference) :=
  match item.get? "source_id", item.get? "chunk_id" with
  | some source, some chunk =>
      if source.truthy then
        (intInstance? chunk).map fun n => EvidenceReference.ofChunk
          (chunkReferenceId source.toText chunk.toText) source.toText n
      else none
  | _, _ => none

/-- `GetIncidentResolutionContextTool.execute`. -/
def getIncidentResolutionContextTool (validated : ResolutionContextInput) (_ : ToolContext) :
    Py ToolOutput := do
  let resolution ← withSession (getResolution validated.incidentId.1)
  let items := match resolution with
    | none => []
    | some resolution => ((resolution : Resolution).retrievedContext.getD []).take 8
  match items.mapM dictOf with
  | none => throw ⟨.other, "object has no attribute 'get'"⟩
  | some items =>
      let sanitized := items.map contextData
      toolOutput ("Loaded " ++ Text.ofNat sanitized.length ++ " persisted context chunks.")
        [("chunks", .arr (sanitized.map .obj))] (sanitized.filterMap contextReference)

/-- `SummarizeEvidenceTool.execute`. -/
def summarizeEvidenceTool (validated : SummarizeEvidenceInput) (context : ToolContext) :
    Py ToolOutput :=
  let resultOf (number : Int) : Option ToolResult :=
    number.toNat?.bind fun n => context.previousResults.get? n
  let uniqueSteps := fromKeys validated.stepNumbers.1
  let results := uniqueSteps.filterMap resultOf
  let missing := uniqueSteps.filter fun number => (resultOf number).isNone
  let references := distinctReferences (results.flatMap fun r => r.evidenceReferences.1)
  toolOutput
    ("Normalized " ++ Text.ofNat results.length ++ " evidence steps; " ++
      Text.ofNat missing.length ++ " requested steps were unavailable.")
    [("facts", .arr (results.map fun r => .str r.summary.1)),
      ("missing_step_numbers", .arr (missing.map .int)),
      ("conflicts", .arr [])]
    (references.map some)

/-! ## The registry -/

namespace ToolRegistry

/-- The registered tools, in order. -/
def tools : List AgentTool :=
  [⟨"get_incident", GetIncidentInput, GetIncidentInput.ofJson,
      fun i => some i.incidentId.1, getIncidentTool⟩,
    ⟨"retrieve_runbooks", RetrieveRunbooksInput, RetrieveRunbooksInput.ofJson,
      fun _ => none, retrieveRunbooksTool⟩,
    ⟨"search_similar_incidents", IncidentScopedListInput, IncidentScopedListInput.ofJson,
      fun i => some i.incidentId.1, searchSimilarIncidentsTool⟩,
    ⟨"get_previous_resolutions", IncidentScopedListInput, IncidentScopedListInput.ofJson,
      fun i => some i.incidentId.1, getPreviousResolutionsTool⟩,
    ⟨"get_incident_resolution_context", ResolutionContextInput, ResolutionContextInput.ofJson,
      fun i => some i.incidentId.1, getIncidentResolutionContextTool⟩,
    ⟨"summarize_evidence", SummarizeEvidenceInput, SummarizeEvidenceInput.ofJson,
      fun _ => none, summarizeEvidenceTool⟩]

/-- `get(name)`. -/
def get? (name : Text) : Option AgentTool := tools.find? fun tool => tool.name = name

end ToolRegistry

/-! ## The executor -/

namespace ToolExecutor

/-- `ToolResult(...)` of a tool's output. -/
def toolResult (toolName : Text) (output : ToolOutput) (durationMs : Rat) :
    Except PyExc ToolResult :=
  match field _ toolName, field _ (sanitizeText output.summary.1), field _ (.finite durationMs) with
  | some toolName, some summary, some durationMs =>
      .ok ⟨toolName, .succeeded, summary, sanitizeDict output.data, output.evidenceReferences,
        durationMs⟩
  | _, _, _ => .error (validationError "ToolResult" none)

/-- `output.model_dump_json()`. -/
def outputJson (output : ToolOutput) : Text :=
  Json.modelDumpJson (.obj [("summary", .str output.summary.1), ("data", .obj output.data),
    ("evidence_references", .arr (output.evidenceReferences.1.map (·.modelDump)))])

/-- The call of the tool in its own thread. -/
def callTool (name : Text) (call : Py ToolOutput) : Py ToolOutput := do
  let timedOut ← toolTimedOut
  raiseIf (timedOut = true) ⟨.toolTimeoutError, "Tool timed out: " ++ name⟩
  call.tryCatch fun exc =>
    if exc.isAny [.toolExecutionError, .providerUnavailableError, .sqlalchemyError] then throw exc
    else throw ⟨.toolExecutionError, "Tool failed safely: " ++ name⟩

/-- What is done with a tool once it is found. -/
def runTool (tool : AgentTool) (request : ToolRequest) (context : ToolContext) :
    Py ToolResult :=
  match tool.validate (.obj request.arguments) with
  | none => throw ⟨.toolExecutionError, "Invalid arguments for " ++ tool.name ++ ": " ++
      (validationError tool.name (some (.obj request.arguments))).message⟩
  | some arguments => do
      raiseIf ((tool.incidentId arguments).getD context.incidentId ≠ context.incidentId)
        ⟨.unauthorizedToolArgumentsError, "Tool incident_id does not match the active execution"⟩
      let started ← perfCounter
      let output ← callTool tool.name (tool.execute arguments context)
      let elapsed ← perfCounterSince started
      raiseIf (maxToolResultBytes < (outputJson output).utf8Length)
        ⟨.toolExecutionError, "Tool result exceeds the size limit"⟩
      answer (toolResult tool.name output (elapsed * 1000))

/-- `execute(request, context, current_tool_calls)`. -/
def execute (maxToolCalls : Nat) (request : ToolRequest) (context : ToolContext)
    (currentToolCalls : Nat) : Py ToolResult := do
  raiseIf (maxToolCalls ≤ currentToolCalls)
    ⟨.agentBudgetExceededError, "Maximum tool-call budget reached"⟩
  raiseIf (maxToolArgumentBytes < (Json.dumps (.obj request.arguments)).utf8Length)
    ⟨.toolExecutionError, "Tool arguments exceed the size limit"⟩
  match ToolRegistry.get? request.toolName.1 with
  | none => throw ⟨.unknownToolError, "Tool is not allowlisted: " ++ request.toolName.1⟩
  | some tool => runTool tool request context

end ToolExecutor

end

end SupportPlatform
