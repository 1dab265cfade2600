import SupportPlatform.ChunkTexts
import SupportPlatform.EncodedSizes
import SupportPlatform.Ingestion
import SupportPlatform.Intake
import SupportPlatform.RunbookSearch

/-! # The sizes of tool results

`get_incident` and `retrieve_runbooks` bound their texts in characters and the number of chunks,
the executor bounds the encoded output in bytes.  For an incident the bounds of the texts are
enough, as the analyzer's own texts are short.  For runbooks they are not: each chunk may bring
1200 characters, and a character takes up to six bytes.  So a result has its exact size
(`runbooksBytes`), and the executor rejects it just when that is above the limit.
-/
namespace SupportPlatform
open Program Json

/-- The rejection of a result for its size. -/
def resultTooLarge : PyExc := ⟨.toolExecutionError, "Tool result exceeds the size limit"⟩

theorem ne_resultTooLarge {e : PyExc} (h : e.cls ≠ .toolExecutionError) : e ≠ resultTooLarge := by
  rintro rfl
  exact h rfl

section
variable [Runtime] [Pydantic]

omit [Pydantic] in
/-- The bytes of an encoded output: of its three fields, and of their names. -/
theorem utf8Length_outputJson (output : ToolOutput) :
    (ToolExecutor.outputJson output).utf8Length = 43 + quotedBytes output.summary.1 +
      bytes (.obj output.data) + bytes (.arr (output.evidenceReferences.1.map (·.modelDump))) := by
  have hsummary : quotedBytes ("summary" : Text) = 9 := by decide
  have hdata : quotedBytes ("data" : Text) = 6 := by decide
  have hrefs : quotedBytes ("evidence_references" : Text) = 21 := by decide
  change bytes (.obj [("summary", .str output.summary.1), ("data", .obj output.data),
    ("evidence_references", .arr (output.evidenceReferences.1.map (·.modelDump)))]) = _
  rw [bytes_obj]
  simp only [List.map_cons, List.map_nil, List.sum_cons, List.sum_nil, List.length_cons,
    List.length_nil, bytes_str, hsummary, hdata, hrefs]
  omega

/-! ## The incident -/

/-- The row of an incident whose request was accepted. -/
def OfRequest (incident : Incident) : Prop :=
  ∃ (request : IncidentRequest) (time : Timestamp) (id : Int), Timestamp.InCalendar time ∧
    incident = { incidentRecord request (analyzeIncident request) time with id := id }

section
omit [Pydantic]

/-- The actions that the analyzer recommends are few and short. -/
theorem analyzeIncident_actions (request : IncidentRequest) :
    (analyzeIncident request).recommendedActions.length ≤ 3 ∧
      ∀ action ∈ (analyzeIncident request).recommendedActions, action.length ≤ 80 := by
  have hrules : ∀ rule ∈ Analyzer.rules, rule.recommendedActions.length ≤ 3 ∧
      ∀ action ∈ rule.recommendedActions, action.length ≤ 80 := by
    have hall : (Analyzer.rules.map (·.recommendedActions)).all (fun actions =>
        decide (actions.length ≤ 3) && actions.all fun action => decide (action.length ≤ 80)) =
          true := by decide
    intro rule hrule
    have h := List.all_eq_true.mp hall _ (List.mem_map_of_mem hrule)
    simpa [List.all_eq_true] using h
  unfold analyzeIncident
  dsimp only
  split
  · rename_i rule hrule
    exact hrules rule (List.mem_of_find?_eq_some hrule)
  · have hunknown : Analyzer.unknownActions.length ≤ 3 ∧
        ∀ action ∈ Analyzer.unknownActions, action.length ≤ 80 := by decide
    exact hunknown

/-- A list of short texts. -/
theorem bytes_texts_le (texts : List Text) {n : Nat} (h : ∀ text ∈ texts, text.length ≤ n) :
    bytes (.arr (texts.map .str)) ≤ 2 + texts.length * (3 + 6 * n) := by
  have hsum : ((texts.map Json.str).map bytes).sum ≤ texts.length * (2 + 6 * n) := by
    induction texts with
    | nil => exact Nat.zero_le _
    | cons text texts ih =>
        obtain ⟨htext, hrest⟩ := List.forall_mem_cons.mp h
        have hbytes := quotedBytes_le text
        have hmore := ih hrest
        rw [List.map_cons, List.map_cons, List.sum_cons, bytes_str, List.length_cons, Nat.succ_mul]
        omega
  have hmul : texts.length * (3 + 6 * n) = texts.length * (2 + 6 * n) + texts.length := by
    rw [← Nat.mul_succ]
    congr 1
    omega
  rw [bytes_arr, List.length_map, hmul]
  omega

theorem length_boundText_le (value : Text) (limit : Nat) :
    (boundText value limit).length ≤ limit := List.length_take_le ..

end

/-- What `get_incident` returns of an incident. -/
def incidentData (incident : Incident) : Dict Text Json :=
  [("incident_id", .int incident.id),
    ("service", .str incident.service),
    ("error", .str (boundText incident.error 1000)),
    ("classification", .str incident.classification.value),
    ("severity", .str incident.resolvedSeverity.value),
    ("probable_cause", .str (boundText incident.probableCause 1500)),
    ("recommended_actions", .arr ((incident.recommendedActions.take 8).map .str)),
    ("created_at", .str (Runtime.isoformat incident.createdAt)),
    ("raw_log_omitted", .bool true)]

/-- The summary of an incident. -/
def incidentSummary (incident : Incident) : Text :=
  "Loaded incident " ++ Text.ofInt incident.id ++ ": " ++ incident.classification.value ++
    ", severity " ++ incident.resolvedSeverity.value ++ "."

omit [Runtime] [Pydantic] in
theorem length_incidentSummary_le (incident : Incident) :
    (incidentSummary incident).length ≤ 64 + (Text.ofInt incident.id).length := by
  have hclass : incident.classification.value.length ≤ 25 := by
    cases incident.classification <;> decide
  have hseverity : incident.resolvedSeverity.value.length ≤ 8 := by
    cases incident.resolvedSeverity <;> decide
  have hloaded : ("Loaded incident " : Text).length = 16 := rfl
  have hcolon : (": " : Text).length = 2 := rfl
  have hcomma : (", severity " : Text).length = 11 := rfl
  have hstop : ("." : Text).length = 1 := rfl
  unfold incidentSummary
  simp only [List.length_append, hloaded, hcolon, hcomma, hstop]
  omega

omit [Pydantic] in
/-- The data of an incident takes at most what its bounds allow. -/
theorem incidentData_bytes_le
    (hiso : ∀ t, Timestamp.InCalendar t → (Runtime.isoformat t).length ≤ 32) {incident : Incident}
    (hincident : OfRequest incident) (hid : (Text.ofInt incident.id).length ≤ 160) :
    bytes (.obj (incidentData incident)) ≤ 18700 := by
  have hkeys : quotedBytes ("incident_id" : Text) = 13 ∧ quotedBytes ("service" : Text) = 9 ∧
    quotedBytes ("error" : Text) = 7 ∧ quotedBytes ("classification" : Text) = 16 ∧
    quotedBytes ("severity" : Text) = 10 ∧ quotedBytes ("probable_cause" : Text) = 16 ∧
    quotedBytes ("recommended_actions" : Text) = 21 ∧ quotedBytes ("created_at" : Text) = 12 ∧
    quotedBytes ("raw_log_omitted" : Text) = 17 := by decide
  obtain ⟨hkey₁, hkey₂, hkey₃, hkey₄, hkey₅, hkey₆, hkey₇, hkey₈, hkey₉⟩ := hkeys
  have hclass : quotedBytes incident.classification.value ≤ 27 := by
    cases incident.classification <;> decide
  have hseverity : quotedBytes incident.resolvedSeverity.value ≤ 10 := by
    cases incident.resolvedSeverity <;> decide
  have hidBytes := (Text.ofInt incident.id).utf8Length_le
  have herror := (quotedBytes_le (boundText incident.error 1000)).trans
    (Nat.add_le_add_left (Nat.mul_le_mul_left 6 (length_boundText_le _ _)) 2)
  have hcause := (quotedBytes_le (boundText incident.probableCause 1500)).trans
    (Nat.add_le_add_left (Nat.mul_le_mul_left 6 (length_boundText_le _ _)) 2)
  -- the rest is bounded by the schema of the request, the analyzer and the calendar
  have hservice : quotedBytes incident.service ≤ 602 := by
    obtain ⟨request, time, id, -, rfl⟩ := hincident
    have hbytes := quotedBytes_le request.service
    have hlength := request.service_length.2
    exact hbytes.trans (by omega)
  have hcreated : quotedBytes (Runtime.isoformat incident.createdAt) ≤ 194 := by
    obtain ⟨request, time, id, htime, rfl⟩ := hincident
    have hlength := hiso time htime
    have hbytes := quotedBytes_le (Runtime.isoformat time)
    exact hbytes.trans (by omega)
  have hactions : bytes (.arr ((incident.recommendedActions.take 8).map .str)) ≤ 1451 := by
    obtain ⟨request, time, id, -, rfl⟩ := hincident
    obtain ⟨hcount, hshort⟩ := analyzeIncident_actions request
    have hbytes := bytes_texts_le ((analyzeIncident request).recommendedActions.take 8)
      fun action haction => hshort action (List.mem_of_mem_take haction)
    have htaken : ((analyzeIncident request).recommendedActions.take 8).length ≤ 3 :=
      (List.length_take_le' ..).trans hcount
    exact hbytes.trans (by omega)
  unfold incidentData
  simp only [bytes_obj, List.map_cons, List.map_nil, List.sum_cons, List.sum_nil, List.length_cons,
    List.length_nil, bytes_str, bytes_int, bytes_true, hkey₁, hkey₂, hkey₃, hkey₄, hkey₅, hkey₆,
    hkey₇, hkey₈, hkey₉]
  omega

omit [Pydantic] in
/-- **An incident fits**: what is returned of an accepted request takes less than the limit. -/
theorem incident_fits
    (hiso : ∀ t, Timestamp.InCalendar t → (Runtime.isoformat t).length ≤ 32) {incident : Incident}
    (hincident : OfRequest incident) {output : ToolOutput}
    (houtput : BuiltOf (incidentSummary incident) (incidentData incident)
      [EvidenceReference.ofId .incident (Text.ofInt incident.id)] output) :
    (ToolExecutor.outputJson output).utf8Length ≤ maxToolResultBytes := by
  obtain ⟨hsummary, hdata, hrefs⟩ := houtput
  -- the identifier is no longer than a reference admits
  obtain ⟨ref, hrefs', href⟩ : ∃ ref, output.evidenceReferences.1 = [ref] ∧
      EvidenceReference.ofId .incident (Text.ofInt incident.id) = some ref := by
    cases hlist : output.evidenceReferences.1 with
    | nil => rw [hlist] at hrefs; cases hrefs
    | cons ref rest =>
        rw [hlist, List.map_cons, List.cons.injEq] at hrefs
        exact ⟨ref, by rw [List.map_eq_nil_iff.mp hrefs.2.symm], hrefs.1⟩
  obtain ⟨referenceId, hfield, hmake⟩ := Option.bind_eq_some_iff.mp href
  obtain rfl := Option.some.inj hmake
  have hid : (Text.ofInt incident.id).length ≤ 160 := field_eq_some hfield ▸ referenceId.2.2
  have hsummaryBytes := (quotedBytes_le (incidentSummary incident)).trans
    (Nat.add_le_add_left (Nat.mul_le_mul_left 6 (length_incidentSummary_le incident)) 2)
  have hdataBytes := incidentData_bytes_le hiso hincident hid
  have hreferenceBytes : bytes (.arr [EvidenceReference.modelDump
      ⟨.incident, referenceId, none, none⟩]) ≤ 1100 := by
    have htext := quotedBytes_le referenceId.1
    have hlength := referenceId.2.2
    have htype : quotedBytes EvidenceType.incident.value = 10 := by decide
    have hkeys : quotedBytes ("evidence_type" : Text) = 15 ∧
      quotedBytes ("reference_id" : Text) = 14 ∧ quotedBytes ("source_id" : Text) = 11 ∧
      quotedBytes ("chunk_id" : Text) = 10 := by decide
    obtain ⟨hkey₁, hkey₂, hkey₃, hkey₄⟩ := hkeys
    unfold EvidenceReference.modelDump
    simp only [bytes_arr, bytes_obj, List.map_cons, List.map_nil, List.sum_cons, List.sum_nil,
      List.length_cons, List.length_nil, bytes_str, Json.ofText, Option.map_none, bytes_null, htype,
      hkey₁, hkey₂, hkey₃, hkey₄]
    omega
  rw [utf8Length_outputJson, hsummary, hdata, hrefs', List.map_cons, List.map_nil,
    maxToolResultBytes]
  omega

/-! ## The runbooks -/

/-- **The bytes that a chunk takes** in the data and in the references: its identifiers three
times, and each of its texts once. -/
def chunkBytes (item : RetrievedChunk) : Nat :=
  141 + 3 * quotedBytes item.sourceId + 3 * (Text.ofInt item.chunkId).utf8Length +
    quotedBytes item.title + quotedBytes item.category +
    quotedBytes (boundText item.content 1200) +
    (Runtime.floatRepr (round6 item.similarity)).utf8Length

/-- **The bytes of the output** of a search: of the chunks, of the count in the summary, of the
names and marks around them, and of the commas between them in two lists. -/
def runbooksBytes (chunks : List RetrievedChunk) : Nat :=
  95 + (Text.ofNat chunks.length).utf8Length + (chunks.map chunkBytes).sum +
    2 * (chunks.length - 1)

/-- The reference of a chunk as it is dumped. -/
def referenceData (item : RetrievedChunk) : Json :=
  .obj [("evidence_type", .str "runbook"),
    ("reference_id", .str (chunkReferenceId item.sourceId (Text.ofInt item.chunkId))),
    ("source_id", .str item.sourceId),
    ("chunk_id", .int item.chunkId)]

omit [Runtime] [Pydantic] in
theorem ofChunk_modelDump {item : RetrievedChunk} {ref : EvidenceReference}
    (h : EvidenceReference.ofChunk (chunkReferenceId item.sourceId (Text.ofInt item.chunkId))
      item.sourceId item.chunkId = some ref) : ref.modelDump = referenceData item := by
  obtain ⟨referenceId, hreference, h⟩ := Option.bind_eq_some_iff.mp h
  obtain ⟨sourceId, hsource, h⟩ := Option.bind_eq_some_iff.mp h
  obtain ⟨chunkId, hchunk, h⟩ := Option.bind_eq_some_iff.mp h
  obtain rfl := Option.some.inj h
  rw [referenceData, ← field_eq_some hreference, ← field_eq_some hsource, ← field_eq_some hchunk]
  rfl

omit [Pydantic] in
/-- A chunk takes its bytes. -/
theorem bytes_chunk (item : RetrievedChunk) :
    bytes (chunkData item) + bytes (referenceData item) = chunkBytes item := by
  have hkeys : quotedBytes ("source_id" : Text) = 11 ∧ quotedBytes ("chunk_id" : Text) = 10 ∧
    quotedBytes ("title" : Text) = 7 ∧ quotedBytes ("category" : Text) = 10 ∧
    quotedBytes ("content" : Text) = 9 ∧ quotedBytes ("similarity" : Text) = 12 ∧
    quotedBytes ("evidence_type" : Text) = 15 ∧ quotedBytes ("reference_id" : Text) = 14 ∧
    quotedBytes ("runbook" : Text) = 9 := by decide
  obtain ⟨hkey₁, hkey₂, hkey₃, hkey₄, hkey₅, hkey₆, hkey₇, hkey₈, hkey₉⟩ := hkeys
  have hreference : quotedBytes (chunkReferenceId item.sourceId (Text.ofInt item.chunkId)) =
      quotedBytes item.sourceId + 1 + (Text.ofInt item.chunkId).utf8Length := by
    have hcolon : escapedBytes ':' = 1 := by decide
    have hdigits := quotedBytes_ofInt item.chunkId
    have happend := quotedBytes_append item.sourceId (':' :: Text.ofInt item.chunkId)
    rw [quotedBytes] at hdigits
    rw [quotedBytes.eq_1 (':' :: _), List.map_cons, List.sum_cons, hcolon] at happend
    rw [chunkReferenceId]
    omega
  unfold chunkData referenceData chunkBytes
  simp only [bytes_obj, List.map_cons, List.map_nil, List.sum_cons, List.sum_nil, List.length_cons,
    List.length_nil, bytes_str, bytes_int, bytes_finite, hreference, hkey₁, hkey₂, hkey₃, hkey₄,
    hkey₅, hkey₆, hkey₇, hkey₈, hkey₉]
  omega

omit [Pydantic] in
/-- **The size of a search**: what is returned of the chunks takes their bytes. -/
theorem runbooks_bytes {chunks : List RetrievedChunk} {output : ToolOutput}
    (houtput : BuiltOf ("Retrieved " ++ Text.ofNat chunks.length ++ " approved runbook chunks.")
      [("chunks", .arr (chunks.map chunkData))]
      (chunks.map fun item => EvidenceReference.ofChunk
        (chunkReferenceId item.sourceId (Text.ofInt item.chunkId)) item.sourceId item.chunkId)
      output) :
    (ToolExecutor.outputJson output).utf8Length = runbooksBytes chunks := by
  obtain ⟨hsummary, hdata, hrefs⟩ := houtput
  have hdumps : output.evidenceReferences.1.map (·.modelDump) = chunks.map referenceData := by
    have hall := forall₂_of_map_eq hrefs
    generalize output.evidenceReferences.1 = refs at hall
    clear hrefs hdata hsummary
    induction hall with
    | nil => rfl
    | cons href _ ih =>
        rw [List.map_cons, List.map_cons, ofChunk_modelDump href, ih]
  have hsum : ((chunks.map chunkData).map bytes).sum + ((chunks.map referenceData).map bytes).sum =
      (chunks.map chunkBytes).sum := by
    clear hsummary hdata hrefs hdumps
    induction chunks with
    | nil => rfl
    | cons item chunks ih =>
        simp only [List.map_cons, List.sum_cons, ← bytes_chunk]
        omega
  have hcount : quotedBytes ("Retrieved " ++ Text.ofNat chunks.length ++
      " approved runbook chunks." : Text) = 37 + (Text.ofNat chunks.length).utf8Length := by
    have hbefore : quotedBytes ("Retrieved " : Text) = 12 := by decide
    have hafter : quotedBytes (" approved runbook chunks." : Text) = 27 := by decide
    have hdigits := quotedBytes_ofInt chunks.length
    have happend := quotedBytes_append ("Retrieved " ++ Text.ofNat chunks.length)
      " approved runbook chunks."
    have happend' := quotedBytes_append "Retrieved " (Text.ofNat chunks.length)
    change quotedBytes (Text.ofNat chunks.length) = 2 + (Text.ofNat chunks.length).utf8Length
      at hdigits
    omega
  have hkey : quotedBytes ("chunks" : Text) = 8 := by decide
  rw [utf8Length_outputJson, hsummary, hdata, hdumps, hcount, runbooksBytes, ← hsum]
  simp only [bytes_obj, bytes_arr, List.map_cons, List.map_nil, List.sum_cons, List.sum_nil,
    List.length_cons, List.length_nil, List.length_map, hkey]
  omega

/-! ## The executor -/

variable {B : (o : Op) → Resp o → Prop}

/-- **The executor's verdict**: it returns what a tool yields within the limit, and rejects for
its size only what is above. -/
theorem execute_verdict {P : ToolOutput → Prop} (maxToolCalls : Nat) (request : ToolRequest)
    (context : ToolContext) (currentToolCalls : Nat)
    (htool : ∀ tool, ToolRegistry.get? request.toolName.1 = some tool → ∀ arguments : tool.Input,
      (tool.execute arguments context).Conforms (fun _ => True) B P (· ≠ resultTooLarge)) :
    (ToolExecutor.execute maxToolCalls request context currentToolCalls).Conforms (fun _ => True) B
      (fun _ => ∃ output, P output ∧
        (ToolExecutor.outputJson output).utf8Length ≤ maxToolResultBytes)
      fun e => e = resultTooLarge → ∃ output, P output ∧
        maxToolResultBytes < (ToolExecutor.outputJson output).utf8Length := by
  -- every other exception of the executor differs in its class or in its message
  have hother : ∀ {e : PyExc}, e ≠ resultTooLarge → e = resultTooLarge → ∃ output, P output ∧
      maxToolResultBytes < (ToolExecutor.outputJson output).utf8Length := fun hne h =>
    absurd h hne
  have hissue : ∀ (o : Op) (X : PyExc → Prop),
      (issue o).Conforms (fun _ => True) B (fun _ => True) X := fun _ _ =>
    issue_conforms trivial fun _ _ => trivial
  have hinvalid : ∀ rest : Text, (⟨.toolExecutionError, "Invalid arguments for " ++ rest⟩ : PyExc) ≠
      resultTooLarge := by
    intro rest h
    have hhead : (['I'] : Text) = ['T'] := congrArg (fun e : PyExc => e.message.take 1) h
    exact absurd hhead (by decide)
  have hfailed : ∀ rest : Text, (⟨.toolExecutionError, "Tool failed safely: " ++ rest⟩ : PyExc) ≠
      resultTooLarge := by
    intro rest h
    have hhead : ("Tool f" : Text) = "Tool r" := congrArg (fun e : PyExc => e.message.take 6) h
    exact absurd hhead (by decide)
  refine (raiseIf_conforms fun _ => hother (ne_resultTooLarge (by simp))).bind fun _ _ => ?_
  refine (raiseIf_conforms fun _ => hother (by decide)).bind fun _ _ => ?_
  cases hget : ToolRegistry.get? request.toolName.1 with
  | none => exact hother (ne_resultTooLarge (by simp))
  | some tool =>
      dsimp only
      unfold ToolExecutor.runTool
      cases tool.validate (.obj request.arguments) with
      | none =>
          refine hother ?_
          rw [List.append_assoc, List.append_assoc]
          exact hinvalid _
      | some arguments =>
          have hcall : (ToolExecutor.callTool tool.name (tool.execute arguments context)).Conforms
              (fun _ => True) B P (· ≠ resultTooLarge) := by
            refine Conforms.bind (hissue .toolTimedOut _) fun timedOut _ => ?_
            refine (raiseIf_conforms (X := (· ≠ resultTooLarge)) fun _ =>
              ne_resultTooLarge (by simp)).bind fun _ _ => ?_
            refine (htool tool hget arguments).tryCatch fun e he => ?_
            split
            · exact he
            · exact hfailed _
          refine (raiseIf_conforms fun _ => hother (ne_resultTooLarge (by simp))).bind fun _ _ => ?_
          refine Conforms.bind (hissue (.perfCounter none) _) fun started _ => ?_
          refine (hcall.mono (fun _ h => h) fun e he => hother he).bind fun output houtput => ?_
          refine Conforms.bind (Q := fun _ => True) ⟨trivial, fun _ _ => trivial⟩ fun elapsed _ => ?_
          generalize hsize : (ToolExecutor.outputJson output).utf8Length = size
          refine (raiseIf_conforms fun hlarge _ => ⟨output, houtput, hsize ▸ hlarge⟩).bind
            fun _ hfits => conforms_answer.mpr ⟨fun _ _ => ?_, fun e he => ?_⟩
          · exact ⟨output, houtput, hsize ▸ Nat.le_of_not_lt hfits⟩
          · rw [ToolExecutor.toolResult] at he
            split at he
            · cases he
            · cases he
              exact hother (ne_resultTooLarge (by simp [validationError]))

/-! ## The two tools -/

/-- What a call is answered while the incidents are those of accepted requests. -/
def AnsweredFrom {W : Type} [DecidableEq W] (env : Environment) (w : W) (o : Op) (r : Resp o) :
    Prop :=
  ∃ s : World W, (∀ incident ∈ s.db.incidents, OfRequest incident) ∧ permits env w s o r

/-- **`get_incident` fits**, whichever accepted incident it is asked for. -/
theorem getIncidentTool_fits {W : Type} [DecidableEq W]
    (hiso : ∀ t, Timestamp.InCalendar t → (Runtime.isoformat t).length ≤ 32) (env : Environment)
    (w : W) (input : GetIncidentInput) (context : ToolContext) :
    (getIncidentTool input context).Conforms (fun _ => True) (AnsweredFrom env w)
      (fun output => (ToolExecutor.outputJson output).utf8Length ≤ maxToolResultBytes)
      (· ≠ resultTooLarge) := by
  have hread : (requireIncident input.incidentId.1).Conforms (fun _ => True) (AnsweredFrom env w)
      OfRequest (· ≠ resultTooLarge) := by
    have hselect : (select (.incident input.incidentId.1)).Conforms (fun _ => True)
        (AnsweredFrom env w)
        (fun row => ∀ incident : Incident, row = some incident → OfRequest incident)
        (· ≠ resultTooLarge) := by
      refine select_conforms (A := fun _ => True) trivial ?_ ?_
      · rintro e ⟨s, -, hfault⟩
        exact ne_resultTooLarge (by rw [hfault.2]; nofun)
      · rintro row ⟨s, hs, hrow⟩ incident rfl
        exact hs incident (List.mem_of_find?_eq_some hrow.symm)
    refine hselect.bind fun row hrow => ?_
    cases row with
    | none =>
        intro h
        have hhead : (['I'] : Text) = ['T'] := congrArg (fun e : PyExc => e.message.take 1) h
        exact absurd hhead (by decide)
    | some incident => exact hrow incident rfl
  refine (withSession_conforms trivial hread).bind fun incident hincident => ?_
  refine toolOutput_built.mono (fun output houtput => ?_) fun e he => ?_
  · exact incident_fits hiso hincident houtput
  · exact ne_resultTooLarge (by rw [he]; nofun)

/-- The search finds these chunks. -/
def SearchFinds (chunks : List RetrievedChunk) : (o : Op) → Resp o → Prop
  | .retrieve _ _ _, r => r = .ok chunks
  | _, _ => True

/-- **`retrieve_runbooks` yields an output of the size of its chunks**. -/
theorem retrieveRunbooksTool_bytes (chunks : List RetrievedChunk) (input : RetrieveRunbooksInput)
    (context : ToolContext) :
    (retrieveRunbooksTool input context).Conforms (fun _ => True) (SearchFinds chunks)
      (fun output => (ToolExecutor.outputJson output).utf8Length = runbooksBytes chunks)
      (· ≠ resultTooLarge) := by
  refine ⟨trivial, fun r hr => ?_⟩
  obtain rfl := hr
  refine toolOutput_built.mono (fun output houtput => ?_) fun e he => ?_
  · exact runbooks_bytes houtput
  · exact ne_resultTooLarge (by rw [he]; nofun)

theorem get?_mandatory :
    ToolRegistry.get? "get_incident" = some ⟨"get_incident", GetIncidentInput,
      GetIncidentInput.ofJson, fun i => some i.incidentId.1, getIncidentTool⟩ ∧
    ToolRegistry.get? "retrieve_runbooks" = some ⟨"retrieve_runbooks", RetrieveRunbooksInput,
      RetrieveRunbooksInput.ofJson, fun _ => none, retrieveRunbooksTool⟩ := ⟨rfl, rfl⟩

/-- The chunk was ingested under a chunk size, from a source that a manifest lists, and its
columns took it. -/
structure Ingested (chunkSize : Nat) (item : RetrievedChunk) : Prop where
  source : ∃ entry : KnowledgeManifestEntry, item.sourceId = entry.sourceId.1 ∧
    item.title = entry.title.1 ∧ item.category = entry.category.1
  content : ∃ raw, item.content ∈
    (chunkDocument (fun _ => ()) (normalized raw) chunkSize).map (·.content)
  sourceId_length : item.sourceId.length ≤ 120
  chunkId_range : 1 ≤ item.chunkId ∧ item.chunkId ≤ 2147483647
  similarity_range : -1 ≤ item.similarity ∧ item.similarity ≤ 1

end

/-! ## Under the reference codec -/

open ReferenceCodec in
theorem length_isoformat_le (t : Timestamp) : (Runtime.isoformat t).length ≤ 32 := by
  have hdecimals : ∀ width n, (decimals width n).length = width := by
    intro width
    induction width with
    | zero => exact fun _ => rfl
    | succ width ih => intro n; rw [decimals, List.length_append, ih, List.length_singleton]
  have hfraction : ∀ us, (fractionText us ("+00:00" : Text)).length ≤ 13 := by
    intro us
    have htail : ("+00:00" : Text).length = 6 := rfl
    rw [fractionText]
    split
    · omega
    · rw [List.length_cons, List.length_append, hdecimals]
      omega
  change (wallText (t - Timestamp.min).toNat "+00:00").length ≤ 32
  have htail := hfraction ((t - Timestamp.min).toNat % dayLength % 1000000)
  unfold wallText
  dsimp only
  simp only [List.length_append, List.length_cons, hdecimals]
  omega

/-- A request for the incident of its execution. -/
def incidentRequest : ToolRequest := ⟨⟨"get_incident", by decide⟩, [("incident_id", .int 1)]⟩

/-- A paragraph of characters of three bytes. -/
def wideText : Text := List.replicate 1200 '語'

/-- Eight chunks of such paragraphs. -/
def wideChunks : List RetrievedChunk :=
  [1, 2, 3, 4, 5, 6, 7, 8].map fun (i : Int) => ⟨i, "runbook", "Runbook", "http", wideText, 1⟩

/-- A search for eight chunks. -/
def eightInput : RetrieveRunbooksInput := ⟨⟨"timeout", by decide⟩, none, ⟨8, by decide⟩⟩

/-- A context in which eight chunks may be found. -/
def eightContext : ToolContext := ⟨1, 8, some "timeout_error", 8, []⟩

set_option maxRecDepth 10000 in
theorem wideChunks_ingested : ∀ item ∈ wideChunks, Ingested 1200 item := by
  have hcontent : (chunkDocument (fun _ => ()) (normalized wideText) 1200).map (·.content) =
      [wideText] := by decide +kernel
  intro item hitem
  obtain ⟨i, hi, rfl⟩ := List.mem_map.mp hitem
  have hrange : 1 ≤ i ∧ i ≤ 8 := by
    simp only [List.mem_cons, List.not_mem_nil, or_false] at hi
    omega
  refine ⟨⟨⟨⟨"runbook", by decide⟩, "runbook.md", ⟨"Runbook", by decide⟩, ⟨"http", by decide⟩,
    ⟨"1", by decide⟩⟩, rfl, rfl, rfl⟩, ⟨wideText, ?_⟩, ?_, ⟨hrange.1, ?_⟩, ?_⟩
  · rw [hcontent]
    exact List.mem_singleton_self _
  · have hlength : ("runbook" : Text).length ≤ 120 := by decide
    exact hlength
  · exact hrange.2.trans (by decide)
  · exact ⟨by norm_num, le_refl _⟩

end SupportPlatform

