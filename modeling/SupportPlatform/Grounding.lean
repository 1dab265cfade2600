import SupportPlatform.StepBudgets

/-! # Grounded resolutions

What a completed resolution says comes from the log of its execution: the required tools have
run first, the tools are those that succeeded, and every citation is a runbook reference of a
succeeded step and a chunk of the stored context.

The invariant ties three things together: what the rows of the log store, what the worker has
in memory of it, and the chunks that both of them hold.  Results that are read back have been
sanitized once more, which keeps references and chunks (`Traceable.restore`).
-/
namespace SupportPlatform
open Program ControlledAgentWorkflow

section
variable [Runtime] [Pydantic]

/-! ## What a row stores -/

/-- The row of a succeeded tool call with this result. -/
structure Stores (step : AgentStep) (r : ToolResult) : Prop where
  action : step.actionType = .tool
  outcome : step.outcome = .succeeded
  summary : step.resultSummary = some (sanitizeValue r.modelDump)
  references : step.evidenceReferences = r.evidenceReferences.1.map (·.modelDump)

/-- **The evidence of a row**: the result that it stores, and the chunks that this holds. -/
structure Evidenced (step : AgentStep) (r : ToolResult) (pairs : List ChunkPair) : Prop where
  stores : Stores step r
  traceable : Traceable (runbookPairs r.evidenceReferences.1) pairs r.data r.evidenceReferences.1

/-- A chunk that a row of the log holds. -/
def Held (steps : List AgentStep) (p : ChunkPair) : Prop :=
  ∃ step ∈ steps, ∃ r pairs, Evidenced step r pairs ∧ p ∈ pairs

omit [Pydantic] in
theorem Held.append {steps : List AgentStep} {p : ChunkPair} (h : Held steps p)
    (more : List AgentStep) : Held (steps ++ more) p := by
  obtain ⟨step, hstep, h⟩ := h
  exact ⟨step, List.mem_append_left more hstep, h⟩

section
omit [Pydantic] [Runtime]

theorem Traceable.self {before pairs : List ChunkPair} {data : Dict Text Json}
    {refs : List EvidenceReference} (h : Traceable before pairs data refs) :
    Traceable (runbookPairs refs) pairs data refs :=
  ⟨h.named, h.holds, h.pairs_named, fun _ hp => .inr hp⟩

theorem IsChunk.unique {p q : ChunkPair} {item : Json} (h : IsChunk p item) (h' : IsChunk q item) :
    p = q := by
  obtain ⟨_, _, _, _, rfl⟩ := h
  obtain ⟨_, _, _, _, h'⟩ := h'
  simp only [Json.obj.injEq, List.cons.injEq, Prod.mk.injEq, Json.str.injEq, Json.int.injEq,
    true_and] at h'
  exact Prod.ext h'.1 h'.2.1

theorem HoldsChunks.unique {data : Dict Text Json} {pairs pairs' : List ChunkPair}
    (h : HoldsChunks data pairs) (h' : HoldsChunks data pairs') : pairs = pairs' := by
  have hnil : ∀ {items : List Json}, data = ([("chunks", .arr items)] : Dict Text Json) →
      ("chunks" : Text) ∈ data.keys := fun h => h ▸ List.mem_cons_self
  rcases h with ⟨items, hdata, -, hitems⟩ | ⟨hkeys, rfl⟩
  · rcases h' with ⟨items', hdata', -, hitems'⟩ | ⟨hkeys, -⟩
    · rw [hdata] at hdata'
      simp only [List.cons.injEq, Prod.mk.injEq, Json.arr.injEq, true_and, and_true] at hdata'
      subst hdata'
      clear hdata hnil
      induction hitems generalizing pairs' with
      | nil =>
          cases hitems'
          rfl
      | cons hp _ ih =>
          cases hitems' with
          | cons hq hrest => rw [hp.unique hq, ih hrest]
    · exact absurd (hnil hdata) hkeys
  · rcases h' with ⟨items', hdata', -, -⟩ | ⟨-, rfl⟩
    · exact absurd (hnil hdata') hkeys
    · rfl

end

omit [Pydantic] in
/-- A row holds the chunks of one list only. -/
theorem Evidenced.unique {step : AgentStep} {r r' : ToolResult} {pairs pairs' : List ChunkPair}
    (h : Evidenced step r pairs) (h' : Evidenced step r' pairs') : pairs = pairs' := by
  have hdump : sanitizeValue r.modelDump = sanitizeValue r'.modelDump :=
    Option.some.inj (h.stores.summary.symm.trans h'.stores.summary)
  have hdata : ∀ r : ToolResult, (sanitizeValue r.modelDump).get? "data" =
      some (.obj (sanitizeEntries (sanitizeLevels 3) r.data)) := fun _ => rfl
  have hsame := (hdata r).symm.trans ((congrArg (·.get? "data") hdump).trans (hdata r'))
  rw [Option.some.injEq, Json.obj.injEq] at hsame
  have hp := h.traceable.holds.sanitize h.traceable.pairs_named 0
  have hp' := h'.traceable.holds.sanitize h'.traceable.pairs_named 0
  rw [hsame] at hp
  exact hp.unique hp'

omit [Pydantic] in
/-- The runbook references of a row are those of the result it stores. -/
theorem Stores.runbookPairs_iff {step : AgentStep} {r : ToolResult} (h : Stores step r)
    {p : ChunkPair} : p ∈ runbookPairs r.evidenceReferences.1 ↔
      ∃ entry ∈ step.evidenceReferences, runbookEntry p entry := by
  rw [h.references, exists_runbookEntry]

/-! ## The log and the memory of a worker -/

/-- The rows of the succeeded tool calls. -/
def succeededRows (steps : List AgentStep) : List AgentStep :=
  steps.filter fun step => step.outcome = .succeeded

section
omit [Runtime] [Pydantic]

theorem mem_succeededRows {steps : List AgentStep} {step : AgentStep} :
    step ∈ succeededRows steps ↔ step ∈ steps ∧ step.outcome = .succeeded := by
  rw [succeededRows, List.mem_filter, decide_eq_true_eq]

theorem succeededRows_other {steps : List AgentStep} {record : AgentStep}
    (h : record.outcome ≠ .succeeded) : succeededRows (steps ++ [record]) = succeededRows steps := by
  simp [succeededRows, h]

theorem succeededRows_succeeded {steps : List AgentStep} {record : AgentStep}
    (h : record.outcome = .succeeded) :
    succeededRows (steps ++ [record]) = succeededRows steps ++ [record] := by
  simp [succeededRows, h]

end

/-- The required tools have run first, in order, and the first one for the incident. -/
def Ordered (i : Int) : List AgentStep → Prop
  | [] => True
  | first :: rest => first.toolName = some ("get_incident" : Text) ∧
      first.sanitizedArguments = some (.obj [("incident_id", .int i)]) ∧
      ∀ second ∈ rest.head?, second.toolName = some ("retrieve_runbooks" : Text)

/-- **What the log holds**: its rows are numbered, the required tools come first, and every
runbook reference of a row is a chunk of some row. -/
structure GroundedLog (i : Int) (steps : List AgentStep) : Prop where
  numbered : steps.map (·.stepNumber) = List.range' 1 steps.length
  ordered : Ordered i (succeededRows steps)
  evidence : ∀ step ∈ succeededRows steps, ∃ r pairs, Evidenced step r pairs ∧
    ∀ p ∈ runbookPairs r.evidenceReferences.1, Held steps p

/-- A result in memory, and the row that stores it. -/
def Ties (step : AgentStep) (entry : Nat × ToolResult) : Prop :=
  entry.1 = step.stepNumber ∧ ∃ r pairs, Evidenced step r pairs ∧
    runbookPairs entry.2.evidenceReferences.1 = runbookPairs r.evidenceReferences.1 ∧
    (∀ ref ∈ entry.2.evidenceReferences.1, ref.Named) ∧ HoldsChunks entry.2.data pairs

/-- **What a worker has in memory** is tied to the log, row by row. -/
structure GroundedState (i : Int) (st : LoopState) : Prop where
  log : GroundedLog i st.steps
  results : List.Forall₂ Ties (succeededRows st.steps) st.results

omit [Pydantic] in
/-- A row that is no succeeded tool call changes nothing. -/
theorem GroundedLog.other {i : Int} {steps : List AgentStep} (h : GroundedLog i steps)
    {record : AgentStep} (hnumber : record.stepNumber = steps.length + 1)
    (ho : record.outcome ≠ .succeeded) : GroundedLog i (steps ++ [record]) := by
  refine ⟨?_, ?_, fun step hstep => ?_⟩
  · rw [List.map_append, h.numbered, List.length_append, List.length_singleton,
      List.range'_1_concat, List.map_singleton, hnumber, Nat.add_comm 1]
  · rw [succeededRows_other ho]
    exact h.ordered
  · rw [succeededRows_other ho] at hstep
    obtain ⟨r, pairs, hr, hheld⟩ := h.evidence step hstep
    exact ⟨r, pairs, hr, fun p hp => (hheld p hp).append _⟩

/-- What is read back from the rows is tied to them. -/
theorem restoreResult_ties (hint : ∀ i : Int, Pydantic.intOf (.int i) = some i)
    {steps : List AgentStep} :
    ∀ {found results : Results}, (steps.map (·.stepNumber)).Nodup →
      (∀ step ∈ steps, step.stepNumber ∉ found.keys) →
      (∀ step ∈ succeededRows steps, ∃ r pairs, Evidenced step r pairs) →
      steps.foldlM restoreResult found = .ok results →
      ∃ added, results = found ++ added ∧ List.Forall₂ Ties (succeededRows steps) added := by
  induction steps with
  | nil =>
      intro found results _ _ _ h
      cases h
      exact ⟨[], (List.append_nil _).symm, .nil⟩
  | cons step steps ih =>
      intro found results hnodup hfresh hevidence h
      obtain ⟨hnew, hnodup⟩ := List.nodup_cons.mp hnodup
      have hfreshRest : ∀ next ∈ steps, next.stepNumber ∉ found.keys := fun next hnext =>
        hfresh next (List.mem_cons_of_mem _ hnext)
      rw [List.foldlM_cons] at h
      by_cases ho : step.outcome = .succeeded
      · have hrows : succeededRows (step :: steps) = step :: succeededRows steps := by
          simp [succeededRows, ho]
        rw [hrows] at hevidence ⊢
        obtain ⟨r, pairs, hr⟩ := hevidence step List.mem_cons_self
        cases hread : ToolResult.ofJson (sanitizeValue r.modelDump) with
        | none =>
            rw [restoreResult, if_pos ⟨hr.stores.action, ho⟩, hr.stores.summary] at h
            simp only [ToolResult.modelValidate, validated, hread] at h
            cases h
        | some result =>
            have hrestore : restoreResult found step =
                .ok (found ++ [(step.stepNumber, result)]) := by
              rw [restoreResult, if_pos ⟨hr.stores.action, ho⟩, hr.stores.summary]
              simp only [ToolResult.modelValidate, validated, hread]
              exact congrArg Except.ok (Dict.set_of_notMem (hfresh step List.mem_cons_self) _)
            have hfresh' : ∀ next ∈ steps,
                next.stepNumber ∉ Dict.keys (found ++ [(step.stepNumber, result)]) := by
              intro next hnext hmem
              rw [Dict.keys, List.map_append, List.mem_append] at hmem
              rcases hmem with hmem | hmem
              · exact hfreshRest next hnext hmem
              · rw [List.map_singleton, List.mem_singleton] at hmem
                exact hnew (List.mem_map.mpr ⟨next, hnext, hmem⟩)
            rw [hrestore] at h
            obtain ⟨added, rfl, hties⟩ := ih hnodup hfresh'
              (fun next hnext => hevidence next (List.mem_cons_of_mem _ hnext)) h
            obtain ⟨hpairs, htrace⟩ := hr.traceable.restore hint hread
            exact ⟨(step.stepNumber, result) :: added, by simp, .cons ⟨rfl, r, pairs, hr, hpairs,
              htrace.named, htrace.holds⟩ hties⟩
      · have hrows : succeededRows (step :: steps) = succeededRows steps := by
          simp [succeededRows, ho]
        have hskip : restoreResult found step = .ok found := if_neg fun hboth => ho hboth.2
        rw [hskip] at h
        rw [hrows] at hevidence ⊢
        exact ih hnodup hfreshRest hevidence h

/-- **A log that is read back** is tied to its results. -/
theorem GroundedLog.restore (hint : ∀ i : Int, Pydantic.intOf (.int i) = some i) {i : Int}
    {steps : List AgentStep} {results : Results} (h : GroundedLog i steps)
    (hr : restoreResults steps = .ok results) :
    GroundedState i (initialState steps results) := by
  have hnodup : (steps.map (·.stepNumber)).Nodup := h.numbered ▸ List.nodup_range'
  obtain ⟨added, hadded, hties⟩ := restoreResult_ties hint hnodup (fun _ _ => List.not_mem_nil)
    (fun step hstep => by
      obtain ⟨r, pairs, hr, -⟩ := h.evidence step hstep
      exact ⟨r, pairs, hr⟩) hr
  exact ⟨h, hadded ▸ hties⟩

namespace GroundedState
variable {i : Int} {st : LoopState} (h : GroundedState i st)
include h

section
omit [Pydantic]

/-- The chunks that the results name are those that the rows refer to. -/
theorem mem_namedPairs {p : ChunkPair} : p ∈ namedPairs st.results ↔
    ∃ step ∈ succeededRows st.steps, ∃ entry ∈ step.evidenceReferences, runbookEntry p entry := by
  rw [namedPairs, List.mem_flatMap]
  constructor
  · rintro ⟨result, hresult, hp⟩
    obtain ⟨entry, hentry, rfl⟩ := List.mem_map.mp hresult
    obtain ⟨step, hstep, -, r, pairs, hr, hpairs, -⟩ := exists_of_forall₂_right h.results hentry
    rw [hpairs] at hp
    exact ⟨step, hstep, hr.stores.runbookPairs_iff.mp hp⟩
  · rintro ⟨step, hstep, hp⟩
    obtain ⟨entry, hentry, -, r, pairs, hr, hpairs, -⟩ := exists_of_forall₂_left h.results hstep
    refine ⟨entry.2, List.mem_map.mpr ⟨entry, hentry, rfl⟩, ?_⟩
    rw [hpairs]
    exact hr.stores.runbookPairs_iff.mpr hp

/-- A chunk that the results name is held by the log. -/
theorem held_of_named {p : ChunkPair} (hp : p ∈ namedPairs st.results) : Held st.steps p := by
  obtain ⟨step, hstep, hentry⟩ := h.mem_namedPairs.mp hp
  obtain ⟨r, pairs, hr, hheld⟩ := h.log.evidence step hstep
  exact hheld p (hr.stores.runbookPairs_iff.mpr hentry)

/-- A chunk that the log holds is held by a result. -/
theorem exists_result {p : ChunkPair} (hp : Held st.steps p) :
    ∃ result ∈ st.results.values, ∃ pairs, HoldsChunks result.data pairs ∧ p ∈ pairs := by
  obtain ⟨step, hstep, r, pairs, hr, hp⟩ := hp
  have hrow := mem_succeededRows.mpr ⟨hstep, hr.stores.outcome⟩
  obtain ⟨entry, hentry, -, r', pairs', hr', -, -, hholds⟩ := exists_of_forall₂_left h.results hrow
  rw [← hr.unique hr'] at hholds
  exact ⟨entry.2, List.mem_map.mpr ⟨entry, hentry, rfl⟩, pairs, hholds, hp⟩

theorem namedResults : NamedResults st.results := by
  intro result hresult
  obtain ⟨entry, hentry, rfl⟩ := List.mem_map.mp hresult
  obtain ⟨step, -, -, r, pairs, -, -, hnamed, -⟩ := exists_of_forall₂_right h.results hentry
  exact hnamed

theorem holdsChunks : ∀ result ∈ st.results.values,
    ∃ pairs, HoldsChunks result.data pairs ∧ ∀ p ∈ pairs, p.Named := by
  intro result hresult
  obtain ⟨entry, hentry, rfl⟩ := List.mem_map.mp hresult
  obtain ⟨step, -, -, r, pairs, hr, -, -, hholds⟩ := exists_of_forall₂_right h.results hentry
  exact ⟨pairs, hholds, hr.traceable.pairs_named⟩

/-- The numbers of the results are numbers of rows. -/
theorem fresh : st.steps.length + 1 ∉ st.results.keys := by
  intro hmem
  obtain ⟨entry, hentry, hkey⟩ := List.mem_map.mp hmem
  obtain ⟨step, hstep, hnumber, -⟩ := exists_of_forall₂_right h.results hentry
  have hin := List.mem_map_of_mem (f := (·.stepNumber)) (mem_succeededRows.mp hstep).1
  rw [h.log.numbered, List.mem_range'_1] at hin
  omega

end

end GroundedState

/-! ## A succeeded tool call -/

omit [Runtime] [Pydantic] in
theorem succeededTools_eq (steps : List AgentStep) : succeededTools steps =
    (succeededRows steps).filterMap fun step => step.toolName.filter fun name => name ≠ [] := rfl

omit [Pydantic] in
/-- The row of a succeeded tool call stores its evidence. -/
theorem toolStepRecord_evidenced {x : Uuid} {n : Nat} {decision : PlannerDecision}
    {request : ToolRequest} {result : ToolResult} {before pairs : List ChunkPair}
    (h : Traceable before pairs result.data result.evidenceReferences.1) :
    Evidenced (toolStepRecord x n decision request result) result pairs :=
  ⟨⟨rfl, rfl, rfl, rfl⟩, h.self⟩

/-- **The order is kept**: while a required tool is missing, nothing else can be called. -/
theorem ordered_tool (hint : ∀ i : Int, Pydantic.intOf (.int i) = some i)
    {wf : ControlledAgentWorkflow} {event : IncidentCreatedEvent} {grounded : Prop}
    {st : LoopState} {decision : PlannerDecision} {request : ToolRequest} {result : ToolResult}
    (hcall : ToolCall wf event grounded st decision request result) (x : Uuid)
    (h : Ordered event.incidentId (succeededRows st.steps)) :
    Ordered event.incidentId (succeededRows st.steps ++
      [toolStepRecord x (st.steps.length + 1) decision request result]) := by
  have hmeets := hcall.meets
  have haction := hcall.action
  rw [missingRequiredEvidence, succeededTools_eq] at hmeets
  generalize hrows : succeededRows st.steps = rows at *
  rcases rows with _ | ⟨first, _ | ⟨second, rest⟩⟩
  · -- nothing has succeeded yet, so the call is for the incident
    obtain ⟨hname, n, hdecision⟩ := hmeets.1 (by decide)
    rw [haction] at hdecision
    injection hdecision with hname harguments
    obtain ⟨input, hinput, hincident⟩ := hcall.executed.incident (by rw [hname])
    rw [harguments] at hinput
    have hn : input.incidentId.1 = n := by
      simp only [GetIncidentInput.ofJson, Option.bind_eq_bind, Option.bind_eq_some_iff] at hinput
      obtain ⟨entries, hentries, incidentId, hid, hinput⟩ := hinput
      cases hinput
      obtain rfl := strictEntries_obj hentries
      obtain ⟨value, hvalue, hread⟩ := hid
      obtain rfl : Json.int n = value := Option.some.inj hvalue
      rw [positiveInt, hint, Option.bind_some] at hread
      exact field_eq_some hread
    refine ⟨congrArg (fun name : BoundedText 1 80 => some name.1) hname, ?_,
      fun _ hsecond => by cases hsecond⟩
    show some (sanitizeValue (.obj request.arguments)) = _
    rw [harguments, ← hn, hincident]
    rfl
  · obtain ⟨hfirst, hincident, -⟩ := h
    obtain ⟨hname, arguments, hdecision⟩ := hmeets.2 (by simp [hfirst])
    rw [haction] at hdecision
    injection hdecision with hname harguments
    refine ⟨hfirst, hincident, fun second hsecond => ?_⟩
    cases hsecond
    exact congrArg (fun name : BoundedText 1 80 => some name.1) hname
  · exact ⟨h.1, h.2.1, h.2.2⟩

/-- **A succeeded tool call** keeps what the log holds, and what ties the results to it. -/
theorem GroundedState.tool (hint : ∀ i : Int, Pydantic.intOf (.int i) = some i)
    {wf : ControlledAgentWorkflow} {event : IncidentCreatedEvent} {st : LoopState}
    {decision : PlannerDecision} {request : ToolRequest} {result : ToolResult}
    (h : GroundedState event.incidentId st)
    (hcall : ToolCall wf event True st decision request result) (x : Uuid) (sig : Text) :
    GroundedState event.incidentId (LoopState.record st
      (toolStepRecord x (st.steps.length + 1) decision request result) result sig) := by
  obtain ⟨pairs, htrace⟩ := hcall.executed.follows trivial h.namedResults
  have hevidenced : Evidenced (toolStepRecord x (st.steps.length + 1) decision request result)
      result pairs := toolStepRecord_evidenced htrace
  have hrows : succeededRows (st.steps ++
      [toolStepRecord x (st.steps.length + 1) decision request result]) =
      succeededRows st.steps ++
        [toolStepRecord x (st.steps.length + 1) decision request result] :=
    succeededRows_succeeded hevidenced.stores.outcome
  refine ⟨⟨?_, ?_, fun step hstep => ?_⟩, ?_⟩
  · show List.map _ (st.steps ++ [_]) = List.range' 1 (st.steps ++ [_]).length
    rw [List.map_append, h.log.numbered, List.length_append, List.length_singleton,
      List.range'_1_concat, List.map_singleton, Nat.add_comm 1]
    rfl
  · show Ordered _ (succeededRows (st.steps ++ [_]))
    rw [hrows]
    exact ordered_tool hint hcall x h.log.ordered
  · have hstep' : step ∈ succeededRows st.steps ++ [_] := hrows ▸ hstep
    rcases List.mem_append.mp hstep' with hstep | hstep
    · obtain ⟨r, pairs, hr, hheld⟩ := h.log.evidence step hstep
      exact ⟨r, pairs, hr, fun p hp => (hheld p hp).append _⟩
    · rw [List.mem_singleton.mp hstep]
      refine ⟨result, pairs, hevidenced, fun p hp => ?_⟩
      rcases htrace.covered p hp with hp | hp
      · exact ⟨_, List.mem_append_right _ (List.mem_singleton.mpr rfl), result, pairs,
          hevidenced, hp⟩
      · exact (h.held_of_named hp).append _
  · show List.Forall₂ Ties (succeededRows (st.steps ++ [_]))
      (Dict.set st.results (st.steps.length + 1) result)
    rw [hrows, Dict.set_of_notMem h.fresh result]
    refine List.rel_append h.results (.cons ⟨rfl, result, pairs, hevidenced, rfl, ?_, ?_⟩ .nil)
    · exact htrace.named
    · exact htrace.holds

/-- **The law of the evidence.** -/
def evidenceLaw (hint : ∀ i : Int, Pydantic.intOf (.int i) = some i) : LogLaw where
  Allows _ := True
  grounded := True
  Good := GroundedLog
  Holds := GroundedState
  nil _ := ⟨rfl, trivial, nofun⟩
  restored _ _ _ hgood hr := hgood.restore hint hr
  frame _ _ _ _ h := ⟨h.log, h.results⟩
  tool wf event x st decision request result _ hholds hcall := by
    have h := hholds.tool hint hcall x (signature request.toolName.1 (.obj request.arguments))
    exact ⟨h.log, h⟩
  rejected wf i x st decision request outcome _ hholds hr := by
    have hother : (rejectedStepRecord x (st.steps.length + 1) decision request outcome).outcome ≠
        .succeeded := hr.outcome.1
    have hlog := hholds.log.other rfl hother
    exact ⟨hlog, hlog, (succeededRows_other hother).symm ▸ hholds.results⟩
  final wf i x st decision final _ hholds _ := hholds.log.other rfl
    (show StepOutcome.completed ≠ .succeeded by decide)
  context i st context _ hholds hcontext := by
    obtain ⟨context', hcontext', hchunks, -⟩ := retrievedContext_of_holds hholds.holdsChunks
    cases hcontext.symm.trans hcontext'
    exact hchunks

/-! ## Completed resolutions -/

/-- A succeeded step of the log has a runbook reference to the chunk. -/
def Referenced (log : List AgentStep) (p : ChunkPair) : Prop :=
  ∃ step ∈ log, step.outcome = .succeeded ∧ ∃ entry ∈ step.evidenceReferences, runbookEntry p entry

/-- Some succeeded step of the log has a runbook reference. -/
def HasRunbook (log : List AgentStep) : Prop :=
  ∃ step ∈ log, step.outcome = .succeeded ∧
    ∃ entry ∈ step.evidenceReferences, entry.get? "evidence_type" = some (.str "runbook")

/-- **A grounded resolution** of an incident: what it says comes from the log. -/
structure GroundedResolution (i : Int) (log : List AgentStep) (resolution : Resolution) :
    Prop where
  required : ∃ first second rest,
    (log.filter fun step => step.outcome = .succeeded) = first :: second :: rest ∧
    first.toolName = some ("get_incident" : Text) ∧
    first.sanitizedArguments = some (.obj [("incident_id", .int i)]) ∧
    second.toolName = some ("retrieve_runbooks" : Text)
  toolsUsed : resolution.toolsUsed = some (fromKeys (succeededTools log))
  citations : ∃ (cited : List SourceCitation) (context : List Json),
    resolution.citedSources = some (cited.map (·.modelDump)) ∧
    resolution.retrievedContext = some context ∧ (cited.map (·.pair)).Nodup ∧
    (∀ c ∈ cited, Referenced log (c.sourceId.1, c.chunkId.1) ∧
      ∃ item ∈ context, IsChunk (c.sourceId.1, c.chunkId.1) item) ∧
    (HasRunbook log → cited ≠ [])
  ungrounded : ¬ HasRunbook log → ∃ (confidence : Float64) (limitations : List Text),
    resolution.confidence = some confidence ∧ confidence.le (.finite (1 / 2)) = true ∧
    resolution.escalationRequired = some true ∧
    resolution.humanReviewRecommended = some true ∧
    resolution.limitations = some limitations ∧ limitations ≠ []

omit [Pydantic] [Runtime] in
/-- The pairs that may be cited are the chunks that the results name. -/
theorem mem_allowedPairs {results : Results} (h : NamedResults results)
    {pair : Option Text × Option Int} : pair ∈ allowedPairs (evidenceReferences results) ↔
      ∃ p ∈ namedPairs results, pair = (some p.1, some p.2) := by
  simp only [allowedPairs, List.mem_map, List.mem_filter, evidenceReferences, distinctReferences,
    mem_fromKeys, List.mem_flatMap, decide_eq_true_eq, namedPairs, mem_runbookPairs]
  constructor
  · rintro ⟨ref, ⟨⟨result, hresult, href⟩, htype⟩, rfl⟩
    obtain ⟨source, chunk, hsource, hchunk, -⟩ := h result hresult ref href htype
    have hpair : ref.pair = (some source.1, some chunk.1) := by
      rw [EvidenceReference.pair, hsource, hchunk]
      rfl
    exact ⟨(source.1, chunk.1), ⟨result, hresult, ref, href, htype, hpair⟩, hpair⟩
  · rintro ⟨p, ⟨result, hresult, ref, href, htype, hpair⟩, rfl⟩
    exact ⟨ref, ⟨⟨result, hresult, href⟩, htype⟩, hpair⟩

namespace GroundedState
variable {i : Int} {st : LoopState} (h : GroundedState i st)
include h

omit [Pydantic] in
theorem mem_namedPairs_iff {p : ChunkPair} :
    p ∈ namedPairs st.results ↔ Referenced st.steps p := by
  rw [h.mem_namedPairs]
  constructor
  · rintro ⟨step, hstep, hentry⟩
    obtain ⟨hstep, ho⟩ := mem_succeededRows.mp hstep
    exact ⟨step, hstep, ho, hentry⟩
  · rintro ⟨step, hstep, ho, hentry⟩
    exact ⟨step, mem_succeededRows.mpr ⟨hstep, ho⟩, hentry⟩

omit [Pydantic] in
/-- A runbook reference of the log names a chunk. -/
theorem hasRunbook_iff : HasRunbook st.steps ↔
    allowedPairs (evidenceReferences st.results) ≠ [] := by
  rw [ne_eq, List.eq_nil_iff_forall_not_mem, not_forall_not]
  constructor
  · rintro ⟨step, hstep, ho, entry, hentry, htype⟩
    have hrow := mem_succeededRows.mpr ⟨hstep, ho⟩
    obtain ⟨r, pairs, hr, -⟩ := h.log.evidence step hrow
    rw [hr.stores.references] at hentry
    obtain ⟨ref, href, rfl⟩ := List.mem_map.mp hentry
    have hrunbook : ref.evidenceType = .runbook := by
      have hvalue : some (Json.str ref.evidenceType.value) = some (.str "runbook") := htype
      rw [Option.some.injEq, Json.str.injEq] at hvalue
      cases ht : ref.evidenceType <;> rw [ht] at hvalue <;> first | rfl | exact absurd hvalue (by decide)
    obtain ⟨source, chunk, hsource, hchunk, -⟩ := hr.traceable.named ref href hrunbook
    have hpair : ref.pair = (some source.1, some chunk.1) := by
      rw [EvidenceReference.pair, hsource, hchunk]
      rfl
    refine ⟨_, (mem_allowedPairs h.namedResults).mpr ⟨(source.1, chunk.1), ?_, rfl⟩⟩
    rw [h.mem_namedPairs]
    exact ⟨step, hrow, hr.stores.runbookPairs_iff.mp (mem_runbookPairs.mpr
      ⟨ref, href, hrunbook, hpair⟩)⟩
  · rintro ⟨pair, hpair⟩
    obtain ⟨p, hp, -⟩ := (mem_allowedPairs h.namedResults).mp hpair
    obtain ⟨step, hstep, ho, entry, hentry, htype, -⟩ := h.mem_namedPairs_iff.mp hp
    exact ⟨step, hstep, ho, entry, hentry, htype⟩

end GroundedState

/-- **A final response that passed its checks** makes a grounded resolution. -/
theorem grounded_of_final (hint : ∀ i : Int, Pydantic.intOf (.int i) = some i) {x : Uuid} {i : Int}
    {st : LoopState} {final : AgentFinalResponse} {record : AgentStep} {db db' : Database}
    (h : FinalCommit (evidenceLaw hint) x i st final record db db') :
    ∃ resolution, db'.resolutionOf i = some resolution ∧
      GroundedResolution i (db'.stepsOf x) resolution := by
  obtain ⟨context, resolution, hcontext, hresolution, hcontent⟩ := h.resolution
  refine ⟨resolution, hresolution, ?_⟩
  have hstate : GroundedState i st := h.holds
  simp only [Resolution.content, Prod.mk.injEq] at hcontent
  obtain ⟨hconfidence, hcited, htools, hlimitations, hescalation, hreview, hstored⟩ := hcontent
  have hother : record.outcome ≠ .succeeded := by
    rw [h.recorded.2]
    decide
  -- the row of the final response is none of a tool
  have hrows : succeededRows (db'.stepsOf x) = succeededRows st.steps := by
    rw [h.extended, succeededRows_other hother]
  have hreferenced : ∀ p, Referenced (db'.stepsOf x) p ↔ Referenced st.steps p := by
    intro p
    simp only [Referenced, ← and_assoc, ← mem_succeededRows, hrows]
  have hrunbook : HasRunbook (db'.stepsOf x) ↔ HasRunbook st.steps := by
    simp only [HasRunbook, ← and_assoc, ← mem_succeededRows, hrows]
  have hused : succeededTools (db'.stepsOf x) = succeededTools st.steps := by
    rw [succeededTools_eq, hrows, ← succeededTools_eq]
  refine ⟨?_, ?_, ⟨final.citedSources, context, hcited, hstored, h.validated.distinct,
    fun c hc => ?_, fun hhas => ?_⟩, fun hnone => ?_⟩
  · have hordered := hstate.log.ordered
    have hcomplete := h.complete
    rw [missingRequiredEvidence, succeededTools_eq] at hcomplete
    show ∃ first second rest, succeededRows (db'.stepsOf x) = _ ∧ _
    rw [hrows]
    generalize succeededRows st.steps = rows at *
    rcases rows with _ | ⟨first, _ | ⟨second, rest⟩⟩
    · exact absurd hcomplete (by decide)
    · simp [hordered.1] at hcomplete
    · exact ⟨first, second, rest, rfl, hordered.1, hordered.2.1, hordered.2.2 second rfl⟩
  · rw [htools, hused, h.validated.toolsUsed]
  · obtain ⟨p, hp, hpair⟩ := (mem_allowedPairs hstate.namedResults).mp (h.validated.allowed c hc)
    have hcp : (c.sourceId.1, c.chunkId.1) = p := by
      simp only [SourceCitation.pair, Prod.mk.injEq, Option.some.injEq] at hpair
      exact Prod.ext hpair.1 hpair.2
    rw [hcp, hreferenced]
    refine ⟨hstate.mem_namedPairs_iff.mp hp, ?_⟩
    obtain ⟨result, hresult, pairs, hholds, hp⟩ := hstate.exists_result (hstate.held_of_named hp)
    obtain ⟨context', hcontext', -, hchunks⟩ := retrievedContext_of_holds hstate.holdsChunks
    cases hcontext.symm.trans hcontext'
    exact hchunks result hresult pairs hholds p hp
  · exact h.validated.cited (hstate.hasRunbook_iff.mp (hrunbook.mp hhas))
  · have hempty : allowedPairs (evidenceReferences st.results) = [] := by
      by_contra hne
      exact hnone (hrunbook.mpr (hstate.hasRunbook_iff.mpr hne))
    obtain ⟨hle, hesc, hrev, hlim⟩ := h.validated.ungrounded hempty
    rw [hesc] at hescalation
    rw [hrev] at hreview
    exact ⟨_, _, hconfidence, hle, hescalation, hreview, hlimitations, hlim⟩

/-- **Every completed agent resolution is grounded.**  Any number of workers resolve any events
in any interleaving, crash and resume from the log: whenever the commit of a final response
takes effect, the resolution of the incident is grounded in the log of its execution as it is
then.  The integers of pydantic are those of JSON, and the sources of the knowledge base are
named as the manifest demands. -/
theorem resolutions_grounded {W : Type} [DecidableEq W] {env : Environment}
    (hint : ∀ i : Int, Pydantic.intOf (.int i) = some i)
    (hcorpus : ∀ c, env.corpus c = true → ManifestId c.sourceId)
    {wfs : W → ControlledAgentWorkflow} {events : W → IncidentCreatedEvent} {s : World W}
    (hs : LogStart s) {p p' : Pool Resp PyExc ResolutionWorkflowOutcome W (World W)}
    (hp : Pool.Reachable (platform env) (fun w => (wfs w).resolve (events w)) s p) {w : W}
    {cs : List Change} {r : CommitReport}
    (hstep : Pool.Step (platform env) p (.act w (.commit .final cs) r) p') (hr : r.Effective) :
    ∃ record row resolution, Change.insertStep record ∈ cs ∧
      p'.world.db.execution? record.executionId = some row ∧
      p'.world.db.resolutionOf row.incidentId = some resolution ∧
      GroundedResolution row.incidentId (p'.world.db.loadSteps record.executionId) resolution := by
  have hp' : LogState (evidenceLaw hint) p'.world :=
    reachable_logged (fun _ => trivial) (fun _ => hcorpus) hs (hp.step hstep)
  have hcommit : ∃ x i st final record, Change.insertStep record ∈ cs ∧
      FinalCommit (evidenceLaw hint) x i st final record p.world.db p'.world.db :=
    reachable_final (fun _ => trivial) (fun _ => hcorpus) hs hp hstep hr
  obtain ⟨x, i, st, final, record, hrecord, hfinal⟩ := hcommit
  obtain ⟨row, hrow, rfl⟩ := hfinal.row
  obtain ⟨resolution, hresolution, hgrounded⟩ := grounded_of_final hint hfinal
  obtain ⟨rfl, -⟩ := hfinal.recorded
  refine ⟨record, row, resolution, hrecord, hrow, hresolution, ?_⟩
  rw [hp'.inv.steps.loadSteps]
  exact hgrounded

end

/-! ## A run -/

/-- The only chunk of a knowledge base. -/
def timeoutChunk : RetrievedChunk where
  chunkId := 3
  sourceId := "api-timeouts"
  title := "Timeouts"
  category := "timeout"
  content := "Raise the limit."
  similarity := 1

/-- An environment without faults whose knowledge base holds one chunk. -/
def Environment.stocked : Environment := ⟨false, fun c => c = timeoutChunk⟩

/-- The workflow whose resolver is shown nothing but its values. -/
def citingWorkflow : ControlledAgentWorkflow :=
  { plainWorkflow with
    resolverPrompt := ⟨"resolver", "1", List.flatten (["incident_event", "evidence", "citations",
      "tools_used"].map fun name : String => PromptTemplate.placeholder name)⟩ }

/-- A decision for the final response. -/
def finalDecision : Text :=
  Text.pieces ["\x7b\"goal\":", "\"Done it.\",", "\"next_action\":", "\"final\",", "\"reason_summary\":",
    "\"Evidence.\",", "\"expected_evidence\":", "\"A resolution.\"\x7d"]

/-- A final response that cites the chunk. -/
def citingResponse : Text :=
  Text.pieces ["\x7b\"summary\":", "\"It timed out in the api", ".\",\"root_cause\":",
    "\"Slow upstream.\",", "\"recommended_actions\":", "[\"Wait a while.\"],",
    "\"confidence\":", "1,\"evidence_summary\":", "\"A runbook.\",", "\"cited_sources\":",
    "[\x7b\"source_id\":", "\"api-timeouts\",", "\"chunk_id\":", "3\x7d],\"tools_used\":",
    "[\"get_incident\"],", "\"limitations\":", "[],\"escalation_required\"",
    ":false,\"human_review_rec", "ommended\":", "false\x7d"]

/-- The answers in a conversation in which the retriever finds the chunk. -/
def citingAnswers (w : Bool) : (o : Op) → World Bool → Resp o
  | .retrieve _ _ _, _ => .ok [timeoutChunk]
  | o, s => conversation finalDecision citingResponse w o s

theorem citingAnswers_plain (w : Bool) (n : Nat) : (Turn.calls w n (citingAnswers w)).Plain := by
  intro o s h
  cases o with
  | chat _ _ | retrieve _ _ _ => cases h
  | _ => rfl

/-- Whether the next call of `w` is the commit of a final response, and can succeed. -/
def commitsFinal (w : Bool) (p : Pool Resp PyExc ResolutionWorkflowOutcome Bool (World Bool)) :
    Bool :=
  match p.task w with
  | some (.call (.commit .final cs) _) =>
      decide (Environment.Accepts p.world w cs)
  | _ => false

theorem step_of_commitsFinal {w : Bool}
    {p : Pool Resp PyExc ResolutionWorkflowOutcome Bool (World Bool)}
    (h : commitsFinal w p = true) :
    ∃ cs p', Pool.Step (platform Environment.stocked) p (.act w (.commit .final cs) .committed) p' := by
  unfold commitsFinal at h
  split at h
  · rename_i cs k ht
    have haccepts : Environment.Accepts p.world w cs := of_decide_eq_true h
    exact ⟨cs, _, .act ht ⟨haccepts, rfl⟩⟩
  · cases h

/-- A worker crashes after its first step, and another one completes the execution. -/
theorem resolutions_grounded_resumed :
    ∃ (p p' : Pool Resp PyExc ResolutionWorkflowOutcome Bool (World Bool)) (cs : List Change)
      (record : AgentStep) (row : Execution) (resolution : Resolution),
      Pool.Reachable (platform Environment.stocked) (fun _ => citingWorkflow.resolve timeoutEvent)
        (incidentWithLog []) p ∧
      Pool.Step (platform Environment.stocked) p (.act false (.commit .final cs) .committed) p' ∧
      Change.insertStep record ∈ cs ∧
      p'.world.db.execution? record.executionId = some row ∧
      p'.world.db.resolutionOf row.incidentId = some resolution ∧
      GroundedResolution row.incidentId (p'.world.db.loadSteps record.executionId) resolution := by
  obtain ⟨p, hp, hP⟩ := exists_routine_run Environment.stocked
    (fun _ => citingWorkflow.resolve timeoutEvent) (incidentWithLog []) (commitsFinal false)
    [.calls true 50 (citingAnswers true), .crash true, .calls false 59 (citingAnswers false)]
    (by simp [citingAnswers_plain]) (by decide +kernel)
  obtain ⟨cs, p', hstep⟩ := step_of_commitsFinal hP
  have hstart : LogStart (incidentWithLog []) := ⟨rfl, rfl, rfl, fun _ => rfl⟩
  have hcorpus : ∀ c, Environment.stocked.corpus c = true → ManifestId c.sourceId := by
    intro c hc
    rw [of_decide_eq_true hc]
    decide
  obtain ⟨record, row, resolution, h⟩ := resolutions_grounded (fun _ => rfl) hcorpus hstart hp hstep
    trivial
  exact ⟨p, p', cs, record, row, resolution, hp, hstep, h⟩

end SupportPlatform

