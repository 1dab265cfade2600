import SupportPlatform.StepBudgets

/-! # Summaries of evidence

`summarize_evidence` works on results that the server holds, and makes no call.  It returns a
fact for each requested step that is available, lists the other ones, and gives the union of
the references of the steps.  Each of the steps has twenty references at most, and so must the
output, which the union of several steps need not: `summarizes_iff` says that the tool does
what it is for exactly as long as the union fits.
-/
namespace SupportPlatform
open Program ControlledAgentWorkflow

/-! ## Requests in order -/

/-- The entries are in the order in which they are requested first. -/
def InOrder (requested entries : List Int) : Prop :=
  entries.Pairwise fun a b => requested.idxOf a < requested.idxOf b

theorem inOrder_fromKeys (requested : List Int) : InOrder requested (fromKeys requested) := by
  induction requested with
  | nil => exact .nil
  | cons n requested ih =>
      have hne : ∀ a, a ∈ (fromKeys requested).filter (fun m => decide (m ≠ n)) → n ≠ a := by
        intro a ha
        exact fun h => of_decide_eq_true (List.mem_filter.mp ha).2 h.symm
      refine List.Pairwise.cons (fun a ha => ?_) ?_
      · rw [List.idxOf_cons_self, List.idxOf_cons_ne _ (hne a ha)]
        exact Nat.succ_pos _
      · refine (ih.filter _).imp_of_mem fun {a b} ha hb hab => ?_
        rw [List.idxOf_cons_ne _ (hne a ha), List.idxOf_cons_ne _ (hne b hb)]
        exact Nat.succ_lt_succ hab

theorem length_fromKeys_le {α : Type} [DecidableEq α] (l : List α) : (fromKeys l).length ≤ l.length := by
  induction l with
  | nil => exact Nat.le_refl _
  | cons a l ih =>
      have hfilter := List.length_filter_le (fun b => decide (b ≠ a)) (fromKeys l)
      rw [fromKeys, List.length_cons, List.length_cons]
      omega

/-! ## What a summary is -/

/-- The result of a requested step, if it is available. -/
def resultOf (results : Results) (number : Int) : Option ToolResult :=
  number.toNat?.bind fun n => results.get? n

/-- The references of the requested steps that are available. -/
def offeredReferences (requested : List Int) (results : Results) : List EvidenceReference :=
  (requested.filterMap (resultOf results)).flatMap fun result => result.evidenceReferences.1

/-- A summary of the requested steps. -/
structure Summarizes (requested : List Int) (results : Results) (output : ToolOutput) : Prop where
  facts : ∃ used : List (Int × ToolResult), InOrder requested (used.map (·.1)) ∧
    (∀ n r, (n, r) ∈ used ↔ n ∈ requested ∧ resultOf results n = some r) ∧
    output.data.get? "facts" = some (.arr (used.map fun u => .str u.2.summary.1))
  missing : ∃ missing : List Int, InOrder requested missing ∧
    (∀ n, n ∈ missing ↔ n ∈ requested ∧ resultOf results n = none) ∧
    output.data.get? "missing_step_numbers" = some (.arr (missing.map .int))
  references : output.evidenceReferences.1.Nodup ∧ ∀ ref, ref ∈ output.evidenceReferences.1 ↔
    ∃ n ∈ requested, ∃ r, resultOf results n = some r ∧ ref ∈ r.evidenceReferences.1

section
variable [Runtime]

/-- The summary of steps that are distinct and in the order of the requests. -/
def summaryData (results : Results) (steps : List Int) : Dict Text Json :=
  [("facts", .arr ((steps.filterMap (resultOf results)).map fun r => .str r.summary.1)),
    ("missing_step_numbers",
      .arr ((steps.filter fun n => (resultOf results n).isNone).map .int)),
    ("conflicts", .arr [])]

omit [Runtime] in
/-- The available steps with their results, on both sides. -/
theorem map_available {α : Type} (f : Int → Option α) (steps : List Int) :
    ((steps.filterMap fun n => (f n).map fun a => (n, a)).map (·.1) =
      steps.filter fun n => (f n).isSome) ∧
    (steps.filterMap fun n => (f n).map fun a => (n, a)).map (·.2) = steps.filterMap f := by
  induction steps with
  | nil => exact ⟨rfl, rfl⟩
  | cons n steps ih =>
      cases hn : f n with
      | none => simp [hn, ih]
      | some a => simp [hn, ih]

omit [Runtime] in
theorem summarizes_summaryData {requested : List Int} {results : Results} {summary : BoundedText 1 2000}
    {references : References} (hnodup : references.1.Nodup)
    (hmem : ∀ ref, ref ∈ references.1 ↔ ref ∈ offeredReferences requested results) :
    Summarizes requested results
      ⟨summary, summaryData results (fromKeys requested), references⟩ := by
  refine ⟨?_, ?_, hnodup, fun ref => ?_⟩
  · obtain ⟨hnumbers, hresults⟩ := map_available (resultOf results) (fromKeys requested)
    refine ⟨(fromKeys requested).filterMap fun n => (resultOf results n).map fun r => (n, r),
      ?_, fun n r => ?_, ?_⟩
    · rw [hnumbers]
      exact (inOrder_fromKeys requested).filter _
    · rw [List.mem_filterMap]
      constructor
      · rintro ⟨m, hm, hmap⟩
        obtain ⟨a, ha, heq⟩ := Option.map_eq_some_iff.mp hmap
        obtain ⟨rfl, rfl⟩ := Prod.mk.inj heq
        exact ⟨mem_fromKeys.mp hm, ha⟩
      · rintro ⟨hn, hr⟩
        exact ⟨n, mem_fromKeys.mpr hn, by rw [hr]; rfl⟩
    · have hfacts : (summaryData results (fromKeys requested)).get? "facts" = some (.arr
          (((fromKeys requested).filterMap (resultOf results)).map fun r => .str r.summary.1)) := rfl
      rw [← hresults, List.map_map] at hfacts
      exact hfacts
  · refine ⟨(fromKeys requested).filter fun n => (resultOf results n).isNone,
      (inOrder_fromKeys requested).filter _, fun n => ?_, rfl⟩
    rw [List.mem_filter, mem_fromKeys, Option.isNone_iff_eq_none]
  · rw [hmem, offeredReferences, List.mem_flatMap]
    constructor
    · rintro ⟨r, hr, href⟩
      obtain ⟨n, hn, hresult⟩ := List.mem_filterMap.mp hr
      exact ⟨n, hn, r, hresult, href⟩
    · rintro ⟨n, hn, r, hresult, href⟩
      exact ⟨r, List.mem_filterMap.mpr ⟨n, hn, hresult⟩, href⟩

/-- The distinct references of the distinct steps. -/
def outputReferences (requested : List Int) (results : Results) : List EvidenceReference :=
  distinctReferences (((fromKeys requested).filterMap (resultOf results)).flatMap
    fun (r : ToolResult) => r.evidenceReferences.1)

section
omit [Runtime]

/-- The references of the output are the distinct ones that are offered. -/
theorem mem_outputReferences {requested : List Int} {results : Results} {ref : EvidenceReference} :
    ref ∈ outputReferences requested results ↔ ref ∈ offeredReferences requested results := by
  rw [outputReferences, distinctReferences, mem_fromKeys, offeredReferences, List.mem_flatMap,
    List.mem_flatMap]
  simp only [List.mem_filterMap, mem_fromKeys]

theorem nodup_outputReferences (requested : List Int) (results : Results) :
    (outputReferences requested results).Nodup := nodup_fromKeys _

theorem length_outputReferences (requested : List Int) (results : Results) :
    (outputReferences requested results).length =
      (offeredReferences requested results).toFinset.card := by
  rw [← List.toFinset_card_of_nodup (nodup_outputReferences requested results)]
  refine congrArg Finset.card (Finset.ext fun ref => ?_)
  rw [List.mem_toFinset, List.mem_toFinset]
  exact mem_outputReferences

/-- The text of a summary fits: twelve steps are asked for at most. -/
theorem summaryText_bounded {a b : Nat} (ha : a ≤ 12) (hb : b ≤ 12) :
    1 ≤ (("Normalized " : Text) ++ Text.ofNat a ++ " evidence steps; " ++ Text.ofNat b ++
      " requested steps were unavailable.").length ∧
    (("Normalized " : Text) ++ Text.ofNat a ++ " evidence steps; " ++ Text.ofNat b ++
      " requested steps were unavailable.").length ≤ 2000 := by
  have hdigits : ∀ n ≤ 12, (Text.ofNat n).length ≤ 2 := by decide
  have hfirst := hdigits a ha
  have hsecond := hdigits b hb
  have h₁ : ("Normalized " : Text).length = 11 := by decide
  have h₂ : (" evidence steps; " : Text).length = 17 := by decide
  have h₃ : (" requested steps were unavailable." : Text).length = 34 := by decide
  simp only [List.length_append, h₁, h₂, h₃]
  omega

/-- An output whose text fits is built if its references do. -/
theorem toolOutput_of_summary {summary : Text} (hsummary : 1 ≤ summary.length ∧ summary.length ≤ 2000)
    (data : Dict Text Json) (refs : List EvidenceReference) :
    toolOutput summary data (refs.map some) =
      if h : refs.length ≤ 20 then .ret ⟨⟨summary, hsummary⟩, data, ⟨refs, h⟩⟩
      else .raise (validationError "ToolOutput" none) := by
  have hrefs : (refs.map some).mapM id = some refs := by
    induction refs with
    | nil => rfl
    | cons ref refs ih => rw [List.map_cons, List.mapM_cons, ih]; rfl
  have hfield : field _ summary = some (⟨summary, hsummary⟩ : BoundedText 1 2000) :=
    field_self ⟨summary, hsummary⟩
  rw [toolOutput, hrefs]
  dsimp only
  rw [hfield]
  by_cases h : refs.length ≤ 20
  · rw [dif_pos h, field_self (⟨refs, h⟩ : References)]
    rfl
  · rw [dif_neg h, field, dif_neg h]
    rfl

/-- **When evidence is summarized**: exactly when the requested steps have twenty distinct
references at most. -/
theorem summarizes_iff (validated : SummarizeEvidenceInput) (context : ToolContext) :
    (∃ output, summarizeEvidenceTool validated context = .ret output ∧
      Summarizes validated.stepNumbers.1 context.previousResults output) ↔
    (offeredReferences validated.stepNumbers.1 context.previousResults).toFinset.card ≤ 20 := by
  have hlength : (fromKeys validated.stepNumbers.1).length ≤ 12 :=
    (length_fromKeys_le _).trans validated.stepNumbers.2.2
  have htool : summarizeEvidenceTool validated context = _ :=
    toolOutput_of_summary (summaryText_bounded
        ((List.length_filterMap_le (resultOf context.previousResults) _).trans hlength)
        ((List.length_filter_le (fun n => (resultOf context.previousResults n).isNone) _).trans
          hlength))
      (summaryData context.previousResults (fromKeys validated.stepNumbers.1))
      (outputReferences validated.stepNumbers.1 context.previousResults)
  rw [htool, ← length_outputReferences]
  constructor
  · rintro ⟨output, hreturns, -⟩
    by_contra hlong
    rw [dif_neg hlong] at hreturns
    cases hreturns
  · intro hfits
    rw [dif_pos hfits]
    exact ⟨_, rfl, summarizes_summaryData (nodup_outputReferences _ _) fun ref => mem_outputReferences⟩

end

end

/-! ## A run -/

/-- Chunks one to eight of a runbook. -/
def eightChunks : List RetrievedChunk :=
  [1, 2, 3, 4, 5, 6, 7, 8].map fun (i : Int) => ⟨i, "a", [], [], [], 0⟩

/-- The environment of the run: the knowledge base holds them. -/
def Environment.withEightChunks : Environment := ⟨false, fun c => eightChunks.elem c⟩

/-- A workflow that retrieves eight chunks, and lets the planner call more tools. -/
def thoroughWorkflow : ControlledAgentWorkflow :=
  { plainWorkflow with limits := ⟨8, 6, 1, 8, 600, 3, 2⟩, retrieverTopK := 8 }

/-- Incident 1, and ten earlier ones like it. -/
def elevenIncidents : List Incident :=
  [1, 2, 3, 4, 5, 6, 7, 8, 9, 10, 11].map fun id =>
    ⟨id, "api", "boom", "log", none, .high, .timeoutError, "Slow.", [], 0⟩

/-- The resolution of an earlier incident. -/
def earlierResolution (id : Int) : Resolution where
  id := id
  incidentId := id
  eventId := 100 + id.toNat
  status := .completed
  attemptCount := 1
  summary := some "Restarted."
  rootCause := some "Slow."
  recommendedActions := some ["Restart."]
  confidence := some 1
  citedSources := some []
  evidenceSummary := some "Logs."
  toolsUsed := some []
  limitations := some []
  escalationRequired := some false
  humanReviewRecommended := some true
  retrievedContext := some []
  llmProvider := none
  llmModel := none
  embeddingProvider := none
  embeddingModel := none
  promptName := none
  promptVersion := none
  errorMessage := none
  processingStartedAt := none
  completedAt := some 0
  updatedAt := 0

/-- Ten incidents were resolved before incident 1 was reported. -/
def resolvedHistory : World Bool :=
  { World.blank with db := { (World.blank : World Bool).db with
      incidents := elevenIncidents
      resolutions := [2, 3, 4, 5, 6, 7, 8, 9, 10, 11].map earlierResolution } }

/-- A decision for a tool. -/
def toolDecision (tool arguments : Text) : Text :=
  Text.pieces ["\x7b\"goal\":", "\"Find.\",", "\"next_action\":", "\"tool\",", "\"tool_name\":\""] ++
    (tool ++ (Text.pieces ["\",\"tool_arguments\":\x7b"] ++ (arguments ++
      Text.pieces ["\x7d,\"reason_summary\":", "\"Evidence.\",", "\"expected_evidence\":",
        "\"Results.\"\x7d"])))

/-- The answers in the run: eight chunks, two similar incidents, ten earlier resolutions. -/
def thoroughAnswer (w : Bool) : (o : Op) → World Bool → Resp o
  | .chat _ .requiredIncidentDecision, _ =>
      chatReply (toolDecision "get_incident" "\"incident_id\":1")
  | .chat _ .requiredRetrievalDecision, _ =>
      chatReply (toolDecision "retrieve_runbooks" ("\"query\":\"timeout\"," ++ ("\"top_k\":8" : Text)))
  | .chat _ .plannerDecision, s => chatReply
      (if s.db.steps.length < 3 then
        toolDecision "search_similar_incidents" ("\"incident_id\":1," ++ ("\"limit\":2" : Text))
      else
        toolDecision "get_previous_resolutions" ("\"incident_id\":1," ++ ("\"limit\":10" : Text)))
  | .retrieve _ _ _, _ => .ok eightChunks
  | o, s => plainAnswer w o s

/-- The steps of the run. -/
def fourSteps : SummarizeEvidenceInput := ⟨⟨[1, 2, 3, 4], by decide⟩⟩

/-- The four steps of the run have 21 distinct references, and cannot be summarized. -/
theorem summary_does_not_fit :
    ∃ (p : Pool Resp PyExc ResolutionWorkflowOutcome Bool (World Bool)) (results : Results),
      Pool.Reachable (platform Environment.withEightChunks)
        (fun _ => thoroughWorkflow.resolve timeoutEvent) resolvedHistory p ∧
      restoreResults (p.world.db.loadSteps 0) = .ok results ∧
      ¬ ∃ output, summarizeEvidenceTool fourSteps ⟨1, 8, some "timeout_error", 8, results⟩ =
          .ret output ∧ Summarizes fourSteps.stepNumbers.1 results output := by
  have hplain : (Turn.calls true 119 (thoroughAnswer true)).Plain := by
    intro o s h
    cases o with
    | chat _ _ | retrieve _ _ _ => cases h
    | _ => rfl
  obtain ⟨p, hp, hP⟩ := exists_routine_run Environment.withEightChunks
    (fun _ => thoroughWorkflow.resolve timeoutEvent) resolvedHistory
    (fun p => match restoreResults (p.world.db.loadSteps 0) with
      | .ok results => 20 < (outputReferences fourSteps.stepNumbers.1 results).length
      | .error _ => false)
    [.calls true 119 (thoroughAnswer true)] (by simp [hplain]) (by decide +kernel)
  cases hresults : restoreResults (p.world.db.loadSteps 0) with
  | error e => rw [hresults] at hP; cases hP
  | ok results =>
      rw [hresults] at hP
      refine ⟨p, results, hp, hresults, ?_⟩
      rintro ⟨output, -, hsummarizes⟩
      -- the references of the output would be as many as are offered
      have hlong : 20 < (outputReferences fourSteps.stepNumbers.1 results).length :=
        of_decide_eq_true hP
      have hsubset : outputReferences fourSteps.stepNumbers.1 results ⊆ output.evidenceReferences.1 := by
        intro ref href
        obtain ⟨r, hr, href⟩ := List.mem_flatMap.mp (mem_outputReferences.mp href)
        obtain ⟨n, hn, hresult⟩ := List.mem_filterMap.mp hr
        exact (hsummarizes.references.2 ref).mpr ⟨n, hn, r, hresult, href⟩
      have hle := ((nodup_outputReferences _ _).subperm hsubset).length_le
      have hbound := output.evidenceReferences.2
      omega

end SupportPlatform

