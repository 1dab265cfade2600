import SupportPlatform.ChunkTexts
import SupportPlatform.Encoding
import SupportPlatform.Grounding

/-! # What the resolver is shown

The resolver is shown the results of the tools as evidence, and the pairs that it may cite.
Whatever a worker has in memory when it renders the prompt, every pair it offers is that of a
chunk among the results, with the text that the knowledge base has for it (`Citable`).  But the
evidence is cut after so many characters of its ASCII encoding: it is the whole array, and has
every chunk in it, exactly as long as the encoding fits.
-/
namespace SupportPlatform
open Program World ControlledAgentWorkflow

section
variable [Runtime] [Pydantic]

/-! ## The sections -/

/-- The evidence of the results. -/
def evidenceOf (results : Results) : Json :=
  .arr (results.map fun (number, result) => evidenceEntry number result)

/-- The entry of a citable pair. -/
def pairEntry (p : ChunkPair) : Json :=
  .obj [("source_id", .str p.1), ("chunk_id", .int p.2)]

/-- The pairs that the resolver is offered. -/
def citationsOf (results : Results) : List Json :=
  (evidenceReferences results).filterMap citationEntry

variable {corpus : RetrievedChunk → Bool}

/-- **Results that can be cited**: they quote the corpus, and every chunk that their references
name is held by one of them. -/
structure Citable (corpus : RetrievedChunk → Bool) (results : Results) : Prop where
  quotes : ∀ result ∈ results.values, QuotingData corpus result.data
  named : NamedResults results
  held : ∀ p ∈ namedPairs results, ∃ result ∈ results.values, ∃ pairs,
    HoldsChunks result.data pairs ∧ p ∈ pairs

omit [Runtime] [Pydantic] in
/-- The citation of a pair is the entry of a reference to it. -/
theorem citationEntry_eq_some {ref : EvidenceReference} {p : ChunkPair}
    (h : citationEntry ref = some (pairEntry p)) :
    ref.evidenceType = .runbook ∧ ref.pair = (some p.1, some p.2) := by
  unfold citationEntry at h
  split at h
  · rename_i source chunk htype hsource hchunk
    split at h
    · rw [Option.some.injEq, pairEntry, Json.obj.injEq] at h
      simp only [List.cons.injEq, Prod.mk.injEq, Json.str.injEq, Json.int.injEq, true_and,
        and_true] at h
      refine ⟨htype, ?_⟩
      rw [EvidenceReference.pair, hsource, hchunk, Option.map_some, Option.map_some, h.1, h.2]
    · cases h
  · cases h

omit [Pydantic] [Runtime] in
/-- A citation that is offered is named by a reference of the results. -/
theorem mem_namedPairs_of_citation {results : Results} {p : ChunkPair}
    (h : pairEntry p ∈ citationsOf results) : p ∈ namedPairs results := by
  obtain ⟨ref, href, hentry⟩ := List.mem_filterMap.mp h
  obtain ⟨result, hresult, href⟩ := List.mem_flatMap.mp (mem_fromKeys.mp href)
  exact List.mem_flatMap.mpr ⟨result, hresult,
    mem_runbookPairs.mpr ⟨ref, href, citationEntry_eq_some hentry⟩⟩

omit [Pydantic] in
/-- **Every citation comes with its chunk**: some result holds a quotation of it. -/
theorem Citable.chunk {results : Results} (h : Citable corpus results) {p : ChunkPair}
    (hp : pairEntry p ∈ citationsOf results) :
    ∃ entry ∈ results, ∃ item ∈ rawChunks entry.2, Quotes corpus p item := by
  obtain ⟨result, hresult, pairs, hholds, hmem⟩ := h.held p (mem_namedPairs_of_citation hp)
  obtain ⟨item, hitem, hchunk⟩ := exists_of_forall₂_left (rawChunks_of_holds hholds) hmem
  obtain ⟨q, -, hquotes⟩ := (h.quotes result hresult).rawChunks item hitem
  obtain ⟨entry, hentry, rfl⟩ := List.mem_map.mp hresult
  exact ⟨entry, hentry, item, hitem, hquotes.isChunk.unique hchunk ▸ hquotes⟩

omit [Pydantic] in
/-- A chunk of a result is encoded inside the encoding of the evidence. -/
theorem infix_evidenceOf {results : Results} {entry : Nat × ToolResult} {item : Json}
    (hentry : entry ∈ results) (hitem : item ∈ rawChunks entry.2) :
    Json.dumps item <:+: Json.dumps (evidenceOf results) := by
  have harray : ∃ items, Dict.get? entry.2.data "chunks" = some (.arr items) ∧ item ∈ items := by
    unfold rawChunks at hitem
    split at hitem
    · rename_i items hitems
      exact ⟨items, hitems, hitem⟩
    · cases hitem
  obtain ⟨items, hitems, hitem⟩ := harray
  have hchunks : Json.dumps item <:+: Json.dumps (.arr items) := Json.infix_encode_arr hitem
  have hdata : Json.dumps (.arr items) <:+: Json.dumps (.obj entry.2.data) :=
    Json.infix_encode_obj (e := ("chunks", .arr items)) (Dict.mem_of_get? hitems)
  have hrecord : Json.dumps (.obj entry.2.data) <:+:
      Json.dumps (evidenceEntry entry.1 entry.2) :=
    Json.infix_encode_obj (e := ("data", .obj entry.2.data)) (by simp)
  refine (hchunks.trans (hdata.trans hrecord)).trans (Json.infix_encode_arr ?_)
  exact List.mem_map.mpr ⟨entry, hentry, rfl⟩

/-- **What the sections hold**: the evidence is a beginning of the array of the results, which is
complete as long as its encoding fits, and has the text of every citation then. -/
structure Sections (corpus : RetrievedChunk → Bool) (results : Results) : Prop where
  evidence : evidenceSection results = (Json.dumps (evidenceOf results)).take 28000
  complete : evidenceSection results = Json.dumps (evidenceOf results) ↔
    (Json.dumps (evidenceOf results)).length ≤ 28000
  citations : citationsSection results = (Json.dumps (.arr (citationsOf results))).take 30000
  chunks : ∀ p, pairEntry p ∈ citationsOf results → ∃ entry ∈ results, ∃ item ∈ rawChunks entry.2,
    Quotes corpus p item ∧ ((Json.dumps (evidenceOf results)).length ≤ 28000 →
      Json.dumps item <:+: evidenceSection results)

omit [Pydantic] in
theorem Citable.sections {results : Results} (h : Citable corpus results) :
    Sections corpus results := by
  have hcomplete : evidenceSection results = Json.dumps (evidenceOf results) ↔
      (Json.dumps (evidenceOf results)).length ≤ 28000 := by
    constructor
    · intro hwhole
      have hlen := List.length_take_le 28000 (Json.dumps (evidenceOf results))
      exact (congrArg List.length hwhole) ▸ hlen
    · exact List.take_of_length_le
  refine ⟨rfl, hcomplete, rfl, fun p hp => ?_⟩
  obtain ⟨entry, hentry, item, hitem, hquotes⟩ := h.chunk hp
  refine ⟨entry, hentry, item, hitem, hquotes, fun hfits => ?_⟩
  rw [hcomplete.mpr hfits]
  exact infix_evidenceOf hentry hitem

/-! ## What a worker holds -/

/-- **What a worker can show the resolver**: its results can be cited, and are numbered as steps of
its log. -/
structure Prepared (corpus : RetrievedChunk → Bool) (st : LoopState) : Prop where
  citable : Citable corpus st.results
  numbered : ∀ n ∈ st.results.keys, n ≤ st.steps.length

omit [Pydantic] in
theorem Prepared.frame {st : LoopState} (h : Prepared corpus st) (repairCount : Nat)
    (lastError : Text) :
    Prepared corpus { st with repairCount := repairCount, lastError := lastError } :=
  ⟨h.citable, h.numbered⟩

omit [Pydantic] in
/-- A rejected decision lengthens the log only. -/
theorem Prepared.reject {st : LoopState} (h : Prepared corpus st) (record : AgentStep) :
    Prepared corpus { st with steps := st.steps ++ [record] } := by
  refine ⟨h.citable, fun n hn => ?_⟩
  have hle := h.numbered n hn
  rw [List.length_append]
  omega

/-- **A log that is read back** prepares its reader. -/
theorem prepared_of_log {i : Int} {steps : List AgentStep} {results : Results}
    (h : GroundedState i (initialState steps results))
    (hrows : ∀ step ∈ steps, QuotingRow corpus step) (hr : restoreResults steps = .ok results) :
    Prepared corpus (initialState steps results) := by
  refine ⟨⟨restoreResults_quotes hrows hr, h.namedResults, fun p hp => ?_⟩, fun n hn => ?_⟩
  · exact h.exists_result (h.held_of_named hp)
  · obtain ⟨entry, hentry, rfl⟩ := List.mem_map.mp hn
    obtain ⟨step, hstep, hnumber, -⟩ := exists_of_forall₂_right h.results hentry
    have hin := List.mem_map_of_mem (f := (·.stepNumber)) (mem_succeededRows.mp hstep).1
    rw [h.log.numbered, List.mem_range'_1] at hin
    omega

/-- The log of an execution prepares whoever reads it. -/
theorem prepared_of_tables {hint : ∀ i : Int, Pydantic.intOf (.int i) = some i} {db : Database}
    (hinv : LogInv (evidenceLaw hint) db) (htables : QuotingTables corpus db) {x : Uuid}
    {results : Results} (hr : restoreResults (db.loadSteps x) = .ok results) :
    Prepared corpus (initialState (db.loadSteps x) results) := by
  have hlog : ∃ i, GroundedLog i (db.loadSteps x) := by
    rw [hinv.steps.loadSteps]
    cases hrow : db.execution? x with
    | some row => exact ⟨row.incidentId, hinv.steps.good x row hrow⟩
    | none =>
        rw [hinv.steps.unclaimed x hrow]
        exact ⟨0, (evidenceLaw hint).nil 0⟩
  obtain ⟨i, hlog⟩ := hlog
  refine prepared_of_log (hlog.restore hint hr) (fun step hstep => ?_) hr
  rw [hinv.steps.loadSteps] at hstep
  exact htables.steps step (List.mem_of_mem_filter hstep)

omit [Pydantic] in
/-- **A succeeded tool call** keeps its worker prepared. -/
theorem Prepared.record {st : LoopState} (h : Prepared corpus st) {result : ToolResult}
    {record : AgentStep} {pairs : List ChunkPair} {sig : Text}
    (htrace : Traceable (namedPairs st.results) pairs result.data result.evidenceReferences.1)
    (hquotes : QuotingData corpus result.data) (hnumber : record.stepNumber = st.steps.length + 1) :
    Prepared corpus (LoopState.record st record result sig) := by
  have hfresh : record.stepNumber ∉ st.results.keys := fun hmem => by
    have := h.numbered _ hmem
    omega
  have hresults : (LoopState.record st record result sig).results =
      st.results ++ [(record.stepNumber, result)] := Dict.set_of_notMem hfresh result
  have hvalues : (LoopState.record st record result sig).results.values =
      st.results.values ++ [result] := by
    rw [hresults, Dict.values, List.map_append]
    rfl
  have hnew : result ∈ (LoopState.record st record result sig).results.values := by
    rw [hvalues]
    exact List.mem_append_right _ (List.mem_singleton.mpr rfl)
  have hold : ∀ r ∈ st.results.values, r ∈ (LoopState.record st record result sig).results.values :=
    fun r hr => hvalues ▸ List.mem_append_left _ hr
  refine ⟨⟨fun r hr => ?_, fun r hr => ?_, fun p hp => ?_⟩, fun n hn => ?_⟩
  · rw [hvalues] at hr
    rcases List.mem_append.mp hr with hr | hr
    · exact h.citable.quotes r hr
    · rw [List.mem_singleton.mp hr]
      exact hquotes
  · rw [hvalues] at hr
    rcases List.mem_append.mp hr with hr | hr
    · exact h.citable.named r hr
    · rw [List.mem_singleton.mp hr]
      exact htrace.named
  · -- a chunk that the new result names is its own, or one that was named before
    have hheld : p ∈ pairs ∨ p ∈ namedPairs st.results := by
      rw [namedPairs, hvalues, List.flatMap_append] at hp
      rcases List.mem_append.mp hp with hp | hp
      · exact .inr hp
      · rw [List.flatMap_singleton] at hp
        exact htrace.covered p hp
    rcases hheld with hp | hp
    · exact ⟨result, hnew, pairs, htrace.holds, hp⟩
    · obtain ⟨r, hr, hheld⟩ := h.citable.held p hp
      exact ⟨r, hold r hr, hheld⟩
  · rw [hresults, Dict.keys, List.map_append] at hn
    show n ≤ (st.steps ++ [record]).length
    rw [List.length_append, List.length_singleton]
    rcases List.mem_append.mp hn with hn | hn
    · have := h.numbered n hn
      omega
    · rw [List.map_singleton, List.mem_singleton] at hn
      omega

/-! ## The calls of a worker -/

/-- **The call offers nothing without its chunk**: it writes quotations, and the citations that it
renders are those of results that can be cited. -/
def Offers (corpus : RetrievedChunk → Bool) : Op → Prop
  | .render _ values => ("citations" : Text) ∈ values.keys → ∃ results, Citable corpus results ∧
      values.get? "citations" = some (citationsSection results) ∧
      values.get? "evidence" = some (evidenceSection results)
  | o => WritesQuotations corpus o

theorem offers_bookkeeping : Bookkeeping (Offers corpus) where
  now := trivial
  perfCounter _ := trivial
  execution _ := trivial
  steps _ := trivial
  step _ _ := trivial
  resolutionOf _ := trivial
  flush _ hcs c hc := (hcs c hc).quoting
  commit _ _ hcs c hc := (hcs c hc).quoting
  closeSession := trivial
  toolTimedOut := trivial

variable {W : Type} [DecidableEq W] {env : Environment}
  (hint : ∀ i : Int, Pydantic.intOf (.int i) = some i)

/-- What the calls are answered, in states whose logs are grounded and whose tables quote. -/
def PromptAnswers (env : Environment) (W : Type) [DecidableEq W] (o : Op) (r : Resp o) : Prop :=
  ∃ (w : W) (s : World W), permits env w s o r ∧ LogInv (evidenceLaw hint) s.db ∧
    QuotingTables env.corpus s.db

/-- A part of the workflow, with what is known of its result. -/
abbrev Offering {α : Type} (env : Environment) (W : Type) [DecidableEq W] (p : Py α)
    (Q : α → Prop) : Prop :=
  p.Conforms (Offers env.corpus) (PromptAnswers hint env W) Q fun _ => True

variable {hint}

theorem offering_of_uses {α : Type} {p : Py α} {Q : α → Prop} (h : Uses (Offers env.corpus) p Q) :
    Offering hint env W p Q :=
  h.imp (fun _ h => h) (fun _ _ _ => trivial) (fun _ h => h) fun _ h => h

/-- What the answers say of a result is known of it as well. -/
theorem Conforms.offering {α : Type} {p : Py α} {A : Op → Prop} {Q Q' : α → Prop}
    {X : PyExc → Prop} (h : p.Conforms A (PromptAnswers hint env W) Q X)
    (huses : Uses (Offers env.corpus) p Q') : Offering hint env W p fun a => Q a ∧ Q' a :=
  (h.and huses).imp (fun _ h => h.2) (fun _ _ h => ⟨h, trivial⟩) (fun _ h => h)
    fun _ _ => trivial

theorem prompt_answers_log {o : Op} {r : Resp o} (h : PromptAnswers hint env W o r) :
    LogAnswers (evidenceLaw hint) env W o r := by
  obtain ⟨w, s, hp, hinv, -⟩ := h
  exact ⟨w, s, hp, hinv⟩

variable (hcorpus : ∀ c, env.corpus c = true → ManifestId c.sourceId)
include hcorpus

theorem prompt_answers_quote : AnswersQuote env.corpus (PromptAnswers hint env W) where
  retrieve q n c chunks h chunk hchunk := by
    obtain ⟨_, _, h, -⟩ := h
    exact ⟨h.2 chunk hchunk, hcorpus chunk (h.2 chunk hchunk)⟩
  context i r h := by
    obtain ⟨_, s, h, -, htables⟩ := h
    have hr : some r = s.db.resolutionOf i := h
    exact htables.resolutions r (List.mem_of_find?_eq_some hr.symm)

variable {x : Uuid} (wf : ControlledAgentWorkflow) (event : IncidentCreatedEvent)

/-- What the routines of the workflow assume. -/
theorem prompt_assumed : Assumes x (LogAnswers (evidenceLaw hint) env W) (fun _ => True)
    (fun _ => True) True := log_assumed fun _ => hcorpus

omit hcorpus in
/-- The row of a recorded step has its number. -/
theorem persistToolStep_number (n : Nat) (decision : PlannerDecision) (request : ToolRequest)
    (result : ToolResult) :
    Yields (PromptAnswers hint env W) (persistToolStep x n decision request result)
      fun record => record.stepNumber = n := by
  have hflush : ∀ cs : List Change,
      Yields (PromptAnswers hint env W) (flush cs) fun _ => True := fun _ =>
    Conforms.bind (Q := fun _ => True) (issue_conforms trivial fun _ _ => trivial) fun _ _ =>
      conforms_answer.mpr ⟨fun _ _ => trivial, fun _ _ => trivial⟩
  refine withSession_yields ((hflush _).bind fun _ _ => select_yields.bind fun row _ => ?_)
  cases row with
  | none => trivial
  | some execution =>
      have hcommit : ∀ time : Timestamp, Yields (PromptAnswers hint env W) (commit .toolStep
          [.updateExecution execution (afterToolStep execution n request result time)])
          fun _ => True := fun _ => commit_conforms trivial fun _ _ _ => trivial
      have hnow : Yields (PromptAnswers hint env W) now fun _ => True :=
        ⟨trivial, fun _ _ => trivial⟩
      refine hnow.bind fun time _ => (hcommit time).bind fun _ _ =>
        select_yields.bind fun row hrow => ?_
      cases row with
      | none => trivial
      | some record =>
          obtain ⟨_, s, hread, -⟩ := hrow
          have hrow : some record = s.db.step? x n := hread
          simpa using List.find?_some hrow.symm

/-- **Running a request** leaves evidence that can be followed, and quotations. -/
theorem runRequest_offering (request : ToolRequest) (st : LoopState) :
    Offering hint env W (wf.runRequest event request st) fun out => ∀ result, out = .ok result →
      QuotingData env.corpus result.data ∧ (NamedResults st.results → ∃ pairs,
        Traceable (namedPairs st.results) pairs result.data result.evidenceReferences.1) := by
  have huses : Uses (Offers env.corpus) (wf.runRequest event request st) fun out =>
      ∀ result, out = .ok result → st.toolCalls < wf.limits.maxToolCalls :=
    runRequest_uses offers_bookkeeping wf (fun _ => trivial) (fun _ _ _ => trivial) event request st
  have hquotes : Yields (PromptAnswers hint env W) (wf.runRequest event request st) fun out =>
      ∀ result, out = .ok result → QuotingData env.corpus result.data :=
    runRequest_quotes (prompt_answers_quote hcorpus) wf event request st
  have hassumed : Assumes 0 (LogAnswers (evidenceLaw hint) env W) (fun _ => True) (fun _ => True)
      True := prompt_assumed hcorpus
  have hfollows := runRequest_conforms hassumed wf event request st
  have hboth := (hquotes.and hfollows).imp (fun _ _ => trivial)
    (fun _ _ h => ⟨h, prompt_answers_log h⟩) (fun _ h => h) fun _ _ => trivial
  refine (Conforms.offering hboth huses).mono (fun out hout result hresult => ?_) fun _ h => h
  exact ⟨hout.1.1 result hresult, (hout.1.2 result hresult).follows trivial⟩

section
variable {st : LoopState} (hst : Prepared env.corpus st)
include hst

omit hcorpus in
theorem reject_offering (decision : PlannerDecision) (request : Option ToolRequest)
    (outcome : StepOutcome) (lastError exhausted : Text) :
    Offering hint env W (wf.reject x decision request outcome lastError exhausted st)
      (Prepared env.corpus) := by
  refine (offering_of_uses (persistRejectedStep_uses offers_bookkeeping _ _ _ _)).bind
    fun record _ => ?_
  dsimp only
  split
  · trivial
  · exact (hst.reject record).frame _ _

/-- **The round of a decision for a tool** leaves the worker prepared. -/
theorem toolTurn_offering (decision : PlannerDecision) (request : ToolRequest) :
    Offering hint env W (wf.toolTurn x event decision request st) (Prepared env.corpus) := by
  have hstatus : ∀ status, Offering hint env W (setStatus x status) fun _ => True := fun status =>
    offering_of_uses (setStatus_uses offers_bookkeeping status)
  unfold ControlledAgentWorkflow.toolTurn
  split
  · exact reject_offering wf hst _ _ _ _ _
  · refine (hstatus _).bind fun _ _ => (runRequest_offering hcorpus wf event request st).bind
      fun out hout => ?_
    cases out with
    | error e =>
        exact (reject_offering wf hst _ _ _ _ _).bind fun st' hst' =>
          (hstatus _).bind fun _ _ => hst'
    | ok result =>
        obtain ⟨hquotes, hfollows⟩ := hout result rfl
        obtain ⟨pairs, htrace⟩ := hfollows hst.citable.named
        have hwritten : Offers env.corpus (.flush [.insertStep
            (toolStepRecord x (st.steps.length + 1) decision request result)]) :=
          List.forall_mem_singleton.mpr (toolStepRecord_quotes x _ decision request hquotes)
        refine (Conforms.offering (persistToolStep_number _ decision request result)
          (persistToolStep_uses offers_bookkeeping hwritten)).bind fun record hrecord => ?_
        exact hst.record htrace hquotes hrecord.1

omit hcorpus in
/-- **The round of a decision for the final response** offers what the worker is prepared for. -/
theorem finalTurn_offering (decision : PlannerDecision) :
    Offering hint env W (wf.finalTurn x event decision st)
      fun out => ∀ st', out = some st' → Prepared env.corpus st' := by
  unfold ControlledAgentWorkflow.finalTurn
  dsimp only
  split
  · refine (reject_offering wf hst _ _ _ _ _).bind fun st' hst' => ?_
    exact fun st'' h => Option.some.inj h ▸ hst'
  · have hrender : Offers env.corpus
        (.render wf.resolverPrompt (resolverValues event st.steps st.results)) :=
      fun _ => ⟨st.results, hst.citable, rfl, rfl⟩
    have hcommit : ∀ final execution resolution context time,
        retrievedContext st.results = .ok context → Offers env.corpus (.commit .final
          (wf.finalChanges x decision final st.steps st.results execution resolution context
            time)) := by
      intro final execution resolution context time hcontext c hc
      simp only [finalChanges, List.mem_cons, List.not_mem_nil, or_false] at hc
      rcases hc with rfl | rfl | rfl
      · intro htool
        cases htool
      · refine .inr fun item hitem => ?_
        obtain ⟨result, hresult, hraw⟩ := mem_retrievedContext hcontext hitem
        exact (hst.citable.quotes result hresult).rawChunks item hraw
      · trivial
    refine (offering_of_uses (generateFinal_uses offers_bookkeeping wf (fun _ _ => trivial)
      hrender)).bind fun final _ => ?_
    refine (offering_of_uses (persistFinal_uses offers_bookkeeping wf event (hcommit final))).bind
      fun _ _ => ?_
    exact fun st' h => nomatch h

/-- **A round** leaves the worker prepared. -/
theorem round_offering (started : Rat) :
    Offering hint env W (wf.round x event started st)
      fun out => ∀ st', out = some st' → Prepared env.corpus st' := by
  have hassumed : Assumes x (LogAnswers (evidenceLaw hint) env W) (fun _ => True) (fun _ => True)
      True := prompt_assumed hcorpus
  have huses : Uses (Offers env.corpus) (wf.nextDecision x event st) fun _ => True :=
    nextDecision_uses offers_bookkeeping wf (fun _ _ => trivial)
      (fun values hkeys hmem => absurd (hkeys ▸ hmem) (by decide)) event st
  have hplanned := (nextDecision_conforms hassumed wf event st).imp (fun _ h => h)
    (fun _ _ (h : PromptAnswers hint env W _ _) => prompt_answers_log h) (fun _ h => h) fun _ h => h
  refine (offering_of_uses (checkBudgets_uses offers_bookkeeping wf _ _)).bind fun _ _ => ?_
  refine (Conforms.offering hplanned huses).bind fun out hout => ?_
  obtain ⟨⟨steps', results', toolCalls', signatures', lastError', repairCount'⟩, decision⟩ := out
  obtain ⟨⟨rfl, rfl, rfl, rfl, -⟩, -⟩ := hout
  have hst' := hst.frame repairCount' lastError'
  cases decision with
  | none => exact fun st'' h => Option.some.inj h ▸ hst'
  | some decision =>
      dsimp only
      split
      · refine (toolTurn_offering hcorpus wf event hst' decision _).bind fun st'' hst'' => ?_
        exact fun _ h => Option.some.inj h ▸ hst''
      · exact finalTurn_offering wf event hst' decision

end

/-- **The loop** offers nothing without its chunk. -/
theorem loop_offering (started : Rat) : ∀ (fuel : Nat) {st : LoopState},
    Prepared env.corpus st →
      Offering hint env W (wf.loop x event started fuel st) fun _ => True
  | 0, _, _ => trivial
  | fuel + 1, st, hst => by
      refine (round_offering hcorpus wf event hst started).bind fun out hout => ?_
      cases out with
      | none => trivial
      | some st' => exact loop_offering started fuel (hout st' rfl)

omit hcorpus in
/-- The log that is read prepares its reader. -/
theorem loadSteps_offering : Offering hint env W (loadSteps x) fun steps =>
    ∀ results, restoreResults steps = .ok results →
      Prepared env.corpus (initialState steps results) := by
  have hread : Yields (PromptAnswers hint env W) (loadSteps x) fun steps =>
      PromptAnswers hint env W (.select (.steps x)) (.ok steps) := withSession_yields select_yields
  refine (Conforms.offering hread (loadSteps_uses offers_bookkeeping)).mono (fun steps h => ?_)
    fun _ h => h
  obtain ⟨⟨_, s, hanswer, hinv, htables⟩, -⟩ := h
  have hsteps : steps = s.db.loadSteps x := hanswer
  exact hsteps ▸ fun results => prepared_of_tables hinv htables

/-- **A worker** offers nothing without its chunk. -/
theorem resolve_offering : Offering hint env W (wf.resolve event) fun _ => True := by
  have hclaim : Uses (Offers env.corpus) (wf.claim event) fun _ => True :=
    claim_uses offers_bookkeeping wf (fun _ => trivial) (fun _ => trivial) trivial event
  refine (offering_of_uses hclaim).bind fun out _ => ?_
  obtain ⟨x, terminal⟩ := out
  cases terminal with
  | some outcome => trivial
  | none =>
      have hclock : Offering hint env W perfCounter fun _ => True := ⟨trivial, fun _ _ => trivial⟩
      have hrestored : ∀ steps, Offering hint env W (answer (restoreResults steps)) fun results =>
          restoreResults steps = .ok results := fun _ =>
        conforms_answer.mpr ⟨fun _ h => h, fun _ _ => trivial⟩
      refine hclock.bind fun started _ => Conforms.tryCatch (Y := fun _ => True) ?_ fun e _ =>
        offering_of_uses (onFailure_uses offers_bookkeeping wf e)
      refine loadSteps_offering.bind fun steps hsteps => (hrestored steps).bind
        fun results hresults => ?_
      exact loop_offering hcorpus wf event started _ (hsteps results hresults)

/-! ## Runs -/

omit hcorpus in
theorem Offers.writes {o : Op} (h : Offers corpus o) : WritesQuotations corpus o := by
  cases o <;> first | exact h | exact trivial

/-- The platform in states whose logs are grounded. -/
def groundedPlatform (hint : ∀ i : Int, Pydantic.intOf (.int i) = some i) (env : Environment)
    (W : Type) [DecidableEq W] : Program.System Resp W (World W) :=
  (platform env).restrict fun _ _ s _ => LogInv (evidenceLaw hint) s.db

/-- **The discipline of the prompts**: the tables quote, and nothing is offered without its chunk. -/
def offersOnly (hint : ∀ i : Int, Pydantic.intOf (.int i) = some i) (env : Environment)
    (W : Type) [DecidableEq W] : Discipline (groundedPlatform hint env W) where
  inv := QuotingWorld env.corpus
  rely _ _ _ := True
  guar _ o _ _ _ := Offers env.corpus o
  rely_refl _ _ := trivial
  rely_trans _ _ _ _ _ _ := trivial
  guar_rely _ _ _ _ _ _ _ _ _ _ := trivial
  crash_inv w s h := by
    have hback := h.rollback w
    exact ⟨by simpa [groundedPlatform, platform, System.restrict, World.crash] using hback.tables,
      fun v c hc => hback.staged v c (by
        simpa [groundedPlatform, platform, System.restrict, World.crash] using hc)⟩
  crash_rely _ _ _ _ _ := trivial

omit hcorpus [DecidableEq W] in
theorem LogStart.quotes {s : World W} (h : LogStart s) : QuotingWorld corpus s := by
  refine ⟨⟨?_, ?_⟩, fun w c hc => ?_⟩
  · rw [h.steps]
    exact List.forall_mem_nil _
  · rw [h.resolutions]
    exact List.forall_mem_nil _
  · rw [h.idle w] at hc
    cases hc

theorem resolve_offers (s : World W) (w : W) :
    (wf.resolve event).Safe (offersOnly hint env W) w (fun _ _ => True) (fun _ _ => True) s := by
  have hoffers : Offering hint env W (wf.resolve event) fun _ => True :=
    resolve_offering hcorpus wf event
  refine (Safe.of_conforms (P := fun _ => True) hoffers ?_ trivial).mono (fun _ _ _ => trivial)
    fun _ _ _ => trivial
  rintro o ho _ s₁ r s₂ _ _ hI ⟨hinv, hp, rfl⟩
  exact ⟨⟨hI.after ho.writes hp, ho⟩, ⟨w, s₁, hp, hinv, hI.tables⟩, trivial⟩

end

section
variable [Runtime] [Pydantic]

end

/-- Whether the next call of `w` renders the prompt of the resolver. -/
def rendersFinal (w : Bool) (p : Pool Resp PyExc ResolutionWorkflowOutcome Bool (World Bool)) :
    Bool :=
  match p.task w with
  | some (.call (.render _ values) _) => decide (("citations" : Text) ∈ Dict.keys values)
  | _ => false

theorem step_of_rendersFinal [Runtime] [Pydantic] {env : Environment} {w : Bool}
    {p : Pool Resp PyExc ResolutionWorkflowOutcome Bool (World Bool)}
    (h : rendersFinal w p = true) : ∃ template values r p',
      Pool.Step (platform env) p (.act w (.render template values) r) p' ∧
        ("citations" : Text) ∈ Dict.keys values := by
  unfold rendersFinal at h
  split at h
  · rename_i template values k ht
    exact ⟨template, values, template.render values, _, .act ht ⟨rfl, rfl⟩, of_decide_eq_true h⟩
  · cases h

theorem dumps_obj [Runtime] (entries : List (Text × Json)) :
    Json.dumps (.obj entries) = ['\x7b'] ++ Text.join ","
      ((Json.sortEntries (entries.map fun e => (e.1, Json.dumps e.2))).map
        fun e => Json.quoted true e.1 ++ ":" ++ e.2) ++ ['\x7d'] := by
  rw [Json.dumps, Json.encode, Json.encodeEntries_eq]
  rfl

/-- The data of a result comes first in its entry. -/
theorem dumps_evidenceEntry [Runtime] (n : Nat) (r : ToolResult) : ∃ after,
    Json.dumps (evidenceEntry n r) =
      ("\x7b\"data\":" : Text) ++ (Json.dumps (.obj r.data) ++ after) := by
  have hsorted : ∀ step tool summary data references : Text,
      Json.sortEntries [("step", step), ("tool", tool), ("summary", summary), ("data", data),
        ("evidence_references", references)] =
      ([("data", data), ("evidence_references", references), ("step", step), ("summary", summary),
        ("tool", tool)] : List (Text × Text)) := fun _ _ _ _ _ => rfl
  rw [evidenceEntry, dumps_obj]
  simp only [List.map_cons, List.map_nil, hsorted, Text.join, List.append_assoc]
  exact ⟨_, rfl⟩

/-- A chunk as a result holds it. -/
def longItem (chunkId : Int) (sourceId content : Text) : Json :=
  .obj [("source_id", .str sourceId), ("chunk_id", .int chunkId), ("title", .str "Timeouts"),
    ("category", .str "timeout"), ("content", .str content), ("similarity", .float (.finite 1))]

/-- The content of a chunk comes before its source. -/
theorem dumps_longItem [Runtime] (chunkId : Int) (sourceId content : Text) :
    Json.dumps (longItem chunkId sourceId content) =
      ("\x7b\"category\":\"timeout\",\"chunk_id\":" : Text) ++ (Text.ofInt chunkId ++
        ((",\"content\":" : Text) ++ (Json.quoted true content ++
          ((",\"similarity\":" : Text) ++ (Runtime.floatRepr 1 ++ ((",\"source_id\":" : Text) ++
            (Json.quoted true sourceId ++ (",\"title\":\"Timeouts\"\x7d" : Text)))))))) := by
  have hsorted : ∀ source chunk title category content similarity : Text,
      Json.sortEntries [("source_id", source), ("chunk_id", chunk), ("title", title),
        ("category", category), ("content", content), ("similarity", similarity)] =
      ([("category", category), ("chunk_id", chunk), ("content", content),
        ("similarity", similarity), ("source_id", source), ("title", title)] :
          List (Text × Text)) := fun _ _ _ _ _ _ => rfl
  rw [longItem, dumps_obj]
  simp only [List.map_cons, List.map_nil, hsorted, Text.join, List.append_assoc]
  rfl

/-- What stands between the results and the first content. -/
def opening : Text :=
  ("\x7b\"data\":" : Text) ++ (("\x7b\"chunks\":" : Text) ++ (("[" : Text) ++
    (("\x7b\"category\":\"timeout\",\"chunk_id\":" : Text) ++ (Text.ofInt 3 ++
      (",\"content\":" : Text)))))

/-- What stands between the contents. -/
def between [Runtime] : Text :=
  (",\"similarity\":" : Text) ++ (Runtime.floatRepr 1 ++ ((",\"source_id\":" : Text) ++
    (Json.quoted true "api-timeouts" ++ ((",\"title\":\"Timeouts\"\x7d" : Text) ++ (("," : Text) ++
      (("\x7b\"category\":\"timeout\",\"chunk_id\":" : Text) ++ (Text.ofInt 4 ++
        (",\"content\":" : Text))))))))

/-- The data of a result that holds two chunks. -/
def longData (first second : Text) : Dict Text Json :=
  [("chunks", .arr [longItem 3 "api-timeouts" first, longItem 4 "zz-gateway" second])]

/-- The contents of the chunks come one after the other. -/
theorem dumps_longResults [Runtime] {first second : Text} {n m : Nat} (incident : ToolResult)
    {runbooks : ToolResult} (hdata : runbooks.data = longData first second) : ∃ after,
      Json.dumps (evidenceOf [(n, incident), (m, runbooks)]) =
        (("[" : Text) ++ (Json.dumps (evidenceEntry n incident) ++ (("," : Text) ++ (opening ++
          (Json.quoted true first ++ (between ++ Json.quoted true second)))))) ++ after := by
  obtain ⟨after, hentry⟩ := dumps_evidenceEntry m runbooks
  have harray : ∀ a b : Json, Json.dumps (.arr [a, b]) =
      ("[" : Text) ++ (Json.dumps a ++ (("," : Text) ++ (Json.dumps b ++ ("]" : Text)))) := by
    intro a b
    rw [Json.dumps, Json.encode, Json.encodeItems_eq]
    simp only [List.map_cons, List.map_nil, Text.join, List.append_assoc]
    rfl
  have hchunks : ∀ a : Json, Json.dumps (.obj [("chunks", a)]) =
      ("\x7b\"chunks\":" : Text) ++ (Json.dumps a ++ ("\x7d" : Text)) := by
    intro a
    rw [dumps_obj]
    rfl
  rw [hdata, longData, hchunks, harray, dumps_longItem, dumps_longItem] at hentry
  rw [evidenceOf, List.map_cons, List.map_cons, List.map_nil, harray, hentry]
  unfold opening between
  simp only [List.append_assoc]
  exact ⟨_, rfl⟩

/-- A content that fills its bound with characters that take two escapes each. -/
def longContent : Text := List.replicate 1200 (Char.ofNat 0x1F600)

/-- Two chunks of the knowledge base with such a content. -/
def longChunks : List RetrievedChunk :=
  [{ timeoutChunk with content := longContent },
    { timeoutChunk with chunkId := 4, sourceId := "zz-gateway", content := longContent }]

/-- An environment without faults whose knowledge base holds them. -/
def Environment.longWinded : Environment := ⟨false, fun c => longChunks.elem c⟩

/-- The answers in a conversation in which the retriever finds them. -/
def longAnswers (w : Bool) : (o : Op) → World Bool → Resp o
  | .retrieve _ _ _, _ => .ok longChunks
  | o, s => conversation finalDecision citingResponse w o s

/-- The results of an incident and of the two chunks. -/
def holdsLongChunks (results : Results) : Bool :=
  match results with
  | [(n, incident), (_, runbooks)] =>
      (Json.dumps (evidenceEntry n incident)).all (· ≠ 'z') && decide (runbooks.data = longData longContent longContent) &&
        decide (pairEntry ("zz-gateway", 4) ∈ citationsOf results)
  | _ => false

/-- The encoding of a long content is long, and says nothing. -/
theorem quoted_longContent :
    (Json.quoted true longContent).length = 14402 ∧ 'z' ∉ Json.quoted true longContent := by
  have hescape : ∀ n : Nat, ((List.replicate n (Char.ofNat 0x1F600)).flatMap
      (Json.escapeChar true)).length = 12 * n ∧
      'z' ∉ (List.replicate n (Char.ofNat 0x1F600)).flatMap (Json.escapeChar true) := by
    intro n
    have hlen : (Json.escapeChar true (Char.ofNat 0x1F600)).length = 12 := by decide
    have hnone : 'z' ∉ Json.escapeChar true (Char.ofNat 0x1F600) := by decide
    induction n with
    | zero => simp
    | succ n ih =>
        rw [List.replicate_succ, List.flatMap_cons, List.length_append, List.mem_append, hlen, ih.1]
        exact ⟨by omega, fun h => h.elim hnone ih.2⟩
  have hmark : 'z' ≠ Text.doubleQuote := by decide
  obtain ⟨hlen, hnone⟩ := hescape 1200
  rw [Json.quoted, longContent]
  constructor
  · rw [List.length_append, List.length_cons, hlen]
    rfl
  · rw [List.mem_append, List.mem_cons, List.mem_singleton]
    exact fun h => h.elim (fun h => h.elim hmark hnone) hmark

/-- **The second chunk is cut off**, with the source that may be cited for it. -/
theorem longChunks_cut {results : Results} (h : holdsLongChunks results = true) :
    'z' ∉ evidenceSection results ∧ 28000 < (Json.dumps (evidenceOf results)).length := by
  obtain ⟨n, incident, m, runbooks, rfl⟩ : ∃ n incident m runbooks,
      results = [(n, incident), (m, runbooks)] := by
    unfold holdsLongChunks at h
    split at h
    · exact ⟨_, _, _, _, rfl⟩
    · cases h
  simp only [holdsLongChunks, Bool.and_eq_true, decide_eq_true_eq] at h
  obtain ⟨⟨hincident, hdata⟩, -⟩ := h
  have hfirst : 'z' ∉ Json.dumps (evidenceEntry n incident) := fun hz => by
    simpa using List.all_eq_true.mp hincident 'z' hz
  have hopening : 'z' ∉ opening := by decide
  have hbetween : 'z' ∉ between := by decide
  obtain ⟨hlen, hquoted⟩ := quoted_longContent
  obtain ⟨after, hdumps⟩ := dumps_longResults (n := n) (m := m) incident hdata
  generalize Json.quoted true longContent = quoted at *
  have hlong : 28000 < (("[" : Text) ++ (Json.dumps (evidenceEntry n incident) ++ (("," : Text) ++
      (opening ++ (quoted ++ (between ++ quoted)))))).length := by
    simp only [List.length_append, hlen]
    omega
  constructor
  · intro hz
    have htake : evidenceSection [(n, incident), (m, runbooks)] =
        (Json.dumps (evidenceOf [(n, incident), (m, runbooks)])).take 28000 := rfl
    rw [htake, hdumps, List.take_append_of_le_length hlong.le] at hz
    have hz := List.mem_of_mem_take hz
    simp only [List.mem_append] at hz
    rcases hz with hz | hz | hz | hz | hz | hz | hz
    · exact absurd hz (by decide)
    · exact hfirst hz
    · exact absurd hz (by decide)
    · exact hopening hz
    · exact hquoted hz
    · exact hbetween hz
    · exact hquoted hz
  · rw [hdumps, List.length_append]
    omega

end SupportPlatform
