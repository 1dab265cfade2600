import SupportPlatform.StepWriters

/-! # The texts of the chunks

The content of a runbook chunk reaches the tools through the retriever, or through the context
that an earlier attempt stored with its resolution.  On its way it is cut to a bound by the
tools, and sanitized by the executor and where it is stored (`ContentOf`).  That is all that
happens to it: every chunk that the result of a tool holds quotes a chunk of the knowledge base
(`Quotes`), also when the result is read back from the log.
-/
namespace SupportPlatform
open Program ControlledAgentWorkflow

section
variable [Runtime] [Pydantic]

/-! ## Quotations -/

/-- A copy of the content of a chunk: bounded, sanitized, and perhaps bounded again. -/
inductive ContentOf (chunk : RetrievedChunk) : Text → Prop
  | bounded : ContentOf chunk (boundText chunk.content 1200)
  | sanitized {text : Text} (h : ContentOf chunk text) : ContentOf chunk (sanitizeText text)
  | boundedAgain {text : Text} (h : ContentOf chunk text) : ContentOf chunk (boundText text 1200)

/-- **The item quotes** the chunk of the pair from the corpus. -/
def Quotes (corpus : RetrievedChunk → Bool) (p : ChunkPair) (item : Json) : Prop :=
  ∃ (chunk : RetrievedChunk) (content : Text) (title category similarity : Json),
    corpus chunk = true ∧ (chunk.sourceId, chunk.chunkId) = p ∧ ContentOf chunk content ∧
    item = .obj [("source_id", .str p.1), ("chunk_id", .int p.2), ("title", title),
      ("category", category), ("content", .str content), ("similarity", similarity)]

variable {corpus : RetrievedChunk → Bool}

omit [Pydantic] in
theorem Quotes.isChunk {p : ChunkPair} {item : Json} (h : Quotes corpus p item) :
    IsChunk p item := by
  obtain ⟨_, content, title, category, similarity, -, -, -, rfl⟩ := h
  exact ⟨title, category, .str content, similarity, rfl⟩

omit [Pydantic] in
/-- Sanitizing keeps a quotation. -/
theorem Quotes.sanitize {p : ChunkPair} {item : Json} (h : Quotes corpus p item) (hp : p.Named)
    (n : Nat) : Quotes corpus p (sanitizeLevels (n + 2) item) := by
  obtain ⟨chunk, content, title, category, similarity, hc, hpair, hcontent, rfl⟩ := h
  refine ⟨chunk, sanitizeText content, sanitizeLevels (n + 1) title,
    sanitizeLevels (n + 1) category, sanitizeLevels (n + 1) similarity, hc, hpair,
    hcontent.sanitized, ?_⟩
  have hitem : sanitizeLevels (n + 2) (.obj [("source_id", .str p.1), ("chunk_id", .int p.2),
      ("title", title), ("category", category), ("content", .str content),
      ("similarity", similarity)]) =
    .obj [("source_id", .str (sanitizeText p.1)), ("chunk_id", .int p.2),
      ("title", sanitizeLevels (n + 1) title), ("category", sanitizeLevels (n + 1) category),
      ("content", .str (sanitizeText content)),
      ("similarity", sanitizeLevels (n + 1) similarity)] := rfl
  rw [hitem, show sanitizeText p.1 = p.1 from hp.clean]

/-- The item quotes a chunk that references can name. -/
def Quotation (corpus : RetrievedChunk → Bool) (item : Json) : Prop :=
  ∃ p : ChunkPair, p.Named ∧ Quotes corpus p item

/-- The chunks that the data of a result holds are quotations. -/
def QuotingData (corpus : RetrievedChunk → Bool) (data : Dict Text Json) : Prop :=
  (∃ items : List Json, data = ([("chunks", .arr items)] : Dict Text Json) ∧
    ∀ item ∈ items, Quotation corpus item) ∨ ("chunks" : Text) ∉ data.keys

omit [Pydantic] in
/-- **Sanitizing keeps the quotations** of a result. -/
theorem QuotingData.sanitize {data : Dict Text Json} (h : QuotingData corpus data) (n : Nat) :
    QuotingData corpus (sanitizeEntries (sanitizeLevels (n + 3)) data) := by
  rcases h with ⟨items, rfl, hitems⟩ | hkeys
  · refine .inl ⟨(items.take 50).map (sanitizeLevels (n + 2)), rfl, fun item hitem => ?_⟩
    obtain ⟨raw, hraw, rfl⟩ := List.mem_map.mp hitem
    obtain ⟨p, hp, hquotes⟩ := hitems raw (List.mem_of_mem_take hraw)
    exact ⟨p, hp, hquotes.sanitize hp n⟩
  · refine .inr fun hmem => ?_
    obtain ⟨k, hk, hcut⟩ := mem_keys_sanitizeEntries hmem
    have hlen : ("chunks" : Text).length = min 120 k.length := by rw [hcut, List.length_take]
    rw [List.take_of_length_le (by change 6 = _ at hlen; omega)] at hcut
    exact hkeys (hcut ▸ hk)

omit [Pydantic] in
/-- The chunks of a result are quotations. -/
theorem QuotingData.rawChunks {r : ToolResult} (h : QuotingData corpus r.data) :
    ∀ item ∈ rawChunks r, Quotation corpus item := by
  rcases h with ⟨items, hdata, hitems⟩ | hkeys
  · rw [ControlledAgentWorkflow.rawChunks, hdata]
    exact hitems
  · rw [ControlledAgentWorkflow.rawChunks, Dict.get?_eq_none.mpr hkeys]
    exact List.forall_mem_nil _

/-! ## The tools -/

/-- A program and what it returns, when its calls are answered within `B`. -/
abbrev Yields {α : Type} (B : (o : Op) → Resp o → Prop) (p : Py α) (Q : α → Prop) : Prop :=
  p.Conforms (fun _ => True) B Q fun _ => True

/-- The stored context of a resolution consists of quotations. -/
def QuotingContext (corpus : RetrievedChunk → Bool) (r : Resolution) : Prop :=
  ∀ item ∈ r.retrievedContext.getD [], Quotation corpus item

/-- **What the tools are answered**: chunks of the corpus, which are named as the manifest
demands, and resolutions whose context quotes it. -/
structure AnswersQuote (corpus : RetrievedChunk → Bool) (B : (o : Op) → Resp o → Prop) : Prop where
  retrieve : ∀ q n c chunks, B (.retrieve q n c) (.ok chunks) →
    ∀ chunk ∈ chunks, corpus chunk = true ∧ ManifestId (chunk : RetrievedChunk).sourceId
  context : ∀ i r, B (.select (.resolutionOf i)) (.ok (some r)) → QuotingContext corpus r

variable {B : (o : Op) → Resp o → Prop} (hB : AnswersQuote corpus B)

omit [Runtime] in
/-- The output of a tool has the data and the references that it is given. -/
theorem toolOutput_yields {summary : Text} {data : Dict Text Json}
    {refs : List (Option EvidenceReference)} {Q : ToolOutput → Prop}
    (hQ : ∀ summary refs', refs = refs'.1.map some → Q ⟨summary, data, refs'⟩) :
    Yields B (toolOutput summary data refs) Q :=
  (toolOutput_conforms (L := fun _ => True) (X := fun _ => True) hQ).imp (fun _ _ => trivial) (fun _ _ h => h)
    (fun _ h => h) fun _ _ => trivial

/-- An output without chunks. -/
theorem quotes_without_chunks {summary : Text} {data : Dict Text Json}
    {refs : List (Option EvidenceReference)} (h : ("chunks" : Text) ∉ data.keys) :
    Yields B (toolOutput summary data refs) fun output => QuotingData corpus output.data :=
  toolOutput_yields fun _ _ _ => .inr h

section
omit [Runtime] [Pydantic]

theorem select_yields {query : Query} :
    Yields B (select query) fun rows => B (.select query) (.ok rows) :=
  select_conforms trivial (fun _ _ => trivial) fun _ h => h

theorem withSession_yields {α : Type} {body : Py α} {Q : α → Prop} (h : Yields B body Q) :
    Yields B (withSession body) Q := withSession_conforms trivial h

theorem requireIncident_yields (id : Int) : Yields B (requireIncident id) fun _ => True := by
  refine select_yields.bind fun row _ => ?_
  cases row <;> trivial

end

include hB in
theorem retrieveRunbooksTool_quotes (input : RetrieveRunbooksInput) (context : ToolContext) :
    Yields B (retrieveRunbooksTool input context) fun output =>
      QuotingData corpus output.data := by
  refine ⟨trivial, fun r hr => ?_⟩
  cases r with
  | error e => trivial
  | ok chunks =>
      refine toolOutput_yields fun s refs hall => .inl ⟨_, rfl, fun item hitem => ?_⟩
      obtain ⟨chunk, hchunk, rfl⟩ := List.mem_map.mp hitem
      obtain ⟨hcorpus, hid⟩ := hB.retrieve _ _ _ chunks hr chunk hchunk
      -- the chunk is referred to, so its identifier has the length of one
      obtain ⟨ref, -, href⟩ := exists_of_forall₂_left (forall₂_of_map_eq hall) hchunk
      obtain ⟨-, hpair⟩ := EvidenceReference.runbookPair?_eq_some.mp (ofChunk_pair href)
      rw [EvidenceReference.pair, Prod.mk.injEq] at hpair
      obtain ⟨source, -, hsource⟩ := Option.map_eq_some_iff.mp hpair.1
      refine ⟨(chunk.sourceId, chunk.chunkId), ⟨hid, ?_⟩, chunk, _, _, _, _, hcorpus, rfl,
        .bounded, rfl⟩
      have hlen := source.2.2
      rw [hsource] at hlen
      exact hlen

omit [Pydantic] in
/-- A stored quotation is read back as one. -/
theorem Quotation.contextData {item : Json} {entries : Dict Text Json}
    (h : Quotation corpus item) (hentries : dictOf item = some entries) :
    Quotation corpus (.obj (contextData entries)) := by
  obtain ⟨p, hp, chunk, content, title, category, similarity, hc, hpair, hcontent, rfl⟩ := h
  cases hentries
  exact ⟨p, hp, chunk, boundText content 1200, _, _, _, hc, hpair, hcontent.boundedAgain, rfl⟩

include hB in
theorem getIncidentResolutionContextTool_quotes (input : ResolutionContextInput)
    (context : ToolContext) :
    Yields B (getIncidentResolutionContextTool input context) fun output =>
      QuotingData corpus output.data := by
  have hread : ∀ {summary : Text} {refs : List (Option EvidenceReference)} {items : List Json}
      {found : List (Dict Text Json)}, (∀ item ∈ items, Quotation corpus item) →
      items.mapM dictOf = some found →
      Yields B (toolOutput summary [("chunks", .arr ((found.map contextData).map .obj))] refs)
        fun output => QuotingData corpus output.data := by
    intro summary refs items found hitems hfound
    refine toolOutput_yields fun s refs _ => .inl ⟨_, rfl, fun item hitem => ?_⟩
    obtain ⟨data, hdata, rfl⟩ := List.mem_map.mp hitem
    obtain ⟨entries, hentries, rfl⟩ := List.mem_map.mp hdata
    obtain ⟨stored, hmem, hread⟩ := exists_of_forall₂_right (forall₂_of_mapM hfound) hentries
    exact (hitems stored hmem).contextData hread
  refine (withSession_yields select_yields).bind fun row hrow => ?_
  cases row with
  | none => exact hread (List.forall_mem_nil _) rfl
  | some resolution =>
      have hstored : QuotingContext corpus resolution := hB.context _ _ hrow
      dsimp only
      cases hfound : (((resolution : Resolution).retrievedContext.getD []).take 8).mapM dictOf with
      | none => trivial
      | some found =>
          exact hread (fun item hitem => hstored item (List.mem_of_mem_take hitem)) hfound

include hB in
/-- **Every tool** returns quotations. -/
theorem tool_quotes {tool : AgentTool} (ht : tool ∈ ToolRegistry.tools) (input : tool.Input)
    (context : ToolContext) :
    Yields B (tool.execute input context) fun output => QuotingData corpus output.data := by
  simp only [ToolRegistry.tools, List.mem_cons, List.not_mem_nil, or_false] at ht
  rcases ht with rfl | rfl | rfl | rfl | rfl | rfl
  · exact (withSession_yields (requireIncident_yields _)).bind fun _ _ =>
      quotes_without_chunks (by simp [Dict.keys])
  · exact retrieveRunbooksTool_quotes hB input context
  · refine Conforms.bind (Q := fun _ => True) (withSession_yields ?_) fun found _ => ?_
    · exact (requireIncident_yields _).bind fun _ _ => select_yields.bind fun _ _ => trivial
    · exact quotes_without_chunks (by simp [Dict.keys])
  · refine Conforms.bind (Q := fun _ => True) (withSession_yields ?_) fun found _ => ?_
    · exact (requireIncident_yields _).bind fun _ _ => select_yields.mono (fun _ _ => trivial)
        fun _ h => h
    · exact quotes_without_chunks (by simp [Dict.keys])
  · exact getIncidentResolutionContextTool_quotes hB input context
  · exact quotes_without_chunks (by simp [Dict.keys])

include hB in
/-- **The executor** hands the quotations on. -/
theorem execute_quotes (maxToolCalls : Nat) (request : ToolRequest) (context : ToolContext)
    (currentToolCalls : Nat) :
    Yields B (ToolExecutor.execute maxToolCalls request context currentToolCalls) fun result =>
      QuotingData corpus result.data := by
  have hraise : ∀ (condition : Prop) [Decidable condition] (e : PyExc),
      Yields B (raiseIf condition e) fun _ => True := fun _ _ _ =>
    (raiseIf_conforms fun _ => trivial).mono (fun _ _ => trivial) fun _ h => h
  have hissue : ∀ o : Op, Yields B (issue o) fun _ => True := fun _ =>
    issue_conforms trivial fun _ _ => trivial
  refine (hraise _ _).bind fun _ _ => (hraise _ _).bind fun _ _ => ?_
  cases hget : ToolRegistry.get? request.toolName.1 with
  | none => trivial
  | some tool =>
      have htool := (get?_registered hget).1
      dsimp only
      unfold ToolExecutor.runTool
      split
      · trivial
      · rename_i arguments _
        have hcall : Yields B (ToolExecutor.callTool tool.name (tool.execute arguments context))
            fun output => QuotingData corpus output.data := by
          refine Conforms.bind (hissue .toolTimedOut) fun timedOut _ =>
            (hraise _ _).bind fun _ _ => (tool_quotes hB htool arguments context).tryCatch fun e _ => ?_
          split <;> trivial
        have helapsed : ∀ started, Yields B (perfCounterSince started) fun _ => True :=
          fun _ => ⟨trivial, fun _ _ => trivial⟩
        refine (hraise _ _).bind fun _ _ => Conforms.bind (hissue (.perfCounter none))
          fun started _ => hcall.bind fun output houtput => (helapsed _).bind fun elapsed _ => ?_
        generalize (ToolExecutor.outputJson output).utf8Length = size
        refine (hraise _ _).bind fun _ _ => conforms_answer.mpr
          ⟨fun result hresult => ?_, fun _ _ => trivial⟩
        rw [toolResult_data hresult]
        exact houtput.sanitize 1

include hB in
theorem runRequest_quotes (wf : ControlledAgentWorkflow) (event : IncidentCreatedEvent)
    (request : ToolRequest) (st : LoopState) :
    Yields B (wf.runRequest event request st) fun out => ∀ result, out = .ok result →
      QuotingData corpus result.data := by
  refine tryExcept_conforms ((execute_quotes hB _ _ _ _).bind fun result hresult => ?_)
    (fun e _ _ => ?_) fun _ _ _ => trivial
  · exact fun result' h => Except.ok.inj h ▸ hresult
  · split
    · trivial
    · exact fun _ h => nomatch h

/-! ## What is stored -/

/-- The result that the row of a tool call stores is read back with quotations. -/
def QuotingRow (corpus : RetrievedChunk → Bool) (r : AgentStep) : Prop :=
  r.actionType = .tool → ∀ summary result, r.resultSummary = some summary →
    ToolResult.ofJson summary = some result → QuotingData corpus result.data

theorem toolStepRecord_quotes (x : Uuid) (n : Nat) (decision : PlannerDecision)
    (request : ToolRequest) {result : ToolResult} (h : QuotingData corpus result.data) :
    QuotingRow corpus (toolStepRecord x n decision request result) := by
  intro _ summary result' hsummary hread
  cases hsummary
  rw [ToolResult.restore_data hread]
  exact h.sanitize 0

/-- **Results that are read back** from quoting rows hold quotations. -/
theorem restoreResults_quotes {steps : List AgentStep} {results : Results}
    (h : ∀ step ∈ steps, QuotingRow corpus step) (hr : restoreResults steps = .ok results) :
    ∀ result ∈ results.values, QuotingData corpus result.data := by
  have hread : ∀ (steps : List AgentStep) (found results : Results),
      (∀ step ∈ steps, QuotingRow corpus step) →
      (∀ result ∈ found.values, QuotingData corpus result.data) →
      steps.foldlM restoreResult found = .ok results →
      ∀ result ∈ results.values, QuotingData corpus result.data := by
    intro steps
    induction steps with
    | nil =>
        intro found results _ hfound h
        cases h
        exact hfound
    | cons step steps ih =>
        intro found results hsteps hfound h
        rw [List.foldlM_cons] at h
        have hrest : ∀ step ∈ steps, QuotingRow corpus step := fun step hstep =>
          hsteps step (List.mem_cons_of_mem _ hstep)
        cases hone : restoreResult found step with
        | error e => rw [hone] at h; cases h
        | ok found' =>
            rw [hone] at h
            refine ih found' results hrest ?_ h
            rw [restoreResult] at hone
            split at hone
            · rename_i htool
              split at hone
              · cases hone
                exact hfound
              · rename_i summary hsummary
                simp only [ToolResult.modelValidate, validated] at hone
                cases hread : ToolResult.ofJson summary with
                | none => rw [hread] at hone; cases hone
                | some result =>
                    rw [hread] at hone
                    cases hone
                    intro result' hresult'
                    obtain ⟨e, he, rfl⟩ := List.mem_map.mp hresult'
                    rcases Dict.mem_set he with rfl | he
                    · exact hsteps step List.mem_cons_self htool.1 summary result hsummary hread
                    · exact hfound _ (List.mem_map.mpr ⟨e, he, rfl⟩)
            · cases hone
              exact hfound
  exact hread steps [] results h (List.forall_mem_nil _) hr

omit [Runtime] [Pydantic] in
/-- **The context that is stored** consists of chunks of the results. -/
theorem mem_retrievedContext {results : Results} {context : List Json}
    (h : retrievedContext results = .ok context) {item : Json} (hitem : item ∈ context) :
    ∃ result ∈ results.values, item ∈ rawChunks result := by
  have hfold : ∀ (items : List Json) (chunks chunks' : Dict (Json × Json) Json),
      items.foldlM addChunk chunks = .ok chunks' →
      ∀ item ∈ chunks'.values, item ∈ chunks.values ∨ item ∈ items := by
    intro items
    induction items with
    | nil =>
        intro chunks chunks' h item hitem
        cases h
        exact .inl hitem
    | cons first items ih =>
        intro chunks chunks' h item hitem
        rw [List.foldlM_cons] at h
        cases hadd : addChunk chunks first with
        | error e => rw [hadd] at h; cases h
        | ok added =>
            rw [hadd] at h
            rcases ih added chunks' h item hitem with hold | hnew
            · have hkept : item ∈ chunks.values ∨ item = first := by
                unfold addChunk at hadd
                split at hadd
                -- an item without a source or a chunk is passed over
                iterate 4
                  · cases hadd
                    exact .inl hold
                · rename_i source chunk _ _ _ _
                  cases hsource : hashKey source with
                  | error e => rw [hsource] at hadd; cases hadd
                  | ok sourceKey =>
                      cases hchunk : hashKey chunk with
                      | error e => rw [hsource, hchunk] at hadd; cases hadd
                      | ok chunkKey =>
                          rw [hsource, hchunk] at hadd
                          cases hadd
                          obtain ⟨e, he, rfl⟩ := List.mem_map.mp hold
                          rcases Dict.mem_set he with rfl | he
                          · exact .inr rfl
                          · exact .inl (List.mem_map.mpr ⟨e, he, rfl⟩)
              rcases hkept with hkept | rfl
              · exact .inl hkept
              · exact .inr List.mem_cons_self
            · exact .inr (List.mem_cons_of_mem _ hnew)
  rw [retrievedContext] at h
  cases hchunks : (results.values.flatMap rawChunks).foldlM addChunk [] with
  | error e => rw [hchunks] at h; cases h
  | ok chunks =>
      rw [hchunks] at h
      cases h
      rcases hfold _ _ _ hchunks item hitem with hnone | hraw
      · cases hnone
      · exact List.mem_flatMap.mp hraw

/-- **The tables quote**: the rows of the tool calls, and the stored contexts. -/
structure QuotingTables (corpus : RetrievedChunk → Bool) (db : Database) : Prop where
  steps : ∀ r ∈ db.steps, QuotingRow corpus r
  resolutions : ∀ r ∈ db.resolutions, QuotingContext corpus r

/-- The change writes quotations. -/
def Change.Quoting (corpus : RetrievedChunk → Bool) : Change → Prop
  | .insertStep r => QuotingRow corpus r
  | .insertResolution r => QuotingContext corpus r
  | .updateResolution l e => e.retrievedContext = l.retrievedContext ∨ QuotingContext corpus e
  | _ => True

/-- A plain change writes no results and no context. -/
theorem Change.Plain.quoting {c : Change} (h : c.Plain) : c.Quoting corpus := by
  cases c with
  | insertStep r =>
      intro _ summary result hsummary
      rw [show r.resultSummary = none from h] at hsummary
      cases hsummary
  | insertResolution r =>
      intro item hitem
      rw [show r.retrievedContext = none from h] at hitem
      cases hitem
  | updateResolution l e => exact .inl h
  | _ => trivial

/-- **A change that quotes** keeps the tables quoting. -/
theorem QuotingTables.apply {db : Database} (h : QuotingTables corpus db) {c : Change}
    (hc : c.Quoting corpus) : QuotingTables corpus (db.apply c) := by
  cases c with
  | insertStep r =>
      refine ⟨fun row hrow => ?_, h.resolutions⟩
      rcases List.mem_append.mp hrow with hrow | hrow
      · exact h.steps row hrow
      · rw [List.mem_singleton.mp hrow]
        exact hc
  | insertResolution r =>
      refine ⟨h.steps, fun row hrow => ?_⟩
      rcases List.mem_append.mp hrow with hrow | hrow
      · exact h.resolutions row hrow
      · rw [List.mem_singleton.mp hrow]
        exact hc
  | updateResolution l e =>
      refine ⟨h.steps, fun row hrow => ?_⟩
      obtain ⟨current, hcurrent, rfl⟩ := List.mem_map.mp hrow
      have hold := h.resolutions current hcurrent
      split
      · show ∀ item ∈ (put l.retrievedContext e.retrievedContext current.retrievedContext).getD [], _
        -- the column is written when the object was edited there
        unfold put
        split
        · exact hold
        · rename_i hedited
          exact hc.resolve_left hedited
      · exact hold
  | _ => exact ⟨h.steps, h.resolutions⟩

theorem QuotingTables.applyAll {cs : List Change} : ∀ {db : Database}, QuotingTables corpus db →
    (∀ c ∈ cs, c.Quoting corpus) → QuotingTables corpus (db.applyAll cs) := by
  induction cs with
  | nil => exact fun h _ => h
  | cons c cs ih =>
      intro db h hcs
      exact ih (h.apply (hcs c List.mem_cons_self)) fun d hd => hcs d (List.mem_cons_of_mem _ hd)

variable {W : Type} [DecidableEq W] {env : Environment}

/-- The tables quote, and so does what is sent to them. -/
structure QuotingWorld (corpus : RetrievedChunk → Bool) (s : World W) : Prop where
  tables : QuotingTables corpus s.db
  staged : ∀ w, ∀ c ∈ s.staged w, Change.Quoting corpus c

/-- The calls of the workflow that write, write quotations. -/
def WritesQuotations (corpus : RetrievedChunk → Bool) : Op → Prop
  | .flush cs => ∀ c ∈ cs, Change.Quoting corpus c
  | .commit _ cs => ∀ c ∈ cs, Change.Quoting corpus c
  | .now | .perfCounter _ | .uuid4 | .select _ | .lockExecution _ | .closeSession | .render _ _
  | .chat _ _ | .retrieve _ _ _ | .toolTimedOut => True
  | _ => False

theorem QuotingWorld.rollback {s : World W} (h : QuotingWorld corpus s) (w : W) :
    QuotingWorld corpus (s.rollback w) := by
  refine ⟨h.tables, fun v c hc => ?_⟩
  by_cases hv : v = w
  · subst hv
    simp [World.rollback] at hc
  · exact h.staged v c (by simpa [World.rollback, Function.update_of_ne hv] using hc)

/-- **Calls that write quotations** keep the world quoting. -/
theorem QuotingWorld.after {s : World W} (h : QuotingWorld corpus s) {w : W} {o : Op} {r : Resp o}
    (ho : WritesQuotations corpus o) (hp : permits env w s o r) :
    QuotingWorld corpus (after w s o r) := by
  cases o with
  | flush cs =>
      rcases r with e | _
      · exact h
      refine ⟨h.tables, fun v c hc => ?_⟩
      by_cases hv : v = w
      · subst hv
        simp only [SupportPlatform.after, Function.update_self] at hc
        exact (List.mem_append.mp hc).elim (h.staged v c) (ho c)
      · exact h.staged v c (by simpa [SupportPlatform.after, Function.update_of_ne hv] using hc)
  | commit txn cs =>
      rcases after_commit hp with ⟨-, -, hdb, hstaged⟩ | ⟨-, hdb, hstaged⟩
      · refine ⟨hdb ▸ h.tables.applyAll fun c hc => ?_, fun v c hc => ?_⟩
        · exact (List.mem_append.mp hc).elim (h.staged w c) (ho c)
        · rw [hstaged] at hc
          by_cases hv : v = w
          · subst hv
            simp at hc
          · exact h.staged v c (by simpa [Function.update_of_ne hv] using hc)
      · exact ⟨hdb ▸ h.tables, hstaged ▸ h.staged⟩
  | closeSession => exact h.rollback w
  | lockExecution i => rcases r with e | _ | row <;> exact ⟨h.tables, h.staged⟩
  | now => exact h
  | perfCounter since => exact h
  | uuid4 => exact h
  | select query => exact h
  | render template values => exact h
  | chat prompt model => exact h
  | retrieve query limit category => exact h
  | toolTimedOut => exact h
  | _ => exact ho.elim

end

end SupportPlatform

