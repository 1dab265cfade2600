import SupportPlatform.AgentTools
import SupportPlatform.ReferenceCodec
import SupportPlatform.Retrieval

/-! # The category of a runbook search

`retrieve_runbooks` translates a classification into a category of the knowledge base, and
searches in that category.  The translation falls back on the planner's own argument, which is
a classification too: for an incident that no category is meant for, the argument goes to the
search untranslated, and no runbook is in a category of that name.  So nothing is hidden only
as long as the argument is absent (`hidesNothing_iff`).
-/
namespace SupportPlatform
open Program KnowledgeRetriever

section
variable [Runtime] [Pydantic]

/-- The program makes one search, with this limit and in this category, and no other call. -/
def SearchesFor (p : Py ToolOutput) (limit : Nat) (category : Option Text) : Prop :=
  ∃ query k, p = Program.call (.retrieve query limit category) k ∧
    ∀ r, (k r).Only fun _ => False

omit [Runtime] in
theorem toolOutput_only {summary : Text} {data : Dict Text Json}
    {refs : List (Option EvidenceReference)} {A : Op → Prop} :
    (toolOutput summary data refs).Only A := by
  rw [toolOutput]
  split
  · trivial
  · split
    · trivial
    · trivial

/-- How many chunks `retrieve_runbooks` asks for. -/
def searchLimit (validated : RetrieveRunbooksInput) (context : ToolContext) : Nat :=
  let topK := min validated.topK.1 context.maxRetrievalChunks
  (min (if topK = 0 then context.retrieverTopK else topK) context.retrieverTopK).toNat

omit [Runtime] [Pydantic] in
theorem searchLimit_pos (validated : RetrieveRunbooksInput) {context : ToolContext}
    (hchunks : 1 ≤ context.maxRetrievalChunks) (htop : 1 ≤ context.retrieverTopK) :
    0 < searchLimit validated context := by
  have htopK := validated.topK.2.1
  have hne : min validated.topK.1 context.maxRetrievalChunks ≠ 0 := by omega
  rw [searchLimit, if_neg hne]
  omega

/-- The category that `retrieve_runbooks` searches in. -/
def searchCategory (validated : RetrieveRunbooksInput) (context : ToolContext) : Option Text :=
  let classification := validated.classification.map (·.1)
  match categoryOf ((orText context.classification classification).getD []) with
  | some category => some category
  | none => classification

/-- What `retrieve_runbooks` returns of the chunks that are found. -/
def runbooksOutput (chunks : List RetrievedChunk) : Py ToolOutput :=
  toolOutput ("Retrieved " ++ Text.ofNat chunks.length ++ " approved runbook chunks.")
    [("chunks", .arr (chunks.map chunkData))]
    (chunks.map fun item => EvidenceReference.ofChunk
      (chunkReferenceId item.sourceId (Text.ofInt item.chunkId)) item.sourceId item.chunkId)

theorem retrieveRunbooksTool_eq (validated : RetrieveRunbooksInput) (context : ToolContext) :
    retrieveRunbooksTool validated context = Program.call
      (.retrieve validated.query.1 (searchLimit validated context) (searchCategory validated context))
      fun r => answer r >>= runbooksOutput := rfl

/-- The search of `retrieve_runbooks` for an incident without a category of its own: in the
category that the argument names, whatever it is. -/
theorem retrieveRunbooksTool_searchesFor (validated : RetrieveRunbooksInput) (context : ToolContext)
    {own : Text} (hcontext : context.classification = some own) (hnonempty : own ≠ [])
    (hown : categoryOf own = none) :
    SearchesFor (retrieveRunbooksTool validated context) (searchLimit validated context)
      (validated.classification.map (·.1)) := by
  have hor : orText context.classification (validated.classification.map (·.1)) = some own := by
    rw [hcontext]
    cases own with
    | nil => exact absurd rfl hnonempty
    | cons c s => rfl
  have hcategory : searchCategory validated context = validated.classification.map (·.1) := by
    rw [searchCategory, hor, Option.getD_some, hown]
  rw [← hcategory]
  exact ⟨validated.query.1, _, retrieveRunbooksTool_eq validated context,
    fun r => Only.bind (only_answer r) fun _ => toolOutput_only⟩

omit [Runtime] [Pydantic] in
/-- A program makes one search only. -/
theorem SearchesFor.unique {p : Py ToolOutput} {limit limit' : Nat} {category category' : Option Text}
    (h : SearchesFor p limit category) (h' : SearchesFor p limit' category') :
    limit = limit' ∧ category = category' := by
  obtain ⟨query, k, rfl, -⟩ := h
  obtain ⟨query', k', heq, -⟩ := h'
  injection heq with hop
  injection hop with _ hlimit hcategory
  exact ⟨hlimit, hcategory⟩

/-! ## What a search finds -/

variable {n : ℕ}

/-- Both retrievals find a chunk. -/
def FindsChunk (base : KnowledgeBase n) (vector : Fin n → ℝ) (limit : Nat)
    (category : Option Text) : Prop :=
  retrievePortable base vector limit category ≠ [] ∧
    ∃ chunks, retrievePostgresql base vector limit category = .ok chunks ∧ chunks ≠ []

omit [Runtime] [Pydantic] in
/-- Without a category a search finds a chunk, if there is one. -/
theorem findsChunk_of_unfiltered {base : KnowledgeBase n} (hbase : base.rows ≠ [])
    (vector : Fin n → ℝ) {limit : Nat} (hlimit : 0 < limit) : FindsChunk base vector limit none := by
  have hall : inCategory base none = base.rows := List.filter_eq_self.mpr fun _ _ => rfl
  have htake : ∀ {l : List (KnowledgeRow n)}, l.Perm base.rows → l.take limit ≠ [] := by
    intro l hperm hnil
    rcases List.take_eq_nil_iff.mp hnil with h | h
    · omega
    · exact hbase (h ▸ hperm).nil_eq.symm
  constructor
  · rw [retrievePortable, hall, slice, if_pos (by omega), Int.toNat_natCast]
    exact fun hnil => htake (Ranking.rank_perm _ _) (List.map_eq_nil_iff.mp hnil)
  · rw [retrievePostgresql, if_neg (by omega), hall, Int.toNat_natCast]
    exact ⟨_, rfl, fun hnil => htake (Ranking.rank_perm _ _) (List.map_eq_nil_iff.mp hnil)⟩

/-- What a classification must not do to a search: the argument is absent, or one of the
labels of incidents. -/
structure HidesNothing (base : KnowledgeBase n) (vector : Fin n → ℝ)
    (own : IncidentClassification) (argument : Option IncidentClassification) (limit : Nat)
    (category : Option Text) : Prop where
  translated : category = none ∨ ∃ label ∈ argument, category = categoryOf label.value
  noLabel : ∀ label : IncidentClassification, category ≠ some label.value
  finds : argument = none ∨ argument = some own → FindsChunk base vector limit category

/-- **When a classification hides nothing**: for an incident without a category of its own,
exactly when the planner names no classification. -/
theorem hidesNothing_iff (base : KnowledgeBase n) (hbase : base.rows ≠ []) (vector : Fin n → ℝ)
    (own : IncidentClassification) (hown : categoryOf own.value = none)
    (argument : Option IncidentClassification) (validated : RetrieveRunbooksInput)
    (hargument : validated.classification.map (·.1) = argument.map (·.value))
    (context : ToolContext) (hcontext : context.classification = some own.value)
    (hchunks : 1 ≤ context.maxRetrievalChunks) (htop : 1 ≤ context.retrieverTopK) :
    (∃ limit category, SearchesFor (retrieveRunbooksTool validated context) limit category ∧
      HidesNothing base vector own argument limit category) ↔ argument = none := by
  have hnonempty : own.value ≠ [] := by cases own <;> decide
  have hsearches := retrieveRunbooksTool_searchesFor validated context hcontext hnonempty hown
  rw [hargument] at hsearches
  constructor
  · rintro ⟨limit', category, hsearches', hhides⟩
    obtain ⟨-, rfl⟩ := hsearches.unique hsearches'
    by_contra hsome
    obtain ⟨label, rfl⟩ := Option.ne_none_iff_exists'.mp hsome
    exact hhides.noLabel label rfl
  · rintro rfl
    refine ⟨searchLimit validated context, none, hsearches, .inl rfl, fun label => nofun, fun _ => ?_⟩
    exact findsChunk_of_unfiltered hbase vector (searchLimit_pos validated hchunks htop)

end

/-- A knowledge base with one embedded runbook. -/
def oneRunbook : KnowledgeBase 768 where
  rows := [⟨1, "http-timeouts", "Timeouts", "http", "Restart the gateway.", 1⟩]
  nodup := List.nodup_singleton _

/-- The context of an unknown error. -/
def unknownContext : ToolContext := ⟨1, 4, some IncidentClassification.unknownError.value, 4, []⟩

theorem four_searched : 1 ≤ (4 : Int) ∧ (4 : Int) ≤ 8 := by decide

/-- A search whose argument is the incident's own label, as the prompt shows it. -/
def labelledInput : RetrieveRunbooksInput :=
  ⟨⟨"unknown_error diagnostic runbook", by decide⟩, some ⟨"unknown_error", by decide⟩,
    ⟨4, four_searched⟩⟩

/-- A search without the argument. -/
def unlabelledInput : RetrieveRunbooksInput := { labelledInput with classification := none }

theorem hidesNothing_unlabelled :
    (∃ limit category, SearchesFor (retrieveRunbooksTool unlabelledInput unknownContext) limit
      category ∧ HidesNothing oneRunbook 1 .unknownError none limit category) ↔
    (none : Option IncidentClassification) = none :=
  hidesNothing_iff oneRunbook (List.cons_ne_nil _ _) 1 .unknownError (by decide) none
    unlabelledInput rfl unknownContext rfl (by decide) (by decide)

/-- The incident's own label hides the only runbook. -/
theorem own_label_hides : ¬ ∃ limit category,
    SearchesFor (retrieveRunbooksTool labelledInput unknownContext) limit category ∧
      HidesNothing oneRunbook 1 .unknownError (some .unknownError) limit category := by
  rintro ⟨limit, category, hsearches, hhides⟩
  have hlabel := retrieveRunbooksTool_searchesFor labelledInput unknownContext rfl (by decide)
    (by decide)
  obtain ⟨-, rfl⟩ := hlabel.unique hsearches
  have hempty : inCategory oneRunbook (some "unknown_error") = [] := by
    refine List.filter_eq_nil_iff.mpr fun row hrow => ?_
    obtain rfl := List.mem_singleton.mp hrow
    decide
  refine (hhides.finds (.inr rfl)).1 ?_
  have hcategory : labelledInput.classification.map (·.1) = some ("unknown_error" : Text) := rfl
  rw [retrievePortable, hcategory, hempty, Ranking.rank, List.mergeSort_nil, slice,
    if_pos (by omega), List.take_nil, List.map_nil]

end SupportPlatform
