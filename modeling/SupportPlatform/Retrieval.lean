import SupportPlatform.Exceptions
import SupportPlatform.Ranking

/-! # Two retrievals

`KnowledgeRetriever` ranks the chunks of the knowledge base in PostgreSQL, and in Python
where the database is another one (`app/knowledge/retrieval.py`).  The arithmetic is exact
here; a float is a real number or NaN.

Both rank by cosine similarity and then by chunk, and differ in what they make of a vector
without a direction.  In PostgreSQL its distance is NaN, which is ordered last and becomes
a similarity of 1.0 in `_to_result`; in Python its similarity is 0.0.  So one ranking is
the other with these chunks moved to the end (`rank_distance`), and the two agree as long
as none of them is retrieved.
-/
namespace SupportPlatform
open Ranking

/-- A float: a number, or `none` for NaN. -/
abbrev RealFloat := Option ℝ

namespace RealFloat

/-- `x < y`, which is false of NaN. -/
def Lt : RealFloat → RealFloat → Prop
  | some x, some y => x < y
  | _, _ => False

open Classical in
/-- `min(x, y)`: the first argument unless the second one is less. -/
noncomputable def min (x y : RealFloat) : RealFloat := if Lt y x then y else x

open Classical in
/-- `max(x, y)`: the first argument unless the second one is greater. -/
noncomputable def max (x y : RealFloat) : RealFloat := if Lt x y then y else x

/-- PostgreSQL's order of floats: NaN is greater than every number. -/
def order : RealFloat → WithTop ℝ
  | some x => x
  | none => ⊤

end RealFloat

/-- A chunk joined with its document and its embedding. -/
structure KnowledgeRow (n : ℕ) where
  chunkId : Int
  sourceId : Text
  title : Text
  category : Text
  content : Text
  embedding : Fin n → ℝ

/-- The rows of the knowledge base, as a statement reads them: a chunk has one embedding. -/
structure KnowledgeBase (n : ℕ) where
  rows : List (KnowledgeRow n)
  nodup : (rows.map (·.chunkId)).Nodup

/-- `RetrievedChunk`. -/
structure ScoredChunk where
  chunkId : Int
  sourceId : Text
  title : Text
  category : Text
  content : Text
  similarity : RealFloat

namespace KnowledgeRetriever
variable {n : ℕ}

/-- `sum(a * b for a, b in zip(left, right))`. -/
def dot (left right : Fin n → ℝ) : ℝ := ∑ i, left i * right i

/-- `math.sqrt(sum(value ** 2 for value in vector))`. -/
noncomputable def norm (vector : Fin n → ℝ) : ℝ := Real.sqrt (∑ i, vector i ^ 2)

/-- `_cosine_similarity(left, right)`. -/
noncomputable def cosineSimilarity (left right : Fin n → ℝ) : ℝ :=
  if norm left = 0 ∨ norm right = 0 then 0 else dot left right / (norm left * norm right)

/-- `left <=> right` of pgvector: NaN for a vector of norm zero. -/
noncomputable def cosineDistance (left right : Fin n → ℝ) : RealFloat :=
  if norm left = 0 ∨ norm right = 0 then none
  else some (1 - dot left right / (norm left * norm right))

/-- `_to_result(chunk, document, similarity)`. -/
noncomputable def toResult (row : KnowledgeRow n) (similarity : RealFloat) : ScoredChunk :=
  { chunkId := row.chunkId
    sourceId := row.sourceId
    title := row.title
    category := row.category
    content := row.content
    similarity := RealFloat.max (some (-1)) (RealFloat.min (some 1) similarity) }

/-- `rows[:limit]`. -/
def slice {α : Type} (rows : List α) (limit : Int) : List α :=
  if 0 ≤ limit then rows.take limit.toNat else rows.take (rows.length - limit.natAbs)

/-- The WHERE clause of both statements. -/
def inCategory (base : KnowledgeBase n) (category : Option Text) : List (KnowledgeRow n) :=
  base.rows.filter fun row => category.all fun c => row.category = c

/-- ORDER BY distance, id. -/
noncomputable def distanceKey (query : Fin n → ℝ) (row : KnowledgeRow n) : WithTop ℝ ×ₗ Int :=
  toLex ((cosineDistance row.embedding query).order, row.chunkId)

/-- `key=lambda row: (-row[0], row[1].id)`. -/
noncomputable def similarityKey (query : Fin n → ℝ) (row : KnowledgeRow n) : ℝ ×ₗ Int :=
  toLex (-cosineSimilarity row.embedding query, row.chunkId)

/-- `_retrieve_postgresql(session, query, limit, category)`. -/
noncomputable def retrievePostgresql (base : KnowledgeBase n) (query : Fin n → ℝ) (limit : Int)
    (category : Option Text) : Except PyExc (List ScoredChunk) :=
  if limit < 0 then .error ⟨.dataError, "LIMIT must not be negative"⟩
  else .ok (((rank (distanceKey query) (inCategory base category)).take limit.toNat).map fun row =>
    toResult row ((cosineDistance row.embedding query).map fun distance => 1 - distance))

/-- `_retrieve_portable(session, query, limit, category)`. -/
noncomputable def retrievePortable (base : KnowledgeBase n) (query : Fin n → ℝ) (limit : Int)
    (category : Option Text) : List ScoredChunk :=
  (slice (rank (similarityKey query) (inCategory base category)) limit).map fun row =>
    toResult row (some (cosineSimilarity row.embedding query))

/-! ## Directions -/

/-- Whether the cosine of a row and the query is defined. -/
noncomputable def hasCosine (query : Fin n → ℝ) (row : KnowledgeRow n) : Bool :=
  decide (row.embedding ≠ 0 ∧ query ≠ 0)

theorem norm_eq_zero {vector : Fin n → ℝ} : norm vector = 0 ↔ vector = 0 := by
  rw [norm, Real.sqrt_eq_zero (Finset.sum_nonneg fun i _ => sq_nonneg _),
    Finset.sum_eq_zero_iff_of_nonneg fun i _ => sq_nonneg _]
  simp [funext_iff]

theorem norm_pos {vector : Fin n → ℝ} (h : vector ≠ 0) : 0 < norm vector :=
  lt_of_le_of_ne (Real.sqrt_nonneg _) fun h0 => h (norm_eq_zero.mp h0.symm)

section
variable {query : Fin n → ℝ} {row row' : KnowledgeRow n}

theorem hasCosine_eq_false : hasCosine query row = false ↔ row.embedding = 0 ∨ query = 0 := by
  simp [hasCosine, Classical.or_iff_not_imp_left]

theorem norms_ne_zero (h : hasCosine query row = true) :
    ¬ (norm row.embedding = 0 ∨ norm query = 0) := by
  simpa [hasCosine, norm_eq_zero] using h

theorem norms_eq_zero (h : hasCosine query row = false) :
    norm row.embedding = 0 ∨ norm query = 0 := by
  simpa [norm_eq_zero] using hasCosine_eq_false.mp h

theorem cosineDistance_of_hasCosine (h : hasCosine query row = true) :
    cosineDistance row.embedding query = some (1 - cosineSimilarity row.embedding query) := by
  rw [cosineDistance, cosineSimilarity, if_neg (norms_ne_zero h), if_neg (norms_ne_zero h)]

theorem cosineDistance_eq_none (h : hasCosine query row = false) :
    cosineDistance row.embedding query = none := if_pos (norms_eq_zero h)

theorem cosineSimilarity_eq_zero (h : hasCosine query row = false) :
    cosineSimilarity row.embedding query = 0 := if_pos (norms_eq_zero h)

/-- The similarity has the sign of the product. -/
theorem cosineSimilarity_sign (left right : Fin n → ℝ) :
    (0 < cosineSimilarity left right ↔ 0 < dot left right) ∧
      (cosineSimilarity left right = 0 ↔ dot left right = 0) := by
  by_cases h : norm left = 0 ∨ norm right = 0
  · have hdot : dot left right = 0 := by
      rcases h with h | h <;> simp [dot, norm_eq_zero.mp h]
    simp [cosineSimilarity, hdot]
  · have hl := norm_pos fun h0 => h (.inl (norm_eq_zero.mpr h0))
    have hr := norm_pos fun h0 => h (.inr (norm_eq_zero.mpr h0))
    have hpos := mul_pos hl hr
    rw [cosineSimilarity, if_neg h]
    exact ⟨div_pos_iff_of_pos_right hpos, by simp [hpos.ne']⟩

/-! ## The two rankings -/

/-- The order of two rows in the portable ranking. -/
theorem similarityKey_lt : similarityKey query row < similarityKey query row' ↔
    cosineSimilarity row'.embedding query < cosineSimilarity row.embedding query ∨
      cosineSimilarity row.embedding query = cosineSimilarity row'.embedding query ∧
        row.chunkId < row'.chunkId := by
  simp [similarityKey, Prod.Lex.toLex_lt_toLex]

/-- Among rows with a cosine, and among rows without, both rankings order alike. -/
theorem distanceKey_lt (hsame : hasCosine query row = hasCosine query row')
    (h : similarityKey query row < similarityKey query row') :
    distanceKey query row < distanceKey query row' := by
  rw [similarityKey_lt] at h
  rw [distanceKey, distanceKey, Prod.Lex.toLex_lt_toLex]
  cases hrow : hasCosine query row with
  | true =>
      rw [hrow] at hsame
      rw [cosineDistance_of_hasCosine hrow, cosineDistance_of_hasCosine hsame.symm]
      rcases h with h | ⟨h, hid⟩
      · exact .inl (WithTop.coe_lt_coe.mpr (sub_lt_sub_left h 1))
      · exact .inr ⟨by rw [h], hid⟩
  | false =>
      rw [hrow] at hsame
      rw [cosineSimilarity_eq_zero hrow, cosineSimilarity_eq_zero hsame.symm] at h
      rw [cosineDistance_eq_none hrow, cosineDistance_eq_none hsame.symm]
      simpa using h

/-- PostgreSQL puts the rows without a cosine last. -/
theorem distanceKey_lt_of_hasCosine (h : hasCosine query row = true)
    (h' : hasCosine query row' = false) : distanceKey query row < distanceKey query row' := by
  rw [distanceKey, distanceKey, Prod.Lex.toLex_lt_toLex, cosineDistance_of_hasCosine h,
    cosineDistance_eq_none h']
  exact .inl (WithTop.coe_lt_top _)

end

variable (base : KnowledgeBase n) (query : Fin n → ℝ) (category : Option Text)

theorem inCategory_nodup : ((inCategory base category).map (·.chunkId)).Nodup :=
  base.nodup.sublist (List.filter_sublist.map _)

theorem similarityKey_nodup :
    ((inCategory base category).map (similarityKey query)).Nodup := by
  refine List.Nodup.of_map (fun key => (ofLex key).2) ?_
  rw [List.map_map]
  exact inCategory_nodup base category

/-- **PostgreSQL's ranking** is the portable one with the rows that have no cosine moved to
the end. -/
theorem rank_distance :
    rank (distanceKey query) (inCategory base category) =
      (rank (similarityKey query) (inCategory base category)).filter (hasCosine query) ++
        (rank (similarityKey query) (inCategory base category)).filter
          fun row => !hasCosine query row :=
  rank_of_split (hasCosine query) (similarityKey_nodup base query category)
    (fun _ _ _ _ hsame h => distanceKey_lt hsame h)
    fun _ _ _ _ h h' => distanceKey_lt_of_hasCosine h h'

/-! ## Agreement -/

/-- A row that the portable ranking puts before a row without a cosine: its product with the
query is positive, or it is zero and the row has the smaller identifier. -/
def Before (query : Fin n → ℝ) (row row' : KnowledgeRow n) : Prop :=
  0 < dot row'.embedding query ∨ dot row'.embedding query = 0 ∧ row'.chunkId < row.chunkId

noncomputable instance (row : KnowledgeRow n) : DecidablePred (Before query row) :=
  fun _ => Classical.propDecidable _

theorem similarityKey_lt_iff {query : Fin n → ℝ} {row row' : KnowledgeRow n}
    (h : hasCosine query row = false) :
    similarityKey query row' < similarityKey query row ↔ Before query row row' := by
  obtain ⟨hpos, hzero⟩ := cosineSimilarity_sign row'.embedding query
  rw [similarityKey_lt, cosineSimilarity_eq_zero h, hpos, hzero, Before]

/-- A row without a cosine is retrieved unless enough rows are ranked before it. -/
theorem mem_retrieved {row : KnowledgeRow n} (hrow : row ∈ inCategory base category)
    (h : hasCosine query row = false) (limit : ℕ) :
    row ∈ (rank (similarityKey query) (inCategory base category)).take limit ↔
      (inCategory base category).countP (fun row' => Before query row row') < limit := by
  rw [mem_take_iff (rank_strict (similarityKey_nodup base query category)) (by simpa using hrow),
    (rank_perm _ _).countP_eq]
  simp only [similarityKey_lt_iff h]

/-- The two results for a row without a cosine differ: its similarity is 1.0 or 0.0. -/
theorem toResult_ne {query : Fin n → ℝ} {row : KnowledgeRow n} (h : hasCosine query row = false) :
    toResult row ((cosineDistance row.embedding query).map fun distance => 1 - distance) ≠
      toResult row (some (cosineSimilarity row.embedding query)) := by
  intro heq
  have hs := congrArg ScoredChunk.similarity heq
  rw [cosineDistance_eq_none h, cosineSimilarity_eq_zero h] at hs
  norm_num [toResult, RealFloat.max, RealFloat.min, RealFloat.Lt] at hs

/-- **The two retrievals agree** exactly when the limit is one, and each chunk of the
category without a cosine has as many chunks ranked before it as are asked for. -/
theorem retrieval_agrees_iff (base : KnowledgeBase n) (query : Fin n → ℝ) (limit : Int)
    (category : Option Text) :
    retrievePostgresql base query limit category =
        .ok (retrievePortable base query limit category) ↔
      0 ≤ limit ∧ ∀ row ∈ inCategory base category, row.embedding = 0 ∨ query = 0 →
        limit ≤ ((inCategory base category).countP (fun row' => Before query row row') : ℕ) := by
  by_cases hneg : limit < 0
  · rw [retrievePostgresql, if_pos hneg]
    refine ⟨nofun, fun h => ?_⟩
    omega
  obtain ⟨limit, rfl⟩ := Int.eq_ofNat_of_zero_le (not_lt.mp hneg)
  -- Both sides speak of the rows without a cosine among those retrieved.
  have hcond : (∀ row ∈ inCategory base category, row.embedding = 0 ∨ query = 0 →
      (limit : Int) ≤ ((inCategory base category).countP (fun row' => Before query row row') : ℕ)) ↔
      ∀ row ∈ (rank (similarityKey query) (inCategory base category)).take limit,
        hasCosine query row = true := by
    constructor
    · intro h row hrow
      by_contra hno
      have hno := Bool.eq_false_of_not_eq_true hno
      have hmem : row ∈ inCategory base category := by simpa using List.mem_of_mem_take hrow
      have := (mem_retrieved base query category hmem hno limit).mp hrow
      have := h row hmem (hasCosine_eq_false.mp hno)
      omega
    · intro h row hrow hno
      have hno := hasCosine_eq_false.mpr hno
      by_contra hlt
      have hmem := (mem_retrieved base query category hrow hno limit).mpr (by omega)
      rw [h row hmem] at hno
      cases hno
  rw [retrievePostgresql, if_neg hneg, retrievePortable, slice, if_pos (by omega),
    Int.toNat_natCast, hcond, Except.ok.injEq, rank_distance]
  constructor
  · intro heq
    refine ⟨by omega, fun row hrow => ?_⟩
    by_contra hno
    have hno := Bool.eq_false_of_not_eq_true hno
    have hmem := List.mem_map_of_mem (f := fun row => toResult row
      (some (cosineSimilarity row.embedding query))) hrow
    rw [← heq] at hmem
    obtain ⟨row', hrow', hresult⟩ := List.mem_map.mp hmem
    have hin : row ∈ inCategory base category := by simpa using List.mem_of_mem_take hrow
    have hin' : row' ∈ inCategory base category := by
      rcases List.mem_append.mp (List.mem_of_mem_take hrow') with h | h <;>
        simpa using List.mem_of_mem_filter h
    have hid : row'.chunkId = row.chunkId := congrArg ScoredChunk.chunkId hresult
    have : row' = row := List.inj_on_of_nodup_map (inCategory_nodup base category) hin' hin hid
    subst this
    exact toResult_ne hno hresult
  · rintro ⟨-, h⟩
    rw [take_split _ _ h]
    refine List.map_congr_left fun row hrow => ?_
    rw [cosineDistance_of_hasCosine (h row hrow), Option.map_some, sub_sub_cancel]

/-- One chunk with an embedding of zeros, and a query that is not zero. -/
def zeroBase : KnowledgeBase 768 where
  rows := [⟨1, "runbook", "Runbook", "database", "Restart the pool.", 0⟩]
  nodup := List.nodup_singleton _

theorem zeroEmbedding_disagrees :
    ¬ ∀ (base : KnowledgeBase 768) (query : Fin 768 → ℝ) (limit : Int) (category : Option Text),
      retrievePostgresql base query limit category =
        .ok (retrievePortable base query limit category) := by
  intro h
  have hrow : hasCosine 1 (⟨1, "runbook", "Runbook", "database", "Restart the pool.", 0⟩ :
      KnowledgeRow 768) = false := hasCosine_eq_false.mpr (.inl rfl)
  have heq := h zeroBase 1 1 none
  simp only [retrievePostgresql, retrievePortable, inCategory, zeroBase, rank, slice,
    List.mergeSort_singleton, Option.all_none, List.filter_true] at heq
  norm_num at heq
  exact toResult_ne hrow heq

end KnowledgeRetriever
end SupportPlatform
