import SupportPlatform.Chunking
import SupportPlatform.Json

/-! # The knowledge tables

The tables of `app/db/models.py` that ingestion writes: documents, their chunks and the chunks'
embeddings.  `Valid` is what the schema demands of them, `only` keeps the rows that belong to one
source.

Ingestion gives one document a new set of rows: it `clear`s the document, or adds it, and `fill`s
it.  Of the rows that are there then, `only_fill_self` says that those of the source are the new
ones, and `only_fill_other` that those of every other source are what they were.
-/
namespace SupportPlatform

/-- `KnowledgeDocumentRecord`. -/
structure KnowledgeDocumentRecord (Digest : Type) where
  id : Nat
  sourceId : Text
  title : Text
  category : Text
  version : Text
  contentHash : Digest
  sourceMetadata : Json
  deriving DecidableEq

/-- `KnowledgeChunkRecord`. -/
structure KnowledgeChunkRecord (Digest : Type) where
  id : Nat
  documentId : Nat
  chunkIndex : Nat
  content : Text
  contentHash : Digest
  deriving DecidableEq

/-- `KnowledgeEmbeddingRecord`. -/
structure KnowledgeEmbeddingRecord (Digest Vector : Type) where
  chunkId : Nat
  provider : Text
  model : Text
  dimensions : Nat
  contentHash : Digest
  embedding : Vector
  deriving DecidableEq

/-- The three tables. -/
structure KnowledgeTables (Digest Vector : Type) where
  documents : List (KnowledgeDocumentRecord Digest)
  chunks : List (KnowledgeChunkRecord Digest)
  embeddings : List (KnowledgeEmbeddingRecord Digest Vector)

/-- A change that is waiting in a session, or is sent with it. -/
inductive KnowledgeChange (Digest Vector : Type)
  | insertDocument (row : KnowledgeDocumentRecord Digest)
  | updateDocument (row : KnowledgeDocumentRecord Digest)
  | insertChunk (row : KnowledgeChunkRecord Digest)
  | insertEmbedding (row : KnowledgeEmbeddingRecord Digest Vector)

namespace KnowledgeTables
variable {Digest Vector : Type}

/-- The tables after a migration. -/
def empty : KnowledgeTables Digest Vector := ⟨[], [], []⟩

/-! ## The schema -/

/-- What the schema demands: the keys, the foreign keys, the CHECK and the widths of the columns
that the code does not bound itself. -/
structure Valid (t : KnowledgeTables Digest Vector) : Prop where
  documents_id : (t.documents.map (·.id)).Nodup
  documents_sourceId : (t.documents.map (·.sourceId)).Nodup
  chunks_id : (t.chunks.map (·.id)).Nodup
  chunks_index : (t.chunks.map fun row => (row.documentId, row.chunkIndex)).Nodup
  chunks_documentId : ∀ row ∈ t.chunks, ∃ document ∈ t.documents, document.id = row.documentId
  embeddings_chunkId : (t.embeddings.map (·.chunkId)).Nodup
  embeddings_chunk : ∀ row ∈ t.embeddings, ∃ chunk ∈ t.chunks, chunk.id = row.chunkId
  embeddings_dimensions : ∀ row ∈ t.embeddings, row.dimensions = 768
  sourceId_width : ∀ row ∈ t.documents, row.sourceId.length ≤ 120
  provider_width : ∀ row ∈ t.embeddings, row.provider.length ≤ 50
  model_width : ∀ row ∈ t.embeddings, row.model.length ≤ 120

instance (t : KnowledgeTables Digest Vector) : Decidable t.Valid :=
  decidable_of_iff ((t.documents.map (·.id)).Nodup ∧ (t.documents.map (·.sourceId)).Nodup ∧
    (t.chunks.map (·.id)).Nodup ∧
    (t.chunks.map fun row => (row.documentId, row.chunkIndex)).Nodup ∧
    (∀ row ∈ t.chunks, ∃ document ∈ t.documents, document.id = row.documentId) ∧
    (t.embeddings.map (·.chunkId)).Nodup ∧
    (∀ row ∈ t.embeddings, ∃ chunk ∈ t.chunks, chunk.id = row.chunkId) ∧
    (∀ row ∈ t.embeddings, row.dimensions = 768) ∧
    (∀ row ∈ t.documents, row.sourceId.length ≤ 120) ∧
    (∀ row ∈ t.embeddings, row.provider.length ≤ 50) ∧
    ∀ row ∈ t.embeddings, row.model.length ≤ 120)
    ⟨fun ⟨h₁, h₂, h₃, h₄, h₅, h₆, h₇, h₈, h₉, h₁₀, h₁₁⟩ =>
        ⟨h₁, h₂, h₃, h₄, h₅, h₆, h₇, h₈, h₉, h₁₀, h₁₁⟩,
      fun h => ⟨h.1, h.2, h.3, h.4, h.5, h.6, h.7, h.8, h.9, h.10, h.11⟩⟩

theorem valid_empty : (empty : KnowledgeTables Digest Vector).Valid := by
  constructor <;> simp [empty]

/-! ## The statements -/

/-- `select(KnowledgeDocumentRecord).where(source_id == sourceId)`, its first row. -/
def document? (t : KnowledgeTables Digest Vector) (sourceId : Text) :
    Option (KnowledgeDocumentRecord Digest) :=
  t.documents.find? (·.sourceId = sourceId)

/-- The chunks of a document. -/
def chunksOf (t : KnowledgeTables Digest Vector) (documentId : Nat) :
    List (KnowledgeChunkRecord Digest) :=
  t.chunks.filter (·.documentId = documentId)

/-- `select(KnowledgeChunkRecord.id).where(document_id == documentId)`. -/
def chunkIds (t : KnowledgeTables Digest Vector) (documentId : Nat) : List Nat :=
  (t.chunksOf documentId).map (·.id)

/-- The chunks of a document joined with their embeddings, ordered by `chunk_index`. -/
def joined (t : KnowledgeTables Digest Vector) (documentId : Nat) :
    List (KnowledgeChunkRecord Digest × KnowledgeEmbeddingRecord Digest Vector) :=
  ((t.chunksOf documentId).flatMap fun chunk =>
    (t.embeddings.filter (·.chunkId = chunk.id)).map fun row => (chunk, row)).insertionSort
      fun a b => a.1.chunkIndex ≤ b.1.chunkIndex

/-- `delete(KnowledgeEmbeddingRecord).where(chunk_id.in_(ids))`. -/
def deleteEmbeddings (t : KnowledgeTables Digest Vector) (ids : List Nat) :
    KnowledgeTables Digest Vector :=
  { t with embeddings := t.embeddings.filter (·.chunkId ∉ ids) }

/-- `delete(KnowledgeChunkRecord).where(document_id == documentId)`, with its cascade. -/
def deleteChunks (t : KnowledgeTables Digest Vector) (documentId : Nat) :
    KnowledgeTables Digest Vector :=
  { t with
    chunks := t.chunks.filter (·.documentId ≠ documentId)
    embeddings := t.embeddings.filter (·.chunkId ∉ t.chunkIds documentId) }

/-- The cascade does what was done before it. -/
theorem deleteChunks_deleteEmbeddings (t : KnowledgeTables Digest Vector) (documentId : Nat) :
    (t.deleteEmbeddings (t.chunkIds documentId)).deleteChunks documentId =
      t.deleteChunks documentId := by
  have hembeddings : (t.embeddings.filter (·.chunkId ∉ t.chunkIds documentId)).filter
      (·.chunkId ∉ t.chunkIds documentId) = t.embeddings.filter (·.chunkId ∉ t.chunkIds documentId) :=
    List.filter_eq_self.mpr fun row hrow => (List.mem_filter.mp hrow).2
  exact congrArg (KnowledgeTables.mk _ _) hembeddings

/-- One change is carried out. -/
def apply (t : KnowledgeTables Digest Vector) : KnowledgeChange Digest Vector →
    KnowledgeTables Digest Vector
  | .insertDocument row => { t with documents := t.documents ++ [row] }
  | .updateDocument row =>
      { t with documents := t.documents.map fun old => if old.id = row.id then row else old }
  | .insertChunk row => { t with chunks := t.chunks ++ [row] }
  | .insertEmbedding row => { t with embeddings := t.embeddings ++ [row] }

/-- Changes are carried out in their order. -/
def applyAll (t : KnowledgeTables Digest Vector) (changes : List (KnowledgeChange Digest Vector)) :
    KnowledgeTables Digest Vector :=
  changes.foldl apply t

/-! ## The rows of one source -/

/-- The rows that belong to one source. -/
def only (t : KnowledgeTables Digest Vector) (sourceId : Text) : KnowledgeTables Digest Vector :=
  let documents := t.documents.filter (·.sourceId = sourceId)
  let chunks := t.chunks.filter (·.documentId ∈ documents.map (·.id))
  ⟨documents, chunks, t.embeddings.filter (·.chunkId ∈ chunks.map (·.id))⟩

end KnowledgeTables

/-- Of rows that differ in a key, one has the key of a given row. -/
theorem filter_key_eq {α β : Type} [DecidableEq β] {key : α → β} {rows : List α} {row : α}
    (hnodup : (rows.map key).Nodup) (h : row ∈ rows) :
    rows.filter (fun other => key other = key row) = [row] := by
  induction rows with
  | nil => cases h
  | cons first rest ih =>
      rw [List.map_cons, List.nodup_cons] at hnodup
      rcases List.mem_cons.mp h with rfl | h
      · have hrest : rest.filter (fun other => key other = key row) = [] := by
          refine List.filter_eq_nil_iff.mpr fun other hother heq => hnodup.1 ?_
          rw [← of_decide_eq_true heq]
          exact List.mem_map_of_mem hother
        rw [List.filter_cons, if_pos (by simp), hrest]
      · have hne : key first ≠ key row := fun heq =>
          hnodup.1 (heq ▸ List.mem_map_of_mem h)
        rw [List.filter_cons, if_neg (by simpa using hne), ih hnodup.2 h]

namespace KnowledgeTables
variable {Digest Vector : Type} {t b : KnowledgeTables Digest Vector}
  {document : KnowledgeDocumentRecord Digest} {sourceId : Text}

theorem document?_eq_some (hvalid : t.Valid) (h : t.document? sourceId = some document) :
    document ∈ t.documents ∧ document.sourceId = sourceId ∧
      (t.only sourceId).documents = [document] ∧
      (t.only sourceId).chunks = t.chunksOf document.id := by
  have hmem : document ∈ t.documents := List.mem_of_find?_eq_some h
  have hsource : document.sourceId = sourceId := by simpa using List.find?_some h
  have hdocuments : (t.only sourceId).documents = [document] := by
    rw [← hsource]
    exact filter_key_eq hvalid.documents_sourceId hmem
  refine ⟨hmem, hsource, hdocuments, ?_⟩
  change t.chunks.filter (·.documentId ∈ (t.only sourceId).documents.map (·.id)) = _
  rw [hdocuments]
  exact List.filter_congr fun row _ => by simp

theorem document?_eq_none (h : t.document? sourceId = none) : (t.only sourceId).documents = [] :=
  List.filter_eq_nil_iff.mpr fun row hrow heq => List.find?_eq_none.mp h row hrow heq

theorem document?_of_only (hvalid : t.Valid) (h : (t.only sourceId).documents = [document]) :
    t.document? sourceId = some document := by
  cases hfound : t.document? sourceId with
  | none => rw [document?_eq_none hfound] at h; cases h
  | some found =>
      have heq := (document?_eq_some hvalid hfound).2.2.1
      rw [h] at heq
      rw [List.cons.inj heq |>.1]

/-- The chunks that a key names are one. -/
theorem Valid.chunk_eq (hvalid : t.Valid) {a c : KnowledgeChunkRecord Digest} (ha : a ∈ t.chunks)
    (hc : c ∈ t.chunks) (h : a.id = c.id) : a = c :=
  List.inj_on_of_nodup_map hvalid.chunks_id ha hc h

/-! ## A new set of rows -/

/-- The rows of chunks and their embeddings are added. -/
def fill (b : KnowledgeTables Digest Vector)
    (rows : List (KnowledgeChunkRecord Digest × KnowledgeEmbeddingRecord Digest Vector)) :
    KnowledgeTables Digest Vector :=
  { b with
    chunks := b.chunks ++ rows.map (·.1)
    embeddings := b.embeddings ++ rows.map (·.2) }

/-- One chunk more, and then its embedding. -/
theorem fill_concat (b : KnowledgeTables Digest Vector)
    (rows : List (KnowledgeChunkRecord Digest × KnowledgeEmbeddingRecord Digest Vector))
    (row : KnowledgeChunkRecord Digest × KnowledgeEmbeddingRecord Digest Vector) :
    ((b.fill rows).apply (.insertChunk row.1)).apply (.insertEmbedding row.2) =
      b.fill (rows ++ [row]) := by
  simp [fill, apply]

/-- `b` is `t` with the document, which has no chunks. -/
structure Opens (t : KnowledgeTables Digest Vector) (document : KnowledgeDocumentRecord Digest)
    (b : KnowledgeTables Digest Vector) : Prop where
  documents : ∀ sourceId, b.documents.filter (·.sourceId = sourceId) =
    if sourceId = document.sourceId then [document] else t.documents.filter (·.sourceId = sourceId)
  owner : ∀ other ∈ t.documents, other.sourceId ≠ document.sourceId → other.id ≠ document.id
  chunks : b.chunks = t.chunks.filter (·.documentId ≠ document.id)
  embeddings : b.embeddings = t.embeddings.filter (·.chunkId ∉ t.chunkIds document.id)

/-- A document is added. -/
theorem opens_insert (hvalid : t.Valid) (hvalid' : (t.apply (.insertDocument document)).Valid) :
    Opens t document (t.apply (.insertDocument document)) := by
  have hids := hvalid'.documents_id
  have hsources := hvalid'.documents_sourceId
  simp only [apply, List.map_append, List.map_cons, List.map_nil] at hids hsources
  have hid : ∀ other ∈ t.documents, other.id ≠ document.id := fun other hother heq =>
    List.disjoint_of_nodup_append hids (List.mem_map_of_mem hother) (by simp [heq])
  have hsource : ∀ other ∈ t.documents, other.sourceId ≠ document.sourceId := fun other hother heq =>
    List.disjoint_of_nodup_append hsources (List.mem_map_of_mem hother) (by simp [heq])
  -- the identifier is new, so no chunk refers to it
  have hchunk : ∀ row ∈ t.chunks, row.documentId ≠ document.id := fun row hrow heq => by
    obtain ⟨other, hother, hown⟩ := hvalid.chunks_documentId row hrow
    exact hid other hother (hown.trans heq)
  have hnone : t.chunkIds document.id = [] := by
    rw [chunkIds, chunksOf, List.filter_eq_nil_iff.mpr fun row hrow heq =>
      hchunk row hrow (of_decide_eq_true heq), List.map_nil]
  refine ⟨fun sourceId => ?_, fun other hother _ => hid other hother, ?_, ?_⟩
  · simp only [apply, List.filter_append]
    by_cases h : sourceId = document.sourceId
    · subst h
      rw [if_pos rfl, List.filter_eq_nil_iff.mpr fun other hother heq =>
        hsource other hother (of_decide_eq_true heq)]
      simp
    · rw [if_neg h, List.filter_cons, if_neg (by simpa using Ne.symm h), List.filter_nil,
        List.append_nil]
  · exact (List.filter_eq_self.mpr fun row hrow => decide_eq_true (hchunk row hrow)).symm
  · rw [hnone]
    exact (List.filter_eq_self.mpr fun row _ => by simp).symm

/-- A document gets new fields and loses its chunks. -/
theorem opens_update {old : KnowledgeDocumentRecord Digest} (hvalid : t.Valid)
    (hold : old ∈ t.documents) (hid : document.id = old.id)
    (hsource : document.sourceId = old.sourceId) :
    Opens t document ((t.deleteChunks document.id).apply (.updateDocument document)) := by
  have hkey : ∀ other ∈ t.documents, other.id = document.id → other = old :=
    fun other hother heq =>
      List.inj_on_of_nodup_map hvalid.documents_id hother hold (heq.trans hid)
  refine ⟨fun sourceId => ?_, fun other hother hne heq => ?_, rfl, rfl⟩
  · -- the update keeps the source of every row
    have hfilter : (t.documents.map fun row => if row.id = document.id then document else row).filter
        (·.sourceId = sourceId) = (t.documents.filter (·.sourceId = sourceId)).map fun row =>
          if row.id = document.id then document else row := by
      rw [List.filter_map]
      refine congrArg _ (List.filter_congr fun row hrow => ?_)
      by_cases h : row.id = document.id
      · rw [Function.comp_apply, if_pos h, hkey row hrow h, hsource]
      · rw [Function.comp_apply, if_neg h]
    refine hfilter.trans ?_
    by_cases h : sourceId = document.sourceId
    · rw [if_pos h, h, hsource, filter_key_eq hvalid.documents_sourceId hold, List.map_singleton,
        if_pos hid.symm]
    · rw [if_neg h]
      refine (List.map_congr_left fun row hrow => if_neg fun heq => ?_).trans (List.map_id _)
      obtain ⟨hrow, hown⟩ := List.mem_filter.mp hrow
      rw [hkey row hrow heq, ← hsource] at hown
      exact h (of_decide_eq_true hown).symm
  · rw [hkey other hother heq] at hne
    exact hne hsource.symm

/-- The rows are chunks of the document, each with its embedding. -/
def OfDocument (document : KnowledgeDocumentRecord Digest)
    (rows : List (KnowledgeChunkRecord Digest × KnowledgeEmbeddingRecord Digest Vector)) : Prop :=
  ∀ row ∈ rows, row.1.documentId = document.id ∧ row.2.chunkId = row.1.id

variable {rows : List (KnowledgeChunkRecord Digest × KnowledgeEmbeddingRecord Digest Vector)}

theorem Opens.mem_chunks (hopens : Opens t document b) {chunk : KnowledgeChunkRecord Digest} :
    chunk ∈ b.chunks ↔ chunk ∈ t.chunks ∧ chunk.documentId ≠ document.id := by
  rw [hopens.chunks, List.mem_filter, decide_eq_true_iff]

/-- No chunk that is kept has the identifier of a new one. -/
theorem chunk_ne_of_fill (hfilled : (b.fill rows).Valid) {chunk : KnowledgeChunkRecord Digest}
    (hchunk : chunk ∈ b.chunks)
    {row : KnowledgeChunkRecord Digest × KnowledgeEmbeddingRecord Digest Vector}
    (hrow : row ∈ rows) : chunk.id ≠ row.1.id := by
  intro heq
  have hnodup := hfilled.chunks_id
  rw [fill, List.map_append] at hnodup
  exact List.disjoint_of_nodup_append hnodup (List.mem_map_of_mem hchunk)
    (heq ▸ List.mem_map_of_mem (List.mem_map_of_mem hrow))

section
variable (hvalid : t.Valid) (hopens : Opens t document b) (hrows : OfDocument document rows)
  (hfilled : (b.fill rows).Valid)
include hvalid hopens hrows hfilled

/-- **The rows of the source are the new ones.** -/
theorem only_fill_self : (b.fill rows).only document.sourceId =
    ⟨[document], rows.map (·.1), rows.map (·.2)⟩ := by
  have hdocuments : (b.fill rows).documents.filter (·.sourceId = document.sourceId) = [document] :=
    (hopens.documents _).trans (if_pos rfl)
  have hchunks : (b.fill rows).chunks.filter (·.documentId ∈ [document].map (·.id)) =
      rows.map (·.1) := by
    rw [fill, List.filter_append, List.filter_eq_nil_iff.mpr, List.nil_append,
      List.filter_eq_self.mpr]
    · intro chunk hchunk
      obtain ⟨row, hrow, rfl⟩ := List.mem_map.mp hchunk
      simp [(hrows row hrow).1]
    · intro chunk hchunk
      simpa using (hopens.mem_chunks.mp hchunk).2
  have hembeddings : (b.fill rows).embeddings.filter
      (·.chunkId ∈ (rows.map (·.1)).map (·.id)) = rows.map (·.2) := by
    rw [fill, List.filter_append, List.filter_eq_nil_iff.mpr, List.nil_append,
      List.filter_eq_self.mpr]
    · intro embedding hembedding
      obtain ⟨row, hrow, rfl⟩ := List.mem_map.mp hembedding
      rw [(hrows row hrow).2]
      exact decide_eq_true (List.mem_map_of_mem (List.mem_map_of_mem hrow))
    · -- an embedding that is kept refers to a chunk that is kept
      intro embedding hembedding hnew
      rw [hopens.embeddings, List.mem_filter, decide_eq_true_iff] at hembedding
      obtain ⟨chunk, hchunk, hid⟩ := hvalid.embeddings_chunk embedding hembedding.1
      have hother : chunk.documentId ≠ document.id := fun heq => hembedding.2 (hid ▸
        List.mem_map_of_mem (List.mem_filter.mpr ⟨hchunk, decide_eq_true heq⟩))
      obtain ⟨new, hmem, heq⟩ := List.mem_map.mp (of_decide_eq_true hnew)
      obtain ⟨row, hrow, rfl⟩ := List.mem_map.mp hmem
      exact chunk_ne_of_fill hfilled (hopens.mem_chunks.mpr ⟨hchunk, hother⟩) hrow
        (hid.trans heq.symm)
  simp only [only]
  rw [hdocuments, hchunks, hembeddings]

/-- **The rows of another source are what they were.** -/
theorem only_fill_other (hne : sourceId ≠ document.sourceId) :
    (b.fill rows).only sourceId = t.only sourceId := by
  have hdocuments : (b.fill rows).documents.filter (·.sourceId = sourceId) =
      t.documents.filter (·.sourceId = sourceId) :=
    (hopens.documents _).trans (if_neg hne)
  have howner : ∀ id ∈ (t.documents.filter (·.sourceId = sourceId)).map (·.id),
      id ≠ document.id := by
    intro id hid
    obtain ⟨other, hother, rfl⟩ := List.mem_map.mp hid
    obtain ⟨hother, hsource⟩ := List.mem_filter.mp hother
    exact hopens.owner other hother (of_decide_eq_true hsource ▸ hne)
  have hchunks : (b.fill rows).chunks.filter
      (·.documentId ∈ (t.documents.filter (·.sourceId = sourceId)).map (·.id)) =
      t.chunks.filter
        (·.documentId ∈ (t.documents.filter (·.sourceId = sourceId)).map (·.id)) := by
    have hnew : (rows.map (·.1)).filter
        (·.documentId ∈ (t.documents.filter (·.sourceId = sourceId)).map (·.id)) = [] := by
      refine List.filter_eq_nil_iff.mpr fun chunk hchunk hin => ?_
      obtain ⟨row, hrow, rfl⟩ := List.mem_map.mp hchunk
      exact howner _ (of_decide_eq_true hin) (hrows row hrow).1
    rw [fill, List.filter_append, hnew, List.append_nil, hopens.chunks, List.filter_filter]
    refine List.filter_congr fun chunk _ => ?_
    by_cases hin : chunk.documentId ∈ (t.documents.filter (·.sourceId = sourceId)).map (·.id)
    · simp only [hin, howner _ hin, ne_eq, not_false_eq_true, decide_true, Bool.and_self]
    · simp only [hin, decide_false, Bool.false_and]
  have hnew : (rows.map (·.2)).filter (·.chunkId ∈ (t.only sourceId).chunks.map (·.id)) = [] := by
    refine List.filter_eq_nil_iff.mpr fun embedding hembedding hin => ?_
    obtain ⟨row, hrow, rfl⟩ := List.mem_map.mp hembedding
    obtain ⟨chunk, hchunk, hid⟩ := List.mem_map.mp (of_decide_eq_true hin)
    obtain ⟨hchunk, hown⟩ := List.mem_filter.mp hchunk
    exact chunk_ne_of_fill hfilled (hopens.mem_chunks.mpr
      ⟨hchunk, howner _ (of_decide_eq_true hown)⟩) hrow (hid.trans (hrows row hrow).2)
  have hembeddings : (b.fill rows).embeddings.filter
      (·.chunkId ∈ (t.only sourceId).chunks.map (·.id)) =
      t.embeddings.filter (·.chunkId ∈ (t.only sourceId).chunks.map (·.id)) := by
    rw [fill, List.filter_append, hnew, List.append_nil, hopens.embeddings, List.filter_filter]
    refine List.filter_congr fun embedding _ => ?_
    by_cases hin : embedding.chunkId ∈ (t.only sourceId).chunks.map (·.id)
    · -- a chunk of the source is not one of those deleted
      have hkept : embedding.chunkId ∉ t.chunkIds document.id := fun hdeleted => by
        obtain ⟨chunk, hchunk, hid⟩ := List.mem_map.mp hin
        obtain ⟨gone, hgone, hid'⟩ := List.mem_map.mp hdeleted
        obtain ⟨hchunk, hown⟩ := List.mem_filter.mp hchunk
        obtain ⟨hgone, hown'⟩ := List.mem_filter.mp hgone
        rw [hvalid.chunk_eq hchunk hgone (hid.trans hid'.symm)] at hown
        exact howner _ (of_decide_eq_true hown) (of_decide_eq_true hown')
      simp only [hin, hkept, not_false_eq_true, decide_true, Bool.and_self]
    · simp only [hin, decide_false, Bool.false_and]
  simp only [only]
  rw [hdocuments, hchunks]
  exact congrArg (KnowledgeTables.mk _ _) hembeddings

end

end KnowledgeTables

end SupportPlatform
