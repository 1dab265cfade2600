import SupportPlatform.Ingestion
import SupportPlatform.ReferenceCodec
import SupportPlatform.Replay

/-! # Runs of ingestion

`KnowledgeIngestor.ingest` as a program over its statements and its calls of the embedding
provider, each of which can fail.  A session sees its own changes, which are the tables' once they
are committed and lost when it closes; the database answers a change only if the schema allows it.

Each source is either left as it is or given a new set of rows in one transaction
(`ends_ingestSource`), and the sources after it leave these rows alone.  So a run that ends has
stored every source, from which `stored_of_run` and `idempotent_iff` follow.
-/
namespace SupportPlatform
open Program

/-! ## Calls -/

/-- The calls of ingestion.  A flush sends what is pending and one row more, whose identifier the
database chooses. -/
inductive KnowledgeOp (Digest Vector : Type)
  | selectDocument (sourceId : Text)
  | selectRows (documentId : Nat)
  | selectChunkIds (documentId : Nat)
  | deleteEmbeddings (chunkIds : List Nat)
  | deleteChunks (documentId : Nat)
  | flush (pending : List (KnowledgeChange Digest Vector))
      (added : Nat → KnowledgeChange Digest Vector)
  | commit (pending : List (KnowledgeChange Digest Vector))
  | closeSession
  | embedTexts (texts : List Text)

/-- How a call is answered. -/
def KnowledgeResp {Digest Vector : Type} : KnowledgeOp Digest Vector → Type
  | .selectDocument _ => Except PyExc (Option (KnowledgeDocumentRecord Digest))
  | .selectRows _ =>
      Except PyExc (List (KnowledgeChunkRecord Digest × KnowledgeEmbeddingRecord Digest Vector))
  | .selectChunkIds _ => Except PyExc (List Nat)
  | .deleteEmbeddings _ | .deleteChunks _ => Except PyExc Unit
  | .flush _ _ => Except PyExc Nat
  | .commit _ => CommitReport
  | .closeSession => Unit
  | .embedTexts _ => Except PyExc (List Vector)

/-- The tables, what the open session sees of them, and how often the provider was called, a row
was written and a commit that was reported as failed was carried out. -/
structure KnowledgeStore (Digest Vector : Type) where
  tables : KnowledgeTables Digest Vector
  session : KnowledgeTables Digest Vector
  embeddingCalls : Nat
  writes : Nat
  unacknowledged : Nat

section
variable {Digest Vector : Type}

/-- The tables, before a run. -/
def KnowledgeStore.start (tables : KnowledgeTables Digest Vector) : KnowledgeStore Digest Vector :=
  ⟨tables, tables, 0, 0, 0⟩

/-- Nothing is lost with a session that sees what the tables hold. -/
theorem KnowledgeStore.closed {s : KnowledgeStore Digest Vector} (h : s.session = s.tables) :
    { s with session := s.tables } = s := by
  cases s
  cases h
  rfl

/-- A statement answers what it reads, or fails. -/
def Reads {α : Type} (value : α) : Except PyExc α → Prop
  | .ok a => a = value
  | .error _ => True

/-- Which answers a call can get.  Every statement can fail; a change is carried out only if the
tables meet the schema then. -/
def knowledgePermits : (o : KnowledgeOp Digest Vector) → KnowledgeStore Digest Vector →
    KnowledgeResp o → Prop
  | .selectDocument sourceId, s, r => Reads (s.session.document? sourceId) r
  | .selectRows documentId, s, r => Reads (s.session.joined documentId) r
  | .selectChunkIds documentId, s, r => Reads (s.session.chunkIds documentId) r
  | .flush pending added, s, r => match r with
      | .ok id => ((s.session.applyAll pending).apply (added id)).Valid
      | .error _ => True
  | .commit pending, s, r => match r with
      | .committed | .failed _ true => (s.session.applyAll pending).Valid
      | .failed _ false => True
  | .deleteEmbeddings _, _, _ | .deleteChunks _, _, _ | .closeSession, _, _ | .embedTexts _, _, _ =>
      True

/-- What is there after an answer. -/
def knowledgeAfter : (o : KnowledgeOp Digest Vector) → KnowledgeStore Digest Vector →
    KnowledgeResp o → KnowledgeStore Digest Vector
  | .selectDocument _, s, _ | .selectRows _, s, _ | .selectChunkIds _, s, _ => s
  | .deleteEmbeddings chunkIds, s, r => match r with
      | .ok _ => { s with
          session := s.session.deleteEmbeddings chunkIds, writes := s.writes + 1 }
      | .error _ => s
  | .deleteChunks documentId, s, r => match r with
      | .ok _ => { s with session := s.session.deleteChunks documentId, writes := s.writes + 1 }
      | .error _ => s
  | .flush pending added, s, r => match r with
      | .ok id => { s with
          session := (s.session.applyAll pending).apply (added id)
          writes := s.writes + pending.length + 1 }
      | .error _ => s
  | .commit pending, s, r =>
      let settled := { s with
        tables := s.session.applyAll pending
        session := s.session.applyAll pending
        writes := s.writes + pending.length }
      match r with
      | .committed => settled
      | .failed _ true => { settled with unacknowledged := s.unacknowledged + 1 }
      | .failed _ false => s
  | .closeSession, s, _ => { s with session := s.tables }
  | .embedTexts _, s, _ => { s with embeddingCalls := s.embeddingCalls + 1 }

/-- **What a call does.** -/
def KnowledgeStep (o : KnowledgeOp Digest Vector) (s : KnowledgeStore Digest Vector)
    (r : KnowledgeResp o) (s' : KnowledgeStore Digest Vector) : Prop :=
  knowledgePermits o s r ∧ s' = knowledgeAfter o s r

/-! ## The code -/

/-- Code of the ingestor. -/
abbrev Ingest (Digest Vector α : Type) :=
  Program (@KnowledgeResp Digest Vector) PyExc α

namespace Ingest

/-- The document with a `source_id`. -/
def selectDocument (sourceId : Text) :
    Ingest Digest Vector (Option (KnowledgeDocumentRecord Digest)) :=
  call (.selectDocument sourceId) answer

/-- The chunks of a document joined with their embeddings. -/
def selectRows (documentId : Nat) : Ingest Digest Vector
    (List (KnowledgeChunkRecord Digest × KnowledgeEmbeddingRecord Digest Vector)) :=
  call (.selectRows documentId) answer

/-- The identifiers of the chunks of a document. -/
def selectChunkIds (documentId : Nat) : Ingest Digest Vector (List Nat) :=
  call (.selectChunkIds documentId) answer

def deleteEmbeddings (chunkIds : List Nat) : Ingest Digest Vector Unit :=
  call (.deleteEmbeddings chunkIds) answer

def deleteChunks (documentId : Nat) : Ingest Digest Vector Unit :=
  call (.deleteChunks documentId) answer

/-- `session.add(...)` and `session.flush()`, for the identifier of the row. -/
def flush (pending : List (KnowledgeChange Digest Vector))
    (added : Nat → KnowledgeChange Digest Vector) : Ingest Digest Vector Nat :=
  call (.flush pending added) answer

/-- `session.commit()`. -/
def commit (pending : List (KnowledgeChange Digest Vector)) : Ingest Digest Vector Unit :=
  call (.commit pending) fun report => answer report.result

/-- `with self.session_factory() as session`. -/
def withSession {α : Type} (body : Ingest Digest Vector α) : Ingest Digest Vector α :=
  body.andFinally (call .closeSession ret)

/-- `self.embedding_provider.embed_texts(texts)`. -/
def embedTexts (texts : List Text) : Ingest Digest Vector (List Vector) :=
  call (.embedTexts texts) answer

end Ingest

/-- The document that is added for a source. -/
def KnowledgeSource.document (source : KnowledgeSource Digest) (id : Nat) :
    KnowledgeDocumentRecord Digest :=
  ⟨id, source.sourceId, source.title, source.category, source.version, source.contentHash,
    .obj [("path", .str source.path)]⟩

/-- The assignments to a document that was found. -/
def KnowledgeDocumentRecord.assign (document : KnowledgeDocumentRecord Digest)
    (source : KnowledgeSource Digest) : KnowledgeDocumentRecord Digest :=
  { document with
    title := source.title
    category := source.category
    version := source.version
    contentHash := source.contentHash
    sourceMetadata := .obj [("path", .str source.path)] }

namespace KnowledgeIngestor
variable [DecidableEq Digest] [Runtime] (ingestor : KnowledgeIngestor) (hash : Text → Digest)

/-- `_is_current(session, document, expected_source_hash, chunks)`. -/
def isCurrent (document : KnowledgeDocumentRecord Digest) (expectedSourceHash : Digest)
    (chunks : List (KnowledgeChunk Digest)) : Ingest Digest Vector Bool :=
  if chunks.isEmpty ∨ document.contentHash ≠ expectedSourceHash then return false
  else do
    let rows ← Ingest.selectRows document.id
    return ingestor.rowsCurrent rows chunks

/-- Whether a source is left as it is. -/
def leaves (source : KnowledgeSource Digest) : Ingest Digest Vector Bool :=
  Ingest.withSession do
    match ← Ingest.selectDocument source.sourceId with
    | none => return false
    | some document =>
        if metadataCurrent document source then
          ingestor.isCurrent document source.contentHash (ingestor.chunks hash source)
        else return false

/-- The loop that adds the chunks and their embeddings, with what is pending before each turn;
`zip` is strict. -/
def storeChunks (documentId : Nat) : List (KnowledgeChange Digest Vector) →
    List (KnowledgeChunk Digest) → List Vector →
    Ingest Digest Vector (List (KnowledgeChange Digest Vector))
  | pending, [], [] => return pending
  | pending, chunk :: chunks, vector :: vectors => do
      let chunkId ← Ingest.flush pending fun id =>
        .insertChunk ⟨id, documentId, chunk.chunkIndex, chunk.content, chunk.contentHash⟩
      storeChunks documentId [.insertEmbedding ⟨chunkId, ingestor.embeddingProvider.providerName,
        ingestor.embeddingProvider.modelName, ingestor.embeddingProvider.dimensions,
        chunk.contentHash, vector⟩] chunks vectors
  | _, [], _ :: _ => throw ⟨.valueError, "zip() argument 2 is longer than argument 1"⟩
  | _, _ :: _, [] => throw ⟨.valueError, "zip() argument 2 is shorter than argument 1"⟩

/-- The transaction that stores a source. -/
def storeSource (source : KnowledgeSource Digest) (chunks : List (KnowledgeChunk Digest))
    (vectors : List Vector) : Ingest Digest Vector Unit :=
  Ingest.withSession do
    match ← Ingest.selectDocument source.sourceId with
    | none =>
        let documentId ← Ingest.flush [] fun id => .insertDocument (source.document id)
        Ingest.commit (← ingestor.storeChunks documentId [] chunks vectors)
    | some document =>
        let chunkIds ← Ingest.selectChunkIds document.id
        if chunkIds ≠ [] then
          Ingest.deleteEmbeddings chunkIds
        Ingest.deleteChunks document.id
        Ingest.commit (← ingestor.storeChunks document.id
          [.updateDocument (document.assign source)] chunks vectors)

/-- One source: how many chunks were embedded, or `none` where it is unchanged. -/
def ingestSource (source : KnowledgeSource Digest) : Ingest Digest Vector (Option Nat) := do
  let chunks := ingestor.chunks hash source
  if ← ingestor.leaves hash source then return none
  let vectors ← Ingest.embedTexts (chunks.map fun chunk => "search_document: " ++ chunk.content)
  ingestor.storeSource source chunks vectors
  return some chunks.length

/-- The sources from here on, after those that are counted. -/
def ingestSources : IngestionResult → List (KnowledgeSource Digest) →
    Ingest Digest Vector IngestionResult
  | counts, [] => return counts
  | counts, source :: later => do
      match ← ingestor.ingestSource hash source with
      | none =>
          ingestSources { counts with documentsUnchanged := counts.documentsUnchanged + 1 } later
      | some embedded =>
          ingestSources { counts with
            documentsUpdated := counts.documentsUpdated + 1
            chunksEmbedded := counts.chunksEmbedded + embedded } later

/-- `KnowledgeIngestor.ingest(base_path)`. -/
def ingest (directory : KnowledgeDirectory) : Ingest Digest Vector IngestionResult := do
  let sources ← answer (loadKnowledgeSources hash directory)
  ingestor.ingestSources hash ⟨0, 0, 0⟩ sources

end KnowledgeIngestor

/-! ## Reasoning about runs -/

/-- The program, run on its own from `s`, ends with `Q` of its result or `X` of its exception. -/
abbrev IngestEnds {α : Type} (p : Ingest Digest Vector α) (s : KnowledgeStore Digest Vector)
    (Q : α → KnowledgeStore Digest Vector → Prop)
    (X : PyExc → KnowledgeStore Digest Vector → Prop) : Prop :=
  p.Safe (Discipline.solo (fun _ => True) : Discipline (System.solo KnowledgeStep)) () Q X s

section
variable {α β : Type} {s : KnowledgeStore Digest Vector}
  {Q : α → KnowledgeStore Digest Vector → Prop} {X : PyExc → KnowledgeStore Digest Vector → Prop}

theorem ends_knowledgeCall {o : KnowledgeOp Digest Vector} {k : KnowledgeResp o → Ingest Digest Vector α}
    (h : ∀ r s', KnowledgeStep o s r s' → IngestEnds (k r) s' Q X) : IngestEnds (call o k) s Q X := by
  rintro _ rfl - r s' hstep
  exact ⟨⟨trivial, trivial⟩, h r s' hstep⟩

theorem ends_selectDocument {sourceId : Text}
    {f : Option (KnowledgeDocumentRecord Digest) → Ingest Digest Vector α}
    (hok : IngestEnds (f (s.session.document? sourceId)) s Q X) (herror : ∀ e, X e s) :
    IngestEnds (Ingest.selectDocument sourceId >>= f) s Q X := by
  refine ends_knowledgeCall fun r s' h => ?_
  obtain ⟨hr, rfl⟩ : _ ∧ s' = s := h
  cases r with
  | ok document =>
      obtain rfl : document = _ := hr
      exact hok
  | error e => exact herror e

theorem ends_selectRows {documentId : Nat}
    {f : List (KnowledgeChunkRecord Digest × KnowledgeEmbeddingRecord Digest Vector) →
      Ingest Digest Vector α}
    (hok : IngestEnds (f (s.session.joined documentId)) s Q X) (herror : ∀ e, X e s) :
    IngestEnds (Ingest.selectRows documentId >>= f) s Q X := by
  refine ends_knowledgeCall fun r s' h => ?_
  obtain ⟨hr, rfl⟩ : _ ∧ s' = s := h
  cases r with
  | ok rows =>
      obtain rfl : rows = _ := hr
      exact hok
  | error e => exact herror e

theorem ends_selectChunkIds {documentId : Nat} {f : List Nat → Ingest Digest Vector α}
    (hok : IngestEnds (f (s.session.chunkIds documentId)) s Q X) (herror : ∀ e, X e s) :
    IngestEnds (Ingest.selectChunkIds documentId >>= f) s Q X := by
  refine ends_knowledgeCall fun r s' h => ?_
  obtain ⟨hr, rfl⟩ : _ ∧ s' = s := h
  cases r with
  | ok ids =>
      obtain rfl : ids = _ := hr
      exact hok
  | error e => exact herror e

/-- A session is closed in either case. -/
theorem ends_withKnowledgeSession {body : Ingest Digest Vector α}
    (h : IngestEnds body s (fun a s' => Q a { s' with session := s'.tables })
      fun e s' => X e { s' with session := s'.tables }) :
    IngestEnds (Ingest.withSession body) s Q X := by
  refine safe_andFinally (h.mono (fun a s' hQ => ?_) fun e s' hX => ?_)
  · refine ends_knowledgeCall fun r s'' hstep => ?_
    obtain rfl := hstep.2
    exact hQ
  · refine ends_knowledgeCall fun r s'' hstep => ?_
    obtain rfl := hstep.2
    exact hX

end

section
variable [DecidableEq Digest] [Runtime] {ingestor : KnowledgeIngestor} {hash : Text → Digest}
  {s : KnowledgeStore Digest Vector} {source : KnowledgeSource Digest}

/-- **The first session** finds out whether the source is current. -/
theorem ends_leaves {Q : Bool → KnowledgeStore Digest Vector → Prop}
    {X : PyExc → KnowledgeStore Digest Vector → Prop} (hidle : s.session = s.tables)
    (hQ : ∀ b, (b = true ↔ Current ingestor hash s.tables source) → Q b s) (hX : ∀ e, X e s) :
    IngestEnds (ingestor.leaves hash source) s Q X := by
  have hclosed := KnowledgeStore.closed hidle
  refine ends_withKnowledgeSession (ends_selectDocument ?_ fun e => hclosed.symm ▸ hX e)
  rw [hidle]
  cases hfound : s.tables.document? source.sourceId with
  | none =>
      refine safe_ret.mpr (hclosed.symm ▸ hQ false ⟨nofun, ?_⟩)
      rintro ⟨document, hsome, -⟩
      rw [hfound] at hsome
      cases hsome
  | some document =>
      have hcurrent : Current ingestor hash s.tables source ↔
          metadataCurrent document source = true ∧ ingestor.chunks hash source ≠ [] ∧
            document.contentHash = source.contentHash ∧
            ingestor.rowsCurrent (s.tables.joined document.id)
              (ingestor.chunks hash source) = true := by
        constructor
        · rintro ⟨other, hother, h⟩
          obtain rfl := Option.some.inj (hfound.symm.trans hother)
          exact h
        · exact fun h => ⟨document, hfound, h⟩
      dsimp only
      by_cases hmetadata : metadataCurrent document source = true
      · rw [if_pos hmetadata, KnowledgeIngestor.isCurrent]
        by_cases hskip : (ingestor.chunks hash source).isEmpty ∨
            document.contentHash ≠ source.contentHash
        · rw [if_pos hskip]
          refine safe_ret.mpr (hclosed.symm ▸ hQ false ⟨nofun, fun h => ?_⟩)
          obtain ⟨-, hne, hdigest, -⟩ := hcurrent.mp h
          rcases hskip with hempty | hdiffer
          · exact absurd (List.isEmpty_iff.mp hempty) hne
          · exact absurd hdigest hdiffer
        · rw [if_neg hskip]
          refine ends_selectRows ?_ fun e => hclosed.symm ▸ hX e
          refine safe_ret.mpr (hclosed.symm ▸ hQ _ ?_)
          rw [hidle, hcurrent]
          simp only [not_or, List.isEmpty_iff, ne_eq, not_not] at hskip
          exact ⟨fun h => ⟨hmetadata, hskip.1, hskip.2, h⟩, fun h => h.2.2.2⟩
      · rw [if_neg hmetadata]
        exact safe_ret.mpr (hclosed.symm ▸
          hQ false ⟨nofun, fun h => absurd (hcurrent.mp h).1 hmetadata⟩)

/-- The row of a chunk, with its embedding. -/
def StoresChunk (ingestor : KnowledgeIngestor) (documentId : Nat) (chunk : KnowledgeChunk Digest)
    (row : KnowledgeChunkRecord Digest × KnowledgeEmbeddingRecord Digest Vector) : Prop :=
  row.1.documentId = documentId ∧ row.1.chunk = chunk ∧ row.2.chunkId = row.1.id ∧
    ingestor.Embeds chunk.contentHash row.2

omit [DecidableEq Digest] [Runtime] in
/-- **The loop over the chunks**: with what is pending, the rows of the chunks come after those
that are there.  The induction is on the chunks, one flush each. -/
theorem ends_storeChunks {documentId : Nat} {b : KnowledgeTables Digest Vector}
    {l : List (KnowledgeChunkRecord Digest × KnowledgeEmbeddingRecord Digest Vector)}
    {pending : List (KnowledgeChange Digest Vector)} {chunks : List (KnowledgeChunk Digest)}
    {vectors : List Vector}
    {Q : List (KnowledgeChange Digest Vector) → KnowledgeStore Digest Vector → Prop}
    {X : PyExc → KnowledgeStore Digest Vector → Prop}
    (hb : s.session.applyAll pending = b.fill l)
    (hQ : ∀ pending' s' new, List.Forall₂ (StoresChunk ingestor documentId) chunks new →
      s'.session.applyAll pending' = b.fill (l ++ new) → s'.tables = s.tables →
      s'.unacknowledged = s.unacknowledged → Q pending' s')
    (hX : ∀ e s', s'.tables = s.tables → s'.unacknowledged = s.unacknowledged → X e s') :
    IngestEnds (ingestor.storeChunks documentId pending chunks vectors) s Q X := by
  induction chunks generalizing s l pending vectors with
  | nil =>
      cases vectors with
      | nil => exact safe_ret.mpr (hQ pending s [] .nil (by rwa [List.append_nil]) rfl rfl)
      | cons vector vectors => exact safe_raise.mpr (hX _ s rfl rfl)
  | cons chunk chunks ih =>
      cases vectors with
      | nil => exact safe_raise.mpr (hX _ s rfl rfl)
      | cons vector vectors =>
          refine ends_knowledgeCall fun r s' hstep => ?_
          cases r with
          | error e =>
              obtain rfl : s' = s := hstep.2
              exact safe_raise.mpr (hX e s' rfl rfl)
          | ok id =>
              obtain ⟨-, rfl⟩ := hstep
              refine ih (l := l ++ [(⟨id, documentId, chunk.chunkIndex, chunk.content,
                chunk.contentHash⟩, ⟨id, ingestor.embeddingProvider.providerName,
                ingestor.embeddingProvider.modelName, ingestor.embeddingProvider.dimensions,
                chunk.contentHash, vector⟩)]) ?_ (fun pending' s' new hnew hs' => ?_) hX
              · rw [← KnowledgeTables.fill_concat, ← hb]
                rfl
              · exact hQ pending' s' (_ :: new) (.cons ⟨rfl, rfl, rfl, rfl, rfl, rfl, rfl⟩ hnew)
                  (by rw [hs', List.append_assoc, List.singleton_append])

/-- A source has got a new set of rows. -/
structure Replaced (ingestor : KnowledgeIngestor) (hash : Text → Digest)
    (source : KnowledgeSource Digest) (t t' : KnowledgeTables Digest Vector) : Prop where
  valid : t'.Valid
  stored : SourceStored ingestor hash (t'.only source.sourceId) source
  others : ∀ sourceId, sourceId ≠ source.sourceId → t'.only sourceId = t.only sourceId
  complete : Complete hash t → Complete hash t'

omit [DecidableEq Digest] in
/-- The rows that the loop leaves are those of the source. -/
theorem replaced_of_fill {t b : KnowledgeTables Digest Vector}
    {document : KnowledgeDocumentRecord Digest}
    {rows : List (KnowledgeChunkRecord Digest × KnowledgeEmbeddingRecord Digest Vector)}
    (hvalid : t.Valid) (hopens : KnowledgeTables.Opens t document b)
    (hsource : document.sourceId = source.sourceId)
    (hmetadata : metadataCurrent document source = true)
    (hdigest : document.contentHash = source.contentHash)
    (hrows : List.Forall₂ (StoresChunk ingestor document.id) (ingestor.chunks hash source) rows)
    (hfilled : (b.fill rows).Valid) : Replaced ingestor hash source t (b.fill rows) := by
  have hpairs : List.Forall₂ (fun row expected => (row.1.documentId = document.id ∧
      row.2.chunkId = row.1.id ∧ ingestor.Embeds row.1.contentHash row.2) ∧
        row.1.chunk = expected) rows (ingestor.chunks hash source) := by
    refine (hrows.imp fun chunk row h => ?_).flip
    obtain ⟨hdocument, rfl, hid, hembeds⟩ := h
    exact ⟨⟨hdocument, hid, hembeds⟩, rfl⟩
  obtain ⟨hof, hequal⟩ := (List.forall₂_and_left _ _).mp hpairs
  have hchunks : (rows.map (·.1)).map (·.chunk) = ingestor.chunks hash source := by
    rw [List.map_map]
    exact List.forall₂_eq_eq_eq ▸ List.forall₂_map_left_iff.mpr hequal
  have hdocument : KnowledgeTables.OfDocument document rows :=
    fun row hrow => ⟨(hof row hrow).1, (hof row hrow).2.1⟩
  refine ⟨hfilled, ?_, fun sourceId hne => ?_, fun hcomplete chunk hchunk => ?_⟩
  · rw [← hsource, KnowledgeTables.only_fill_self hvalid hopens hdocument hfilled]
    refine ⟨document, rfl, hmetadata, hdigest, ?_, fun chunk hchunk => ?_⟩
    · -- the chunks were added in the order of their indices
      have hindices : ((rows.map (·.1)).map (·.chunkIndex)).Pairwise (· ≤ ·) := by
        have heq : (rows.map (·.1)).map (·.chunkIndex) =
            (ingestor.chunks hash source).map (·.chunkIndex) := by
          rw [← hchunks]
          simp only [List.map_map]
          rfl
        rw [heq, KnowledgeIngestor.chunks, chunkDocument_indices]
        exact List.pairwise_le_range
      rw [(List.pairwise_map.mp hindices).insertionSort_eq]
      exact hchunks
    · obtain ⟨row, hrow, rfl⟩ := List.mem_map.mp hchunk
      have hnodup := hfilled.embeddings_chunkId
      rw [KnowledgeTables.fill, List.map_append] at hnodup
      refine ⟨row.2, ?_, (hof row hrow).2.2⟩
      rw [← (hof row hrow).2.1]
      exact filter_key_eq hnodup.of_append_right (List.mem_map_of_mem hrow)
  · exact KnowledgeTables.only_fill_other hvalid hopens hdocument hfilled (hsource ▸ hne)
  · rcases List.mem_append.mp hchunk with hold | hnew
    · obtain ⟨hmem, hother⟩ := hopens.mem_chunks.mp hold
      obtain ⟨hhash, row, hrow, hid⟩ := hcomplete chunk hmem
      refine ⟨hhash, row, List.mem_append_left _ ?_, hid⟩
      rw [hopens.embeddings, List.mem_filter]
      refine ⟨hrow, decide_eq_true fun hdeleted => hother ?_⟩
      obtain ⟨gone, hgone, hid'⟩ := List.mem_map.mp hdeleted
      obtain ⟨hgone, hown⟩ := List.mem_filter.mp hgone
      rw [← hvalid.chunk_eq hgone hmem (hid'.trans hid)]
      exact of_decide_eq_true hown
    · obtain ⟨row, hrow, rfl⟩ := List.mem_map.mp hnew
      have hmem : row.1.chunk ∈ ingestor.chunks hash source :=
        hchunks ▸ List.mem_map_of_mem (List.mem_map_of_mem hrow)
      exact ⟨chunkDocument_hashes _ _ _ hmem, row.2,
        List.mem_append_right _ (List.mem_map_of_mem hrow), (hof row hrow).2.1⟩

omit [DecidableEq Digest] in
/-- **The second session** gives the source a new set of rows, or changes nothing; only a commit
whose report is lost does both. -/
theorem ends_storeSource {vectors : List Vector} {Q : Unit → KnowledgeStore Digest Vector → Prop}
    {X : PyExc → KnowledgeStore Digest Vector → Prop} (hidle : s.session = s.tables)
    (hvalid : s.tables.Valid)
    (hQ : ∀ s', s'.session = s'.tables → Replaced ingestor hash source s.tables s'.tables →
      s'.unacknowledged = s.unacknowledged → Q () s')
    (hX : ∀ e s', s'.session = s'.tables →
      s'.tables = s.tables ∧ s'.unacknowledged = s.unacknowledged ∨
        Replaced ingestor hash source s.tables s'.tables ∧
          s'.unacknowledged = s.unacknowledged + 1 → X e s') :
    IngestEnds (ingestor.storeSource source (ingestor.chunks hash source) vectors) s Q X := by
  -- from the document on, the two cases are the same
  have hstore : ∀ (document : KnowledgeDocumentRecord Digest) (b : KnowledgeTables Digest Vector)
      (pending : List (KnowledgeChange Digest Vector)) (s₁ : KnowledgeStore Digest Vector),
      KnowledgeTables.Opens s.tables document b → document.sourceId = source.sourceId →
      metadataCurrent document source = true → document.contentHash = source.contentHash →
      s₁.session.applyAll pending = b → s₁.tables = s.tables →
      s₁.unacknowledged = s.unacknowledged →
      IngestEnds (do
          Ingest.commit (← ingestor.storeChunks document.id pending (ingestor.chunks hash source)
            vectors)) s₁ (fun a s' => Q a { s' with session := s'.tables })
        fun e s' => X e { s' with session := s'.tables } := by
    intro document b pending s₁ hopens hsource hmetadata hdigest hb htables hlost
    have hb' : s₁.session.applyAll pending = b.fill [] := by
      rw [hb, KnowledgeTables.fill, List.map_nil, List.map_nil, List.append_nil, List.append_nil]
    refine safe_bind.mpr (ends_storeChunks hb' (fun pending' s' rows hrows hs' htables' hlost' => ?_)
      fun e s' htables' hlost' => hX e _ rfl (.inl ⟨htables'.trans htables, hlost'.trans hlost⟩))
    rw [List.nil_append] at hs'
    have hreplaced : (s'.session.applyAll pending').Valid →
        Replaced ingestor hash source s.tables (s'.session.applyAll pending') := by
      rw [hs']
      exact replaced_of_fill hvalid hopens hsource hmetadata hdigest hrows
    refine ends_knowledgeCall fun r s'' hstep => ?_
    cases r with
    | committed =>
        obtain ⟨hfilled, rfl⟩ := hstep
        exact hQ _ rfl (hreplaced hfilled) (hlost'.trans hlost)
    | failed e applied =>
        cases applied with
        | true =>
            obtain ⟨hfilled, rfl⟩ := hstep
            exact hX e _ rfl (.inr ⟨hreplaced hfilled, congrArg (· + 1) (hlost'.trans hlost)⟩)
        | false =>
            obtain rfl : s'' = s' := hstep.2
            exact hX e _ rfl (.inl ⟨htables'.trans htables, hlost'.trans hlost⟩)
  have hfail : ∀ e (s' : KnowledgeStore Digest Vector), s'.tables = s.tables →
      s'.unacknowledged = s.unacknowledged → X e { s' with session := s'.tables } :=
    fun e s' htables hlost => hX e _ rfl (.inl ⟨htables, hlost⟩)
  refine ends_withKnowledgeSession (ends_selectDocument ?_ fun e => hfail e s rfl rfl)
  rw [hidle]
  cases hfound : s.tables.document? source.sourceId with
  | none =>
      refine ends_knowledgeCall fun r s' hstep => ?_
      cases r with
      | error e =>
          obtain rfl : s' = s := hstep.2
          exact hfail e s' rfl rfl
      | ok id =>
          obtain ⟨hinserted, rfl⟩ := hstep
          change (s.session.apply _).Valid at hinserted
          rw [hidle] at hinserted
          refine hstore _ _ _ _ (KnowledgeTables.opens_insert hvalid hinserted) rfl ?_ rfl
            (congrArg (fun t : KnowledgeTables Digest Vector =>
              t.apply (.insertDocument (source.document id))) hidle) rfl rfl
          simp [metadataCurrent, KnowledgeSource.document]
  | some document =>
      obtain ⟨hmem, hsource, -⟩ := KnowledgeTables.document?_eq_some hvalid hfound
      refine ends_selectChunkIds ?_ fun e => hfail e s rfl rfl
      rw [hidle]
      have hrest : ∀ s₁ : KnowledgeStore Digest Vector,
          s₁.session.deleteChunks document.id = s.tables.deleteChunks document.id →
          s₁.tables = s.tables → s₁.unacknowledged = s.unacknowledged →
          IngestEnds (do
            Ingest.deleteChunks document.id
            Ingest.commit (← ingestor.storeChunks document.id
              [.updateDocument (document.assign source)] (ingestor.chunks hash source) vectors)) s₁
            (fun a s' => Q a { s' with session := s'.tables })
            fun e s' => X e { s' with session := s'.tables } := by
        intro s₁ hdeleted htables hlost
        refine ends_knowledgeCall fun r s' hstep => ?_
        cases r with
        | error e =>
            obtain rfl : s' = s₁ := hstep.2
            exact hfail e s' htables hlost
        | ok _ =>
            obtain rfl := hstep.2
            refine hstore (document.assign source) _ _ _
              (KnowledgeTables.opens_update hvalid hmem rfl rfl) hsource ?_ rfl ?_ htables hlost
            · simp [metadataCurrent, KnowledgeDocumentRecord.assign]
            · exact congrArg (fun t : KnowledgeTables Digest Vector =>
                t.apply (.updateDocument (document.assign source))) hdeleted
      by_cases hids : s.tables.chunkIds document.id = []
      · rw [if_neg (not_not.mpr hids)]
        exact hrest s (hidle ▸ rfl) rfl rfl
      · rw [if_pos hids]
        refine ends_knowledgeCall fun r s' hstep => ?_
        cases r with
        | error e =>
            obtain rfl : s' = s := hstep.2
            exact hfail e s' rfl rfl
        | ok _ =>
            obtain rfl := hstep.2
            refine hrest _ (Eq.trans ?_ (KnowledgeTables.deleteChunks_deleteEmbeddings _ _)) rfl rfl
            exact congrArg (fun t : KnowledgeTables Digest Vector =>
              (t.deleteEmbeddings _).deleteChunks _) hidle

/-- **One source** is left as it is where it is current, and gets a new set of rows where it is
not. -/
theorem ends_ingestSource {Q : Option Nat → KnowledgeStore Digest Vector → Prop}
    {X : PyExc → KnowledgeStore Digest Vector → Prop} (hidle : s.session = s.tables)
    (hvalid : s.tables.Valid) (hsame : Current ingestor hash s.tables source → Q none s)
    (hread : ∀ e, X e s)
    (hQ : ∀ s', ¬ Current ingestor hash s.tables source → s'.session = s'.tables →
      Replaced ingestor hash source s.tables s'.tables → s'.unacknowledged = s.unacknowledged →
      Q (some (ingestor.chunks hash source).length) s')
    (hX : ∀ e s', ¬ Current ingestor hash s.tables source → s'.session = s'.tables →
      s'.tables = s.tables ∧ s'.unacknowledged = s.unacknowledged ∨
        Replaced ingestor hash source s.tables s'.tables ∧
          s'.unacknowledged = s.unacknowledged + 1 → X e s') :
    IngestEnds (ingestor.ingestSource hash source) s Q X := by
  refine safe_bind.mpr (ends_leaves hidle (fun b hb => ?_) hread)
  cases b with
  | true => exact safe_ret.mpr (hsame (hb.mp rfl))
  | false =>
      have hold : ¬ Current ingestor hash s.tables source := fun h => nomatch hb.mpr h
      refine ends_knowledgeCall fun r s' hstep => ?_
      obtain rfl := hstep.2
      cases r with
      | error e => exact safe_raise.mpr (hX e _ hold hidle (.inl ⟨rfl, rfl⟩))
      | ok vectors =>
          change IngestEnds (ingestor.storeSource source _ vectors >>= fun _ => ret (some _)) _ Q X
          refine safe_bind.mpr (ends_storeSource hidle hvalid (fun s'' hidle' hreplaced hlost => ?_)
            fun e s'' hidle' h => hX e s'' hold hidle' h)
          exact safe_ret.mpr (hQ s'' hold hidle' hreplaced hlost)

/-- A source that was handled: it passes the test, or holds what it should. -/
def UpToDate (ingestor : KnowledgeIngestor) (hash : Text → Digest)
    (t : KnowledgeTables Digest Vector) (source : KnowledgeSource Digest) : Prop :=
  Current ingestor hash t source ∨
    SourceStored ingestor hash (t.only source.sourceId) source

theorem UpToDate.congr {t t' : KnowledgeTables Digest Vector} (hvalid : t.Valid)
    (hvalid' : t'.Valid) (hrows : t'.only source.sourceId = t.only source.sourceId)
    (h : UpToDate ingestor hash t source) : UpToDate ingestor hash t' source :=
  h.imp (Current.congr hvalid hvalid' hrows) fun hstored => hrows ▸ hstored

/-- **The sources were handled**, between two states. -/
structure Handled (ingestor : KnowledgeIngestor) (hash : Text → Digest)
    (sources : List (KnowledgeSource Digest)) (s s' : KnowledgeStore Digest Vector) : Prop where
  idle : s'.session = s'.tables
  valid : s'.tables.Valid
  complete : Complete hash s.tables → Complete hash s'.tables
  settled : ∀ source ∈ sources, UpToDate ingestor hash s'.tables source
  others : ∀ sourceId, (∀ source ∈ sources, sourceId ≠ source.sourceId) →
    s'.tables.only sourceId = s.tables.only sourceId
  unacknowledged : s'.unacknowledged = s.unacknowledged

/-- One source was handled first. -/
theorem Handled.cons {s₁ s₂ : KnowledgeStore Digest Vector}
    {later : List (KnowledgeSource Digest)} (hfirst : Handled ingestor hash [source] s s₁)
    (hlater : Handled ingestor hash later s₁ s₂)
    (hne : ∀ other ∈ later, source.sourceId ≠ other.sourceId) :
    Handled ingestor hash (source :: later) s s₂ where
  idle := hlater.idle
  valid := hlater.valid
  complete h := hlater.complete (hfirst.complete h)
  settled := List.forall_mem_cons.mpr
    ⟨(hfirst.settled source List.mem_cons_self).congr hfirst.valid hlater.valid
      (hlater.others _ hne), hlater.settled⟩
  others sourceId h := by
    obtain ⟨hsource, hlater'⟩ := List.forall_mem_cons.mp h
    exact (hlater.others sourceId hlater').trans
      (hfirst.others sourceId (List.forall_mem_singleton.mpr hsource))
  unacknowledged := hlater.unacknowledged.trans hfirst.unacknowledged

/-- The handling of a source was broken off: nothing has changed, or the report of the commit is
lost. -/
def BrokenOff (ingestor : KnowledgeIngestor) (hash : Text → Digest)
    (source : KnowledgeSource Digest) (s s' : KnowledgeStore Digest Vector) : Prop :=
  s'.session = s'.tables ∧
    (s'.tables = s.tables ∧ s'.unacknowledged = s.unacknowledged ∨
      Replaced ingestor hash source s.tables s'.tables ∧
        s'.unacknowledged = s.unacknowledged + 1)

/-- **The loop over the sources.**  The induction is on the sources: what is handled already is
kept, as the later sources have other rows. -/
theorem ends_ingestSources {counts : IngestionResult} {sources : List (KnowledgeSource Digest)}
    (hidle : s.session = s.tables) (hvalid : s.tables.Valid)
    (hnodup : (sources.map (·.sourceId)).Nodup) :
    IngestEnds (ingestor.ingestSources hash counts sources) s
      (fun _ s' => Handled ingestor hash sources s s')
      fun _ s' => ∃ done source later s₁, sources = done ++ source :: later ∧
        Handled ingestor hash done s s₁ ∧ BrokenOff ingestor hash source s₁ s' := by
  have hnil : Handled ingestor hash [] s s := ⟨hidle, hvalid, id, nofun, fun _ _ => rfl, rfl⟩
  induction sources generalizing s counts with
  | nil => exact safe_ret.mpr hnil
  | cons source later ih =>
      rw [List.map_cons, List.nodup_cons] at hnodup
      have hne : ∀ other ∈ later, source.sourceId ≠ other.sourceId := fun other hother heq =>
        hnodup.1 (heq ▸ List.mem_map_of_mem hother)
      have hbroken : ∀ s', BrokenOff ingestor hash source s s' →
          ∃ done source' later' s₁, source :: later = done ++ source' :: later' ∧
            Handled ingestor hash done s s₁ ∧ BrokenOff ingestor hash source' s₁ s' :=
        fun s' h => ⟨[], source, later, s, rfl, hnil, h⟩
      -- the sources after this one, from the state it leaves
      have hrest : ∀ (counts : IngestionResult) (s₁ : KnowledgeStore Digest Vector),
          Handled ingestor hash [source] s s₁ →
          IngestEnds (ingestor.ingestSources hash counts later) s₁
            (fun _ s' => Handled ingestor hash (source :: later) s s')
            fun _ s' => ∃ done source' later' s₁, source :: later = done ++ source' :: later' ∧
              Handled ingestor hash done s s₁ ∧ BrokenOff ingestor hash source' s₁ s' := by
        intro counts s₁ hfirst
        refine (ih hfirst.idle hfirst.valid hnodup.2 ⟨hfirst.idle, hfirst.valid, id, nofun,
          fun _ _ => rfl, rfl⟩).mono (fun _ s' h => hfirst.cons h hne) ?_
        rintro _ s' ⟨done, source', later', s₂, rfl, hdone, hbroken⟩
        exact ⟨source :: done, source', later', s₂, rfl, hfirst.cons hdone fun other hother =>
          hne other (List.mem_append_left _ hother), hbroken⟩
      refine safe_bind.mpr (ends_ingestSource hidle hvalid (fun hcurrent => ?_)
        (fun e => hbroken s ⟨hidle, .inl ⟨rfl, rfl⟩⟩) (fun s' _ hidle' hreplaced hlost => ?_)
        fun e s' _ hidle' h => hbroken s' ⟨hidle', h⟩)
      · exact hrest _ s ⟨hidle, hvalid, id, List.forall_mem_singleton.mpr (.inl hcurrent),
          fun _ _ => rfl, rfl⟩
      · exact hrest _ s' ⟨hidle', hreplaced.valid, hreplaced.complete,
          List.forall_mem_singleton.mpr (.inr hreplaced.stored), fun sourceId h =>
            hreplaced.others sourceId (h source List.mem_cons_self), hlost⟩

/-- **Runs**, from the tables that another run has left or any others that meet the schema. -/
theorem run_ingest {directory : KnowledgeDirectory} {out : Except PyExc IngestionResult}
    {s' : KnowledgeStore Digest Vector} (hidle : s.session = s.tables) (hvalid : s.tables.Valid)
    (hrun : Exec KnowledgeStep (ingestor.ingest hash directory) s out s') :
    (∀ counts, out = .ok counts → ∃ sources, loadKnowledgeSources hash directory = .ok sources ∧
      Handled ingestor hash sources s s') ∧
    ∀ e, out = .error e → (loadKnowledgeSources hash directory = .error e ∧ s' = s) ∨
      ∃ done source later s₁, loadKnowledgeSources hash directory = .ok (done ++ source :: later) ∧
        Handled ingestor hash done s s₁ ∧ BrokenOff ingestor hash source s₁ s' := by
  have hends : IngestEnds (ingestor.ingest hash directory) s
      (fun _ s' => ∃ sources, loadKnowledgeSources hash directory = .ok sources ∧
        Handled ingestor hash sources s s')
      fun e s' => (loadKnowledgeSources hash directory = .error e ∧ s' = s) ∨
        ∃ done source later s₁,
          loadKnowledgeSources hash directory = .ok (done ++ source :: later) ∧
          Handled ingestor hash done s s₁ ∧ BrokenOff ingestor hash source s₁ s' := by
    cases hload : loadKnowledgeSources hash directory with
    | error e =>
        rw [KnowledgeIngestor.ingest, hload]
        exact safe_raise.mpr (.inl ⟨rfl, rfl⟩)
    | ok sources =>
        rw [KnowledgeIngestor.ingest, hload]
        obtain ⟨entries, -, -, hnodup⟩ := loadKnowledgeSources_ok hload
        refine (ends_ingestSources hidle hvalid hnodup).mono (fun _ s' h => ⟨sources, rfl, h⟩) ?_
        rintro e s' ⟨done, source, later, s₁, rfl, hdone, hbroken⟩
        exact .inr ⟨done, source, later, s₁, rfl, hdone, hbroken⟩
  exact Exec.of_safe hrun trivial hends

end

/-! ## Concrete runs -/

section
variable [DecidableEq Digest] [DecidableEq Vector]

/-- Whether a statement that reads `value` can be answered so. -/
def decideReads {α : Type} [DecidableEq α] (value : α) (r : Except PyExc α) :
    Decidable (Reads value r) :=
  match r with
  | .ok a => inferInstanceAs (Decidable (a = value))
  | .error _ => isTrue trivial

instance (s : KnowledgeStore Digest Vector) :
    (o : KnowledgeOp Digest Vector) → DecidablePred (knowledgePermits o s)
  | .selectDocument sourceId => decideReads (s.session.document? sourceId)
  | .selectRows documentId => decideReads (s.session.joined documentId)
  | .selectChunkIds documentId => decideReads (s.session.chunkIds documentId)
  | .flush pending added => fun r => match r with
      | .ok id => inferInstanceAs (Decidable ((s.session.applyAll pending).apply (added id)).Valid)
      | .error _ => isTrue trivial
  | .commit pending => fun r => match r with
      | .committed | .failed _ true => inferInstanceAs (Decidable (s.session.applyAll pending).Valid)
      | .failed _ false => isTrue trivial
  | .deleteEmbeddings _ | .deleteChunks _ | .closeSession | .embedTexts _ => fun _ => isTrue trivial

/-- The calls of ingestion, as they are run. -/
def knowledgeCalls : Runnable (@KnowledgeResp Digest Vector) Unit
    (KnowledgeStore Digest Vector) where
  permits _ s o r := decide (knowledgePermits o s r)
  after _ s o r := knowledgeAfter o s r
  abort _ s := s

omit [DecidableEq Vector] in
/-- Answers without a failure: a row gets the next number, and the commits are reported so. -/
def knowledgeAnswer (vector : Vector) (report : CommitReport) :
    (o : KnowledgeOp Digest Vector) → KnowledgeStore Digest Vector → KnowledgeResp o
  | .selectDocument sourceId, s => Except.ok (s.session.document? sourceId)
  | .selectRows documentId, s => Except.ok (s.session.joined documentId)
  | .selectChunkIds documentId, s => Except.ok (s.session.chunkIds documentId)
  | .deleteEmbeddings _, _ | .deleteChunks _, _ => Except.ok ()
  | .flush _ _, s => Except.ok (s.session.documents.length + s.session.chunks.length + 1)
  | .commit _, _ => report
  | .closeSession, _ => ()
  | .embedTexts texts, _ => Except.ok (texts.map fun _ => vector)

/-- A run with these answers. -/
def runIngest [Runtime] (vector : Vector) (report : CommitReport) (ingestor : KnowledgeIngestor)
    (hash : Text → Digest) (directory : KnowledgeDirectory) (s : KnowledgeStore Digest Vector) :
    Option (Except PyExc IngestionResult × KnowledgeStore Digest Vector) :=
  knowledgeCalls.run () (knowledgeAnswer vector report) (ingestor.ingest hash directory) s

theorem exec_of_runIngest [Runtime] {vector : Vector} {report : CommitReport}
    {ingestor : KnowledgeIngestor} {hash : Text → Digest} {directory : KnowledgeDirectory}
    {s s' : KnowledgeStore Digest Vector} {out : Except PyExc IngestionResult}
    (h : runIngest vector report ingestor hash directory s = some (out, s')) :
    Exec KnowledgeStep (ingestor.ingest hash directory) s out s' :=
  (Runnable.exec_of_run h).simulate (f := id) fun _ _ _ _ hstep =>
    ⟨of_decide_eq_true hstep.1, hstep.2⟩

theorem exists_runIngest [Runtime] {vector : Vector} {report : CommitReport}
    {ingestor : KnowledgeIngestor} {hash : Text → Digest} {directory : KnowledgeDirectory}
    {s : KnowledgeStore Digest Vector}
    {P : Except PyExc IngestionResult → KnowledgeStore Digest Vector → Bool}
    (h : (runIngest vector report ingestor hash directory s).any (fun r => P r.1 r.2) = true) :
    ∃ out s', Exec KnowledgeStep (ingestor.ingest hash directory) s out s' ∧ P out s' = true := by
  obtain ⟨⟨out, s'⟩, hrun, hP⟩ := (Option.any_eq_true _ _).mp h
  exact ⟨out, s', exec_of_runIngest hrun, hP⟩

end

end

/-- An ingestor with a deterministic provider. -/
def fakeIngestor : KnowledgeIngestor := ⟨⟨"fake", "deterministic-768", 768⟩, 900, rfl⟩

/-- A directory with one runbook. -/
def runbookDirectory (text : Text) : KnowledgeDirectory where
  manifest := .ok [⟨⟨"restart", by decide⟩, "runbooks/restart.md", ⟨"Restart", by decide⟩,
    ⟨"service", by decide⟩, ⟨"1", by decide⟩⟩]
  isRelativeTo _ := .ok true
  readText _ := .ok text

/-- Two runs that end, the second one in the state that `next` makes of what the first one leaves,
with a decidable property. -/
theorem exists_two_runs {Vector : Type} [DecidableEq Vector] (vector : Vector)
    (directory later : KnowledgeDirectory)
    (next : KnowledgeStore Text Vector → KnowledgeStore Text Vector)
    (P : IngestionResult → IngestionResult → KnowledgeStore Text Vector →
      KnowledgeStore Text Vector → Bool)
    (h : (runIngest vector .committed fakeIngestor id directory (.start .empty)).any (fun first =>
      first.1.toOption.any fun r₁ =>
        (runIngest vector .committed fakeIngestor id later (next first.2)).any fun second =>
          second.1.toOption.any fun r₂ => P r₁ r₂ first.2 second.2) = true) :
    ∃ r₁ r₂ s₁ s₂,
      Exec KnowledgeStep (fakeIngestor.ingest id directory) (.start .empty) (.ok r₁) s₁ ∧
      Exec KnowledgeStep (fakeIngestor.ingest id later) (next s₁) (.ok r₂) s₂ ∧
      P r₁ r₂ s₁ s₂ = true := by
  obtain ⟨⟨out₁, s₁⟩, hrun₁, h₁⟩ := (Option.any_eq_true _ _).mp h
  obtain ⟨r₁, hr₁, h₁⟩ := (Option.any_eq_true _ _).mp h₁
  obtain ⟨⟨out₂, s₂⟩, hrun₂, h₂⟩ := (Option.any_eq_true _ _).mp h₁
  obtain ⟨r₂, hr₂, hP⟩ := (Option.any_eq_true _ _).mp h₂
  have hok : ∀ {out : Except PyExc IngestionResult} {r : IngestionResult},
      out.toOption = some r → out = .ok r := fun {out r} heq => by
    cases out with
    | error e => cases heq
    | ok _ => exact congrArg _ (Option.some.inj heq)
  exact ⟨r₁, r₂, s₁, s₂, hok hr₁ ▸ exec_of_runIngest hrun₁, hok hr₂ ▸ exec_of_runIngest hrun₂, hP⟩

/-! ## Convergence -/

section
variable {Digest Vector : Type} [DecidableEq Digest] [Runtime] {hash : Text → Digest}

/-- **The tables that runs can leave**, each run with its own ingestor and directory, whether it
ends or raises. -/
inductive Reached (hash : Text → Digest) : KnowledgeTables Digest Vector → Prop
  | empty : Reached hash .empty
  | run {t : KnowledgeTables Digest Vector} {ingestor : KnowledgeIngestor}
      {directory : KnowledgeDirectory} {out : Except PyExc IngestionResult}
      {s : KnowledgeStore Digest Vector} (ht : Reached hash t)
      (hrun : Exec KnowledgeStep (ingestor.ingest hash directory) (.start t) out s) :
      Reached hash s.tables

theorem Reached.complete {t : KnowledgeTables Digest Vector} (h : Reached hash t) :
    t.Valid ∧ Complete hash t := by
  induction h with
  | empty => exact ⟨KnowledgeTables.valid_empty, nofun⟩
  | @run t ingestor directory out s ht hrun ih =>
      obtain ⟨hok, herror⟩ := run_ingest rfl ih.1 hrun
      cases out with
      | ok counts =>
          obtain ⟨sources, -, hhandled⟩ := hok counts rfl
          exact ⟨hhandled.valid, hhandled.complete ih.2⟩
      | error e =>
          rcases herror e rfl with ⟨-, rfl⟩ | ⟨done, source, later, s₁, -, hhandled, -, hbroken⟩
          · exact ih
          · rcases hbroken with ⟨heq, -⟩ | ⟨hreplaced, -⟩
            · exact heq ▸ ⟨hhandled.valid, hhandled.complete ih.2⟩
            · exact ⟨hreplaced.valid, hreplaced.complete (hhandled.complete ih.2)⟩

theorem UpToDate.stored {t : KnowledgeTables Digest Vector} {ingestor : KnowledgeIngestor}
    {source : KnowledgeSource Digest} (hinj : Function.Injective hash) (hvalid : t.Valid)
    (hcomplete : Complete hash t) (h : UpToDate ingestor hash t source) :
    SourceStored ingestor hash (t.only source.sourceId) source :=
  h.elim (Current.stored hinj hvalid hcomplete) id

/-- **Ingestion converges, and is atomic for each document**: a run that ends has stored every
source, and one that raises has stored the sources before the one it was handling and left the
rows of that one and of the later ones as they were.  Only where the report of a commit was lost
are the rows of that one the new ones. -/
theorem stored_of_run {t : KnowledgeTables Digest Vector} {ingestor : KnowledgeIngestor}
    {directory : KnowledgeDirectory} {out : Except PyExc IngestionResult}
    {s : KnowledgeStore Digest Vector} (hinj : Function.Injective hash) (ht : Reached hash t)
    (hrun : Exec KnowledgeStep (ingestor.ingest hash directory) (.start t) out s) :
    match out with
    | .ok _ => ∃ sources, loadKnowledgeSources hash directory = .ok sources ∧
        ∀ source ∈ sources, SourceStored ingestor hash (s.tables.only source.sourceId) source
    | .error e => (loadKnowledgeSources hash directory = .error e ∧ s.tables = t) ∨
        ∃ done source later, loadKnowledgeSources hash directory = .ok (done ++ source :: later) ∧
          (∀ other ∈ done,
            SourceStored ingestor hash (s.tables.only other.sourceId) other) ∧
          (∀ other ∈ later, s.tables.only other.sourceId = t.only other.sourceId) ∧
          (s.tables.only source.sourceId = t.only source.sourceId ∧ s.unacknowledged = 0 ∨
            SourceStored ingestor hash (s.tables.only source.sourceId) source ∧
              s.unacknowledged = 1) := by
  obtain ⟨hvalid, hcomplete⟩ := ht.complete
  obtain ⟨hok, herror⟩ := run_ingest rfl hvalid hrun
  cases out with
  | ok counts =>
      obtain ⟨sources, hload, hhandled⟩ := hok counts rfl
      exact ⟨sources, hload, fun source hsource => (hhandled.settled source hsource).stored hinj
        hhandled.valid (hhandled.complete hcomplete)⟩
  | error e =>
      rcases herror e rfl with
        ⟨hload, rfl⟩ | ⟨done, source, later, s₁, hload, hhandled, -, hbroken⟩
      · exact .inl ⟨hload, rfl⟩
      · obtain ⟨-, -, -, hnodup⟩ := loadKnowledgeSources_ok hload
        rw [List.map_append, List.map_cons] at hnodup
        -- the sources have different rows
        have hdone : ∀ other ∈ source :: later, ∀ x ∈ done, other.sourceId ≠ x.sourceId :=
          fun other hother x hx heq => List.disjoint_of_nodup_append hnodup
            (List.mem_map_of_mem hx) (heq ▸ List.mem_map_of_mem (f := (·.sourceId)) hother)
        have hsource : ∀ other ∈ later, other.sourceId ≠ source.sourceId := fun other hother heq =>
          (List.nodup_cons.mp hnodup.of_append_right).1 (heq ▸ List.mem_map_of_mem hother)
        have hothers : ∀ sourceId, sourceId ≠ source.sourceId →
            s.tables.only sourceId = s₁.tables.only sourceId := fun sourceId hne =>
          hbroken.elim (fun h => by rw [h.1]) fun h => h.1.others sourceId hne
        have hkept : ∀ other ∈ source :: later, s₁.tables.only other.sourceId =
            t.only other.sourceId := fun other hother => hhandled.others _ (hdone other hother)
        refine .inr ⟨done, source, later, hload, fun other hother => ?_, fun other hother => ?_, ?_⟩
        · rw [hothers _ fun heq => hdone source List.mem_cons_self other hother heq.symm]
          exact (hhandled.settled other hother).stored hinj hhandled.valid
            (hhandled.complete hcomplete)
        · rw [hothers _ (hsource other hother)]
          exact hkept other (List.mem_cons_of_mem _ hother)
        · rcases hbroken with ⟨heq, hlost⟩ | ⟨hreplaced, hlost⟩
          · rw [heq, hlost, hhandled.unacknowledged]
            exact .inl ⟨hkept source List.mem_cons_self, rfl⟩
          · rw [hlost, hhandled.unacknowledged]
            exact .inr ⟨hreplaced.stored, rfl⟩

end

/-- A run after one with another text replaces its rows, and stores the new text. -/
theorem stored_of_run_fake : ∃ r₁ s₁ s,
    Exec KnowledgeStep (fakeIngestor.ingest id (runbookDirectory "Restart."))
      (.start (KnowledgeTables.empty : KnowledgeTables Text Unit)) (.ok r₁) s₁ ∧
    Exec KnowledgeStep (fakeIngestor.ingest id (runbookDirectory "Restart the service."))
      (.start s₁.tables) (.ok ⟨1, 0, 1⟩) s ∧
    s₁.tables.chunks.map (·.content) = ["Restart."] ∧
    s.tables.chunks.map (·.content) = ["Restart the service."] ∧
    ∃ sources, loadKnowledgeSources id (runbookDirectory "Restart the service.") = .ok sources ∧
      ∀ source ∈ sources,
        SourceStored fakeIngestor id (s.tables.only source.sourceId) source := by
  obtain ⟨r₁, r₂, s₁, s, hfirst, hrun, hP⟩ := exists_two_runs () (runbookDirectory "Restart.")
    (runbookDirectory "Restart the service.") (fun s₁ => .start s₁.tables)
    (fun _ r₂ s₁ s => r₂ = ⟨1, 0, 1⟩ ∧ s₁.tables.chunks.map (·.content) = ["Restart."] ∧
      s.tables.chunks.map (·.content) = ["Restart the service."]) (by decide +kernel)
  obtain ⟨rfl, hold, hnew⟩ := of_decide_eq_true hP
  exact ⟨r₁, s₁, s, hfirst, hrun, hold, hnew,
    stored_of_run Function.injective_id (.run .empty hfirst) hrun⟩

/-- **A run can raise after it has stored the document it was handling**: its commit was carried
out, and the report of it was lost. -/
theorem commit_unreported : ¬ ∀ (e : PyExc) (s : KnowledgeStore Text Unit),
    Exec KnowledgeStep (fakeIngestor.ingest id (runbookDirectory "Restart the service."))
      (.start .empty) (.error e) s →
    loadKnowledgeSources id (runbookDirectory "Restart the service.") = .error e ∨
      ∃ done source later,
        loadKnowledgeSources id (runbookDirectory "Restart the service.") =
          .ok (done ++ source :: later) ∧
        ∀ other ∈ source :: later, s.tables.only other.sourceId =
          (KnowledgeTables.empty : KnowledgeTables Text Unit).only other.sourceId := by
  intro hclaim
  obtain ⟨out, s, hrun, hout⟩ := @exists_runIngest _ _ _ _ _ ()
    (.failed ⟨.operationalError, "server closed the connection unexpectedly"⟩ true) fakeIngestor id
    (runbookDirectory "Restart the service.") (.start .empty)
    (fun out s => out.toOption = none ∧ (s.tables.only "restart").documents.length = 1)
    (by decide +kernel)
  obtain ⟨hraised, hstored⟩ := of_decide_eq_true hout
  obtain ⟨source, hload, hid⟩ : ∃ source : KnowledgeSource Text,
      loadKnowledgeSources id (runbookDirectory "Restart the service.") = .ok [source] ∧
        source.sourceId = "restart" := ⟨_, rfl, rfl⟩
  cases out with
  | ok counts => cases hraised
  | error e =>
      rcases hclaim e s hrun with hfail | ⟨done, source', later, hsources, hkept⟩
      · rw [hload] at hfail
        cases hfail
      · rw [hload] at hsources
        have hmem : source ∈ done ++ source' :: later :=
          Except.ok.inj hsources ▸ List.mem_singleton_self source
        have hlength := congrArg List.length (Except.ok.inj hsources)
        rw [List.length_append, List.length_singleton, List.length_cons] at hlength
        obtain rfl : done = [] := List.eq_nil_of_length_eq_zero (by omega)
        have hrows := hkept source hmem
        rw [hid] at hrows
        rw [hrows] at hstored
        cases hstored

/-! ## A second run -/

section
variable {Digest Vector : Type} [DecidableEq Digest] [Runtime] {ingestor : KnowledgeIngestor} {hash : Text → Digest}
  {s : KnowledgeStore Digest Vector}

theorem UpToDate.current {t : KnowledgeTables Digest Vector} {source : KnowledgeSource Digest}
    (hvalid : t.Valid) (hne : ingestor.chunks hash source ≠ [])
    (h : UpToDate ingestor hash t source) : Current ingestor hash t source :=
  h.elim id (SourceStored.current hvalid hne)

/-- Where every source is current, a run only reads. -/
theorem ends_unchanged {counts : IngestionResult} {sources : List (KnowledgeSource Digest)}
    (hidle : s.session = s.tables) (hvalid : s.tables.Valid)
    (hcurrent : ∀ source ∈ sources, Current ingestor hash s.tables source) :
    IngestEnds (ingestor.ingestSources hash counts sources) s
      (fun counts' s' => counts' = { counts with
        documentsUnchanged := counts.documentsUnchanged + sources.length } ∧ s' = s)
      fun _ s' => s' = s := by
  induction sources generalizing counts with
  | nil => exact safe_ret.mpr ⟨rfl, rfl⟩
  | cons source later ih =>
      obtain ⟨hsource, hlater⟩ := List.forall_mem_cons.mp hcurrent
      refine safe_bind.mpr (ends_ingestSource hidle hvalid (fun _ => ?_) (fun _ => rfl)
        (fun s' hold => absurd hsource hold) fun e s' hold => absurd hsource hold)
      refine (ih hlater).mono (fun counts' s' h => ⟨h.1.trans ?_, h.2⟩) fun e s' h => h
      rw [List.length_cons, Nat.add_assoc, Nat.add_comm 1]

/-- A source without chunks is updated in every run. -/
theorem ends_updated {counts : IngestionResult} {sources : List (KnowledgeSource Digest)}
    (hidle : s.session = s.tables) (hvalid : s.tables.Valid) :
    IngestEnds (ingestor.ingestSources hash counts sources) s
      (fun counts' _ => counts.documentsUpdated ≤ counts'.documentsUpdated ∧
        ((∃ source ∈ sources, ingestor.chunks hash source = []) →
          counts.documentsUpdated < counts'.documentsUpdated))
      fun _ _ => True := by
  induction sources generalizing counts s with
  | nil => exact safe_ret.mpr ⟨le_refl _, nofun⟩
  | cons source later ih =>
      refine safe_bind.mpr (ends_ingestSource hidle hvalid (fun hcurrent => ?_)
        (fun _ => trivial) (fun s' _ hidle' hreplaced _ => ?_) fun _ _ _ _ _ => trivial)
      · -- a current source has chunks, so one without comes later
        obtain ⟨-, -, -, hne, -⟩ := hcurrent
        refine (ih hidle hvalid).mono (fun counts' s' h => ⟨h.1, ?_⟩) fun _ _ h => h
        rintro ⟨other, hother, hempty⟩
        rcases List.mem_cons.mp hother with rfl | hother
        · exact absurd hempty hne
        · exact h.2 ⟨other, hother, hempty⟩
      · refine (ih hidle' hreplaced.valid).mono (fun counts' s' h => ?_) fun _ _ h => h
        have hle : counts.documentsUpdated + 1 ≤ counts'.documentsUpdated := h.1
        exact ⟨by omega, fun _ => by omega⟩

omit [DecidableEq Digest] in
/-- The sources without chunks are those without a word. -/
theorem chunks_ne_nil_iff {directory : KnowledgeDirectory}
    {entries : List KnowledgeManifestEntry} {sources : List (KnowledgeSource Digest)}
    (h : List.Forall₂ (LoadedFrom directory) entries sources) :
    (∀ source ∈ sources, ingestor.chunks hash source ≠ []) ↔
      ∀ entry ∈ entries, ∀ raw, directory.readText entry.path = .ok raw → ¬ Text.Blank raw := by
  induction h with
  | nil => simp
  | @cons entry source entries sources hloaded _ ih =>
      obtain ⟨-, raw, hraw, hcontent⟩ := hloaded
      have hsource : ingestor.chunks hash source ≠ [] ↔
          ∀ raw, directory.readText entry.path = .ok raw → ¬ Text.Blank raw := by
        rw [KnowledgeIngestor.chunks, ne_eq, chunkDocument_eq_nil, hcontent, blank_normalized]
        refine ⟨fun h raw' hraw' => ?_, fun h => h raw hraw⟩
        obtain rfl := Except.ok.inj (hraw.symm.trans hraw')
        exact h
      rw [List.forall_mem_cons, List.forall_mem_cons, hsource, ih]

/-- **A second run does nothing exactly if every text has a word**: then it only reads, whether
it ends or not, and reports every entry as unchanged; a text that is blank is updated again. -/
theorem idempotent_iff {t : KnowledgeTables Digest Vector} {directory : KnowledgeDirectory}
    {entries : List KnowledgeManifestEntry} {r₁ r₂ : IngestionResult}
    {s₁ s₂ : KnowledgeStore Digest Vector} (hvalid : t.Valid)
    (hmanifest : directory.manifest = .ok entries)
    (hfirst : Exec KnowledgeStep (ingestor.ingest hash directory) (.start t) (.ok r₁) s₁)
    (hsecond : Exec KnowledgeStep (ingestor.ingest hash directory) s₁ (.ok r₂) s₂) :
    ((r₂ = ⟨0, entries.length, 0⟩ ∧ s₂.embeddingCalls = s₁.embeddingCalls ∧
        s₂.writes = s₁.writes ∧ s₂.tables = s₁.tables) ↔
      ∀ entry ∈ entries, ∀ raw, directory.readText entry.path = .ok raw → ¬ Text.Blank raw) ∧
    ((∀ entry ∈ entries, ∀ raw, directory.readText entry.path = .ok raw → ¬ Text.Blank raw) →
      ∀ e s, Exec KnowledgeStep (ingestor.ingest hash directory) s₁ (.error e) s → s = s₁) := by
  obtain ⟨sources, hload, hhandled⟩ := (run_ingest rfl hvalid hfirst).1 r₁ rfl
  obtain ⟨entries', hmanifest', hall, -⟩ := loadKnowledgeSources_ok hload
  obtain rfl := Except.ok.inj (hmanifest.symm.trans hmanifest')
  have hprogram : ingestor.ingest hash directory =
      (ingestor.ingestSources hash ⟨0, 0, 0⟩ sources : Ingest Digest Vector IngestionResult) := by
    rw [KnowledgeIngestor.ingest, hload]
    rfl
  rw [hprogram] at hsecond ⊢
  have hquiet : (∀ source ∈ sources, ingestor.chunks hash source ≠ []) →
      IngestEnds (ingestor.ingestSources hash ⟨0, 0, 0⟩ sources) s₁
        (fun counts s' => counts = ⟨0, sources.length, 0⟩ ∧ s' = s₁) fun _ s' => s' = s₁ := by
    intro hne
    refine (ends_unchanged hhandled.idle hhandled.valid fun source hsource =>
      (hhandled.settled source hsource).current hhandled.valid (hne source hsource)).mono
        (fun counts s' h => ⟨h.1.trans ?_, h.2⟩) fun _ _ h => h
    rw [Nat.zero_add]
  rw [← @chunks_ne_nil_iff _ _ ingestor hash _ _ _ hall]
  refine ⟨⟨fun h source hsource hempty => ?_, fun hne => ?_⟩, fun hne e s hrun => ?_⟩
  · have hupdated := ((Exec.of_safe hsecond trivial
      (ends_updated hhandled.idle hhandled.valid)).1 r₂ rfl).2 ⟨source, hsource, hempty⟩
    rw [h.1] at hupdated
    exact absurd hupdated (Nat.lt_irrefl 0)
  · obtain ⟨hcounts, hs⟩ := (Exec.of_safe hsecond trivial (hquiet hne)).1 r₂ rfl
    rw [hs, hcounts, hall.length_eq]
    exact ⟨rfl, rfl, rfl, rfl⟩
  · exact (Exec.of_safe hrun trivial (hquiet hne)).2 e rfl

end

/-- The runbook is left as it is in a second run. -/
theorem idempotent_iff_fake : ∃ r₁ r₂ s₁ s₂,
    Exec KnowledgeStep (fakeIngestor.ingest id (runbookDirectory "Restart the service."))
      (.start (KnowledgeTables.empty : KnowledgeTables Text Unit)) (.ok r₁) s₁ ∧
    Exec KnowledgeStep (fakeIngestor.ingest id (runbookDirectory "Restart the service.")) s₁
      (.ok r₂) s₂ ∧ r₂ = ⟨0, 1, 0⟩ ∧ s₂.embeddingCalls = s₁.embeddingCalls ∧
        s₂.writes = s₁.writes ∧ s₂.tables = s₁.tables := by
  obtain ⟨r₁, r₂, s₁, s₂, hfirst, hsecond, -⟩ := exists_two_runs ()
    (runbookDirectory "Restart the service.") (runbookDirectory "Restart the service.") id
    (fun _ _ _ _ => true) (by decide +kernel)
  obtain ⟨hiff, -⟩ := idempotent_iff KnowledgeTables.valid_empty
    (rfl : (runbookDirectory "Restart the service.").manifest = .ok _) hfirst hsecond
  refine ⟨r₁, r₂, s₁, s₂, hfirst, hsecond, hiff.mpr fun entry _ raw hraw hblank => ?_⟩
  obtain rfl : ("Restart the service." : Text) = raw := Except.ok.inj hraw
  exact absurd (hblank 'R' (by decide)) (by decide)

/-- **A document without text is embedded and updated in every run.** -/
theorem blank_updated_again : ¬ ∀ (r₁ r₂ : IngestionResult) (s₁ s₂ : KnowledgeStore Text Unit),
    Exec KnowledgeStep (fakeIngestor.ingest id (runbookDirectory " ")) (.start .empty) (.ok r₁) s₁ →
    Exec KnowledgeStep (fakeIngestor.ingest id (runbookDirectory " ")) s₁ (.ok r₂) s₂ →
    r₂ = ⟨0, 1, 0⟩ ∧ s₂.embeddingCalls = s₁.embeddingCalls ∧ s₂.writes = s₁.writes := by
  intro hclaim
  obtain ⟨r₁, r₂, s₁, s₂, hfirst, hsecond, hcounts⟩ := exists_two_runs () (runbookDirectory " ")
    (runbookDirectory " ") id (fun _ r₂ s₁ s₂ => r₂ = ⟨1, 0, 0⟩ ∧ s₂.embeddingCalls = s₁.embeddingCalls + 1)
    (by decide +kernel)
  obtain ⟨hresult, -⟩ := hclaim r₁ r₂ s₁ s₂ hfirst hsecond
  rw [(of_decide_eq_true hcounts).1] at hresult
  cases hresult

end SupportPlatform
