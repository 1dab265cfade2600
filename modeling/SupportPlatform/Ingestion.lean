import SupportPlatform.AgentModels
import SupportPlatform.Calls
import SupportPlatform.KnowledgeTables

/-! # Ingestion

`app/knowledge/loader.py` and `app/knowledge/ingestion.py`: the sources that a manifest lists are
cut into chunks, embedded and stored, each document in a transaction of its own, unless
`_is_current` finds that what is stored is up to date.

`SourceStored` says what the tables should hold for a source, `Current` is what the code tests.
The test is exact where every stored chunk has its own digest and one embedding
(`Current.stored`, `SourceStored.current`), which every run keeps.
-/
namespace SupportPlatform
open Program

/-! ## The loader -/

/-- `[a-z0-9]`. -/
def slugChar (c : Char) : Bool := ('a' ≤ c && c ≤ 'z') || ('0' ≤ c && c ≤ '9')

/-- `^[a-z0-9][a-z0-9-]+$`. -/
def isSourceId : Text → Bool
  | first :: second :: rest =>
      slugChar first && (second :: rest).all fun c => slugChar c || c == '-'
  | _ => false

/-- `KnowledgeManifestEntry`. -/
structure KnowledgeManifestEntry where
  sourceId : {s : Text // isSourceId s = true}
  path : Text
  title : BoundedText 1 255
  category : BoundedText 1 100
  version : BoundedText 1 50

/-- `KnowledgeSource`. -/
structure KnowledgeSource (Digest : Type) where
  sourceId : Text
  title : Text
  category : Text
  version : Text
  path : Text
  content : Text
  contentHash : Digest

/-- What is found under `base_path`: the manifest as it validates, whether a path stays inside, and
the text of a path. -/
structure KnowledgeDirectory where
  manifest : Except PyExc (List KnowledgeManifestEntry)
  isRelativeTo : Text → Except PyExc Bool
  readText : Text → Except PyExc Text

/-- What of a text is stored. -/
def normalized (raw : Text) : Text := (raw.replace "\r\n" "\n").strip ++ "\n"

section
variable {Digest : Type} (hash : Text → Digest)

/-- One entry of the manifest, after those with the given `source_id`s. -/
def loadEntry (directory : KnowledgeDirectory) (seen : List Text) (entry : KnowledgeManifestEntry) :
    Except PyExc (KnowledgeSource Digest) := do
  if entry.sourceId.1 ∈ seen then
    throw ⟨.valueError, "Duplicate knowledge source_id: " ++ entry.sourceId.1⟩
  if !(← directory.isRelativeTo entry.path) then
    throw ⟨.valueError, "Knowledge path escapes base directory: " ++ entry.path⟩
  let content := normalized (← directory.readText entry.path)
  return ⟨entry.sourceId.1, entry.title.1, entry.category.1, entry.version.1, entry.path, content,
    hash content⟩

/-- The entries from here on. -/
def loadEntries (directory : KnowledgeDirectory) :
    List Text → List KnowledgeManifestEntry → Except PyExc (List (KnowledgeSource Digest))
  | _, [] => return []
  | seen, entry :: rest => do
      let source ← loadEntry hash directory seen entry
      return source :: (← loadEntries directory (entry.sourceId.1 :: seen) rest)

/-- `load_knowledge_sources(base_path)`. -/
def loadKnowledgeSources (directory : KnowledgeDirectory) :
    Except PyExc (List (KnowledgeSource Digest)) := do
  loadEntries hash directory [] (← directory.manifest)

variable {hash} {directory : KnowledgeDirectory}

/-- What is loaded of an entry. -/
def LoadedFrom (directory : KnowledgeDirectory) (entry : KnowledgeManifestEntry)
    (source : KnowledgeSource Digest) : Prop :=
  source.sourceId = entry.sourceId.1 ∧
    ∃ raw, directory.readText entry.path = .ok raw ∧ source.content = normalized raw

theorem loadEntry_ok {seen : List Text} {entry : KnowledgeManifestEntry}
    {source : KnowledgeSource Digest} (h : loadEntry hash directory seen entry = .ok source) :
    LoadedFrom directory entry source ∧ source.sourceId ∉ seen := by
  rw [loadEntry] at h
  by_cases hseen : entry.sourceId.1 ∈ seen
  · rw [if_pos hseen] at h
    cases h
  · rw [if_neg hseen] at h
    cases hwithin : directory.isRelativeTo entry.path with
    | error e => rw [hwithin] at h; cases h
    | ok within =>
        rw [hwithin] at h
        cases within with
        | false => cases h
        | true =>
            cases hraw : directory.readText entry.path with
            | error e => rw [hraw] at h; cases h
            | ok raw =>
                rw [hraw] at h
                cases h
                exact ⟨⟨rfl, raw, hraw, rfl⟩, hseen⟩

/-- The sources are those of the entries in their order, and differ in their `source_id`s. -/
theorem loadEntries_ok {seen : List Text} {entries : List KnowledgeManifestEntry}
    {sources : List (KnowledgeSource Digest)}
    (h : loadEntries hash directory seen entries = .ok sources) :
    List.Forall₂ (LoadedFrom directory) entries sources ∧ (sources.map (·.sourceId)).Nodup ∧
      ∀ source ∈ sources, source.sourceId ∉ seen := by
  induction entries generalizing seen sources with
  | nil =>
      cases h
      exact ⟨.nil, List.nodup_nil, nofun⟩
  | cons entry entries ih =>
      rw [loadEntries] at h
      cases hsource : loadEntry hash directory seen entry with
      | error e => rw [hsource] at h; cases h
      | ok source =>
          rw [hsource] at h
          cases hlater : loadEntries hash directory (entry.sourceId.1 :: seen) entries with
          | error e => simp only [hlater] at h; cases h
          | ok later =>
              simp only [hlater] at h
              cases h
              obtain ⟨hloaded, hnew⟩ := loadEntry_ok hsource
              obtain ⟨hall, hnodup, hunseen⟩ := ih hlater
              refine ⟨.cons hloaded hall, List.nodup_cons.mpr ⟨fun hmem => ?_, hnodup⟩, ?_⟩
              · obtain ⟨other, hother, heq⟩ := List.mem_map.mp hmem
                exact hunseen other hother (heq ▸ hloaded.1 ▸ List.mem_cons_self)
              · exact List.forall_mem_cons.mpr ⟨hnew, fun other hother hold =>
                  hunseen other hother (List.mem_cons_of_mem _ hold)⟩

theorem loadKnowledgeSources_ok {sources : List (KnowledgeSource Digest)}
    (h : loadKnowledgeSources hash directory = .ok sources) :
    ∃ entries, directory.manifest = .ok entries ∧
      List.Forall₂ (LoadedFrom directory) entries sources ∧ (sources.map (·.sourceId)).Nodup := by
  rw [loadKnowledgeSources] at h
  cases hmanifest : directory.manifest with
  | error e => rw [hmanifest] at h; cases h
  | ok entries =>
      rw [hmanifest] at h
      obtain ⟨hall, hnodup, -⟩ := loadEntries_ok h
      exact ⟨entries, rfl, hall, hnodup⟩

end

open Text in
/-- A text keeps its words. -/
theorem blank_normalized {raw : Text} : Blank (normalized raw) ↔ Blank raw := by
  rw [← words_eq_nil, normalized, words_append_blank (blank_of_all (by decide)), words_strip,
    words_eq_nil]
  exact blank_replace (by decide) (blank_of_all (by decide)) (blank_of_all (by decide)) raw

/-! ## The ingestor -/

/-- `EmbeddingProvider`. -/
structure EmbeddingProvider where
  providerName : Text
  modelName : Text
  dimensions : Nat

/-- `KnowledgeIngestor`, which is only built for the dimensions of the schema. -/
structure KnowledgeIngestor where
  embeddingProvider : EmbeddingProvider
  chunkSize : Nat
  dimensions_eq : embeddingProvider.dimensions = 768

/-- `KnowledgeIngestor.__init__`. -/
def KnowledgeIngestor.init (embeddingProvider : EmbeddingProvider) (chunkSize : Nat) :
    Except PyExc KnowledgeIngestor :=
  if h : embeddingProvider.dimensions = 768 then .ok ⟨embeddingProvider, chunkSize, h⟩
  else .error ⟨.valueError, "Phase 4 schema requires 768-dimensional embeddings; provider declared "
    ++ Text.ofInt embeddingProvider.dimensions⟩

/-- `IngestionResult`. -/
structure IngestionResult where
  documentsUpdated : Nat
  documentsUnchanged : Nat
  chunksEmbedded : Nat
  deriving DecidableEq

section
variable {Digest Vector : Type} [DecidableEq Digest]

/-- `metadata_current` of a document that was found. -/
def metadataCurrent (document : KnowledgeDocumentRecord Digest) (source : KnowledgeSource Digest) :
    Bool :=
  document.title = source.title ∧ document.category = source.category ∧
    document.version = source.version ∧
    document.sourceMetadata = .obj [("path", .str source.path)]

namespace KnowledgeIngestor
variable (ingestor : KnowledgeIngestor)

/-- The row of a chunk and its embedding against the chunk that is expected. -/
def rowCurrent (row : KnowledgeChunkRecord Digest × KnowledgeEmbeddingRecord Digest Vector)
    (expected : KnowledgeChunk Digest) : Bool :=
  row.1.chunkIndex = expected.chunkIndex ∧ row.1.contentHash = expected.contentHash ∧
    row.2.contentHash = expected.contentHash ∧
    row.2.provider = ingestor.embeddingProvider.providerName ∧
    row.2.model = ingestor.embeddingProvider.modelName ∧
    row.2.dimensions = ingestor.embeddingProvider.dimensions

/-- The rows against the chunks, as `_is_current` ends. -/
def rowsCurrent
    (rows : List (KnowledgeChunkRecord Digest × KnowledgeEmbeddingRecord Digest Vector))
    (chunks : List (KnowledgeChunk Digest)) : Bool :=
  if rows.length ≠ chunks.length then false
  else (rows.zip chunks).all fun (row, expected) => ingestor.rowCurrent row expected

theorem rowsCurrent_iff
    {rows : List (KnowledgeChunkRecord Digest × KnowledgeEmbeddingRecord Digest Vector)}
    {chunks : List (KnowledgeChunk Digest)} : ingestor.rowsCurrent rows chunks = true ↔
      List.Forall₂ (fun row expected => ingestor.rowCurrent row expected = true) rows chunks := by
  rw [rowsCurrent, List.forall₂_iff_zip]
  by_cases hlength : rows.length = chunks.length
  · rw [if_neg (not_not.mpr hlength), List.all_eq_true]
    exact ⟨fun h => ⟨hlength, fun hmem => h _ hmem⟩, fun h pair hmem => h.2 hmem⟩
  · rw [if_pos hlength]
    exact ⟨nofun, fun h => absurd h.1 hlength⟩

end KnowledgeIngestor

/-- The chunk that a row stores. -/
def KnowledgeChunkRecord.chunk (row : KnowledgeChunkRecord Digest) : KnowledgeChunk Digest :=
  ⟨row.chunkIndex, row.content, row.contentHash⟩

/-! ## What is stored of a source -/

variable [Runtime] (ingestor : KnowledgeIngestor) (hash : Text → Digest)

/-- The chunks of a source. -/
def KnowledgeIngestor.chunks (source : KnowledgeSource Digest) : List (KnowledgeChunk Digest) :=
  chunkDocument hash source.content ingestor.chunkSize

/-- The embedding is of a chunk with this digest, by the ingestor's provider. -/
def KnowledgeIngestor.Embeds (digest : Digest)
    (row : KnowledgeEmbeddingRecord Digest Vector) : Prop :=
  row.contentHash = digest ∧ row.provider = ingestor.embeddingProvider.providerName ∧
    row.model = ingestor.embeddingProvider.modelName ∧
    row.dimensions = ingestor.embeddingProvider.dimensions

/-- **What the tables should hold** of a source: one document with its metadata and digest, in
the order of their indices the chunks of its text, and of each chunk one embedding. -/
def SourceStored (rows : KnowledgeTables Digest Vector) (source : KnowledgeSource Digest) : Prop :=
  ∃ document, rows.documents = [document] ∧ metadataCurrent document source = true ∧
    document.contentHash = source.contentHash ∧
    (rows.chunks.insertionSort fun a b => a.chunkIndex ≤ b.chunkIndex).map (·.chunk) =
      ingestor.chunks hash source ∧
    ∀ chunk ∈ rows.chunks, ∃ row, rows.embeddings.filter (·.chunkId = chunk.id) = [row] ∧
      ingestor.Embeds chunk.contentHash row

/-- **What the code tests** before it leaves a source as it is. -/
def Current (t : KnowledgeTables Digest Vector) (source : KnowledgeSource Digest) : Prop :=
  ∃ document, t.document? source.sourceId = some document ∧
    metadataCurrent document source = true ∧ ingestor.chunks hash source ≠ [] ∧
    document.contentHash = source.contentHash ∧
    ingestor.rowsCurrent (t.joined document.id) (ingestor.chunks hash source) = true

/-- Each chunk is stored under the digest of its text, with an embedding. -/
def Complete (t : KnowledgeTables Digest Vector) : Prop :=
  ∀ chunk ∈ t.chunks, chunk.contentHash = hash chunk.content ∧
    ∃ row ∈ t.embeddings, row.chunkId = chunk.id

namespace KnowledgeTables
variable {ingestor : KnowledgeIngestor} {hash : Text → Digest} {t : KnowledgeTables Digest Vector}
  {source : KnowledgeSource Digest}

section
omit [DecidableEq Digest] [Runtime]

theorem mem_joined {documentId : Nat}
    {row : KnowledgeChunkRecord Digest × KnowledgeEmbeddingRecord Digest Vector} :
    row ∈ t.joined documentId ↔ row.1 ∈ t.chunksOf documentId ∧ row.2 ∈ t.embeddings ∧
      row.2.chunkId = row.1.id := by
  rw [joined, List.mem_insertionSort, List.mem_flatMap]
  constructor
  · rintro ⟨chunk, hchunk, hrow⟩
    obtain ⟨embedding, hembedding, rfl⟩ := List.mem_map.mp hrow
    obtain ⟨hmem, hid⟩ := List.mem_filter.mp hembedding
    exact ⟨hchunk, hmem, of_decide_eq_true hid⟩
  · rintro ⟨hchunk, hmem, hid⟩
    exact ⟨row.1, hchunk, List.mem_map.mpr
      ⟨row.2, List.mem_filter.mpr ⟨hmem, decide_eq_true hid⟩, rfl⟩⟩

/-- Where each chunk has one embedding, the join has a row for each chunk. -/
theorem joined_chunks {documentId : Nat}
    (hone : ∀ chunk ∈ t.chunksOf documentId, ∃ row, t.embeddings.filter (·.chunkId = chunk.id) = [row]) :
    (t.joined documentId).map (·.1) =
      (t.chunksOf documentId).insertionSort fun a b => a.chunkIndex ≤ b.chunkIndex := by
  rw [joined, List.map_insertionSort _ (fun a b : KnowledgeChunkRecord Digest =>
    a.chunkIndex ≤ b.chunkIndex) _ _ fun _ _ _ _ => Iff.rfl]
  congr 1
  rw [List.map_flatMap]
  have hgen : ∀ chunks : List (KnowledgeChunkRecord Digest),
      (∀ chunk ∈ chunks, ∃ row, t.embeddings.filter (·.chunkId = chunk.id) = [row]) →
      (chunks.flatMap fun chunk => ((t.embeddings.filter (·.chunkId = chunk.id)).map
        fun row => (chunk, row)).map (·.1)) = chunks := by
    intro chunks hchunks
    induction chunks with
    | nil => rfl
    | cons chunk chunks ih =>
        obtain ⟨⟨row, hrow⟩, hchunks⟩ := List.forall_mem_cons.mp hchunks
        rw [List.flatMap_cons, ih hchunks, hrow]
        rfl
  exact hgen _ hone

theorem Valid.embedding_eq (hvalid : t.Valid) {row : KnowledgeEmbeddingRecord Digest Vector}
    (hrow : row ∈ t.embeddings) {id : Nat} (hid : row.chunkId = id) :
    t.embeddings.filter (·.chunkId = id) = [row] :=
  hid ▸ filter_key_eq hvalid.embeddings_chunkId hrow

/-- The embeddings of a chunk are among the rows of its source. -/
theorem only_embeddings {sourceId : Text} {chunk : KnowledgeChunkRecord Digest}
    (hchunk : chunk ∈ (t.only sourceId).chunks) :
    (t.only sourceId).embeddings.filter (·.chunkId = chunk.id) =
      t.embeddings.filter (·.chunkId = chunk.id) := by
  rw [only, List.filter_filter]
  refine List.filter_congr fun row _ => ?_
  by_cases hid : row.chunkId = chunk.id
  · have hmem : chunk.id ∈ (t.only sourceId).chunks.map (·.id) := List.mem_map_of_mem hchunk
    simp only [hid, decide_true, Bool.true_and]
    exact decide_eq_true hmem
  · simp only [hid, decide_false, Bool.false_and]

end

end KnowledgeTables

section
variable {ingestor : KnowledgeIngestor} {hash : Text → Digest} {t : KnowledgeTables Digest Vector}
  {source : KnowledgeSource Digest}

/-- **The test is sound**, where digests tell texts apart. -/
theorem Current.stored (hinj : Function.Injective hash) (hvalid : t.Valid)
    (hcomplete : Complete hash t) (h : Current ingestor hash t source) :
    SourceStored ingestor hash (t.only source.sourceId) source := by
  obtain ⟨document, hfound, hmetadata, -, hdigest, hrows⟩ := h
  obtain ⟨-, -, hdocuments, hchunks⟩ := KnowledgeTables.document?_eq_some hvalid hfound
  have hone : ∀ chunk ∈ t.chunksOf document.id,
      ∃ row, t.embeddings.filter (·.chunkId = chunk.id) = [row] := by
    intro chunk hchunk
    obtain ⟨-, row, hrow, hid⟩ := hcomplete chunk (List.mem_of_mem_filter hchunk)
    exact ⟨row, hvalid.embedding_eq hrow hid⟩
  have hown : ∀ row ∈ t.joined document.id, row.1.contentHash = hash row.1.content :=
    fun row hrow => (hcomplete row.1
      (List.mem_of_mem_filter (KnowledgeTables.mem_joined.mp hrow).1)).1
  -- equal digests are those of equal texts
  have hpairs : List.Forall₂ (fun row expected =>
      ingestor.Embeds row.1.contentHash row.2 ∧ row.1.chunk = expected)
      (t.joined document.id) (ingestor.chunks hash source) := by
    have hzip := List.forall₂_iff_zip.mp
      ((List.forall₂_and_left _ _).mpr ⟨hown, ingestor.rowsCurrent_iff.mp hrows⟩)
    refine List.forall₂_iff_zip.mpr ⟨hzip.1, fun {row expected} hmem => ?_⟩
    obtain ⟨hrow, hcurrent⟩ := hzip.2 hmem
    obtain ⟨hindex, hhash, hembedded, hprovider, hmodel, hdimensions⟩ :=
      of_decide_eq_true hcurrent
    have hexpected := chunkDocument_hashes _ _ _ (List.of_mem_zip hmem).2
    have hcontent : row.1.content = expected.content :=
      hinj (by rw [← hrow, hhash, hexpected])
    refine ⟨⟨hembedded.trans hhash.symm, hprovider, hmodel, hdimensions⟩, ?_⟩
    rw [KnowledgeChunkRecord.chunk, hindex, hcontent, hhash]
  obtain ⟨hembeds, hequal⟩ := (List.forall₂_and_left _ _).mp hpairs
  refine ⟨document, hdocuments, hmetadata, hdigest, ?_, fun chunk hchunk => ?_⟩
  · rw [hchunks, ← KnowledgeTables.joined_chunks hone, List.map_map]
    exact List.forall₂_eq_eq_eq ▸ List.forall₂_map_left_iff.mpr hequal
  · rw [KnowledgeTables.only_embeddings hchunk]
    rw [hchunks] at hchunk
    obtain ⟨row, hrow⟩ := hone chunk hchunk
    obtain ⟨hmem, hid⟩ := List.mem_filter.mp (hrow ▸ List.mem_singleton_self row)
    exact ⟨row, hrow, hembeds (chunk, row)
      (KnowledgeTables.mem_joined.mpr ⟨hchunk, hmem, of_decide_eq_true hid⟩)⟩

/-- **The test is complete** of a source that has chunks. -/
theorem SourceStored.current (hvalid : t.Valid) (hne : ingestor.chunks hash source ≠ [])
    (h : SourceStored ingestor hash (t.only source.sourceId) source) :
    Current ingestor hash t source := by
  obtain ⟨document, hdocuments, hmetadata, hdigest, hchunks, hembeds⟩ := h
  have hfound := KnowledgeTables.document?_of_only hvalid hdocuments
  have hown := (KnowledgeTables.document?_eq_some hvalid hfound).2.2.2
  have hone : ∀ chunk ∈ t.chunksOf document.id, ∃ row,
      t.embeddings.filter (·.chunkId = chunk.id) = [row] ∧
        ingestor.Embeds chunk.contentHash row := by
    intro chunk hchunk
    rw [← hown] at hchunk
    obtain ⟨row, hrow, hembeds⟩ := hembeds chunk hchunk
    exact ⟨row, (KnowledgeTables.only_embeddings hchunk).symm.trans hrow, hembeds⟩
  have hjoined := KnowledgeTables.joined_chunks fun chunk hchunk =>
    (hone chunk hchunk).imp fun row h => h.1
  refine ⟨document, hfound, hmetadata, hne, hdigest, ingestor.rowsCurrent_iff.mpr ?_⟩
  rw [← hchunks, hown, ← hjoined, List.map_map, List.forall₂_map_right_iff, List.forall₂_same]
  intro row hrow
  obtain ⟨hchunk, hmem, hid⟩ := KnowledgeTables.mem_joined.mp hrow
  obtain ⟨embedding, hfilter, hhash, hprovider, hmodel, hdimensions⟩ := hone row.1 hchunk
  have heq : row.2 = embedding := List.mem_singleton.mp
    (hfilter ▸ List.mem_filter.mpr ⟨hmem, decide_eq_true hid⟩)
  exact decide_eq_true ⟨rfl, rfl, heq ▸ hhash, heq ▸ hprovider, heq ▸ hmodel, heq ▸ hdimensions⟩

/-- The test depends on the rows of the source only. -/
theorem Current.congr {t' : KnowledgeTables Digest Vector} (hvalid : t.Valid) (hvalid' : t'.Valid)
    (hrows : t'.only source.sourceId = t.only source.sourceId)
    (h : Current ingestor hash t source) : Current ingestor hash t' source := by
  obtain ⟨document, hfound, hmetadata, hne, hdigest, hcurrent⟩ := h
  obtain ⟨-, -, hdocuments, hchunks⟩ := KnowledgeTables.document?_eq_some hvalid hfound
  have hfound' := KnowledgeTables.document?_of_only hvalid' (hrows ▸ hdocuments)
  have hchunks' := (KnowledgeTables.document?_eq_some hvalid' hfound').2.2.2
  have hsame : t'.chunksOf document.id = t.chunksOf document.id := by
    rw [← hchunks, ← hchunks', hrows]
  have hjoined : t'.joined document.id = t.joined document.id := by
    rw [KnowledgeTables.joined, KnowledgeTables.joined, hsame]
    congr 1
    refine List.flatMap_congr fun chunk hchunk => congrArg _ ?_
    rw [← hchunks] at hchunk
    rw [← KnowledgeTables.only_embeddings hchunk, ← hrows]
    exact (KnowledgeTables.only_embeddings (hrows ▸ hchunk)).symm
  exact ⟨document, hfound', hmetadata, hne, hdigest, hjoined ▸ hcurrent⟩

end

end

end SupportPlatform

