import SupportPlatform.AgentWorkflow
import SupportPlatform.Traversal

/-! # Evidence

What ties the three views of a tool's evidence together: its runbook references, the chunks
in its data, and the row that is stored for it.  The view is a list of pairs of a source and
a chunk.  For sources that are named as the knowledge manifest demands, sanitizing a result
once more, as storing it does, keeps its references and its chunks.
-/
namespace SupportPlatform
open Program ControlledAgentWorkflow

/-- A source and a chunk of it. -/
abbrev ChunkPair := Text × Int

/-- The characters of `[a-z0-9-]`. -/
def idChar (c : Char) : Bool := c.isLower || c.isDigit || c == '-'

/-- `^[a-z0-9][a-z0-9-]+$`. -/
def ManifestId (s : Text) : Prop :=
  2 ≤ s.length ∧ s.head? ≠ some '-' ∧ ∀ c ∈ s, idChar c = true

instance : DecidablePred ManifestId := fun s =>
  decidable_of_iff (2 ≤ s.length ∧ s.head? ≠ some '-' ∧ s.all idChar = true)
    (by simp [ManifestId])

theorem marks_of_idChar {c : Char} (h : idChar c = true) : SensitiveValue.marks c = false := by
  have hrange : 97 ≤ c.toNat ∧ c.toNat ≤ 122 ∨ 48 ≤ c.toNat ∧ c.toNat ≤ 57 ∨ c.toNat = 45 := by
    simp only [idChar, Bool.or_eq_true, Char.isLower, Char.isDigit, Bool.and_eq_true,
      decide_eq_true_eq, beq_iff_eq] at h
    rcases h with (h | h) | h
    · exact .inl ⟨h.1, h.2⟩
    · exact .inr (.inl ⟨h.1, h.2⟩)
    · exact .inr (.inr (by rw [h]; rfl))
  have hne : ∀ d : Char, d.toNat = 58 ∨ d.toNat = 61 ∨ d.toNat = 46 → (c == d) = false := by
    intro d hd
    rw [beq_eq_false_iff_ne]
    intro e
    subst e
    omega
  simp only [SensitiveValue.marks, Bool.or_eq_false_iff]
  refine ⟨⟨⟨?_, hne ':' (by decide)⟩, hne '=' (by decide)⟩, hne '.' (by decide)⟩
  simp only [Text.isSpace, Bool.or_eq_false_iff, Bool.and_eq_false_iff, decide_eq_false_iff_not,
    beq_eq_false_iff_ne]
  omega

section
variable [Runtime]

theorem ManifestId.clean {s : Text} (h : ManifestId s) (hlen : s.length ≤ 2000) : s.Clean :=
  .of_plain (fun c hc => marks_of_idChar (h.2.2 c hc)) hlen

/-- A pair that a runbook reference can name: a manifest id of the length that references allow. -/
def ChunkPair.Named (p : ChunkPair) : Prop := ManifestId p.1 ∧ p.1.length ≤ 120

theorem ChunkPair.Named.clean {p : ChunkPair} (h : p.Named) : Text.Clean p.1 :=
  h.1.clean (by have := h.2; omega)

/-! ## Chunks in the data of a result -/

/-- The JSON value is a chunk of the pair. -/
def IsChunk (p : ChunkPair) (item : Json) : Prop := ∃ title category content similarity,
  item = .obj [("source_id", .str p.1), ("chunk_id", .int p.2), ("title", title),
    ("category", category), ("content", content), ("similarity", similarity)]

/-- The data of a result holds just the chunks of these pairs. -/
def HoldsChunks (data : Dict Text Json) (pairs : List ChunkPair) : Prop :=
  (∃ items : List Json, data = ([("chunks", .arr items)] : Dict Text Json) ∧ items.length ≤ 50 ∧
    List.Forall₂ IsChunk pairs items) ∨
  (("chunks" : Text) ∉ data.keys ∧ pairs = [])

theorem IsChunk.sanitize {p : ChunkPair} {item : Json} (h : IsChunk p item) (hp : p.Named)
    (n : Nat) : IsChunk p (sanitizeLevels (n + 2) item) := by
  obtain ⟨title, category, content, similarity, rfl⟩ := h
  refine ⟨sanitizeLevels (n + 1) title, sanitizeLevels (n + 1) category,
    sanitizeLevels (n + 1) content, sanitizeLevels (n + 1) similarity, ?_⟩
  have hitem : sanitizeLevels (n + 2) (.obj [("source_id", .str p.1), ("chunk_id", .int p.2),
      ("title", title), ("category", category), ("content", content),
      ("similarity", similarity)]) =
    .obj [("source_id", .str (sanitizeText p.1)), ("chunk_id", .int p.2),
      ("title", sanitizeLevels (n + 1) title), ("category", sanitizeLevels (n + 1) category),
      ("content", sanitizeLevels (n + 1) content),
      ("similarity", sanitizeLevels (n + 1) similarity)] := rfl
  rw [hitem, show sanitizeText p.1 = p.1 from hp.clean]

theorem chunks_sanitize {pairs : List ChunkPair} {items : List Json} (hp : ∀ p ∈ pairs, p.Named)
    (h : List.Forall₂ IsChunk pairs items) (n : Nat) :
    List.Forall₂ (fun p item => IsChunk p (sanitizeLevels (n + 2) item)) pairs items := by
  induction h with
  | nil => exact .nil
  | cons hc _ ih =>
      exact .cons (hc.sanitize (hp _ List.mem_cons_self) n)
        (ih fun p hm => hp p (List.mem_cons_of_mem _ hm))

/-- The keys that sanitizing leaves are cut off at a bound. -/
theorem mem_keys_sanitizeEntries {f : Json → Json} {entries : Dict Text Json} {k : Text}
    (h : k ∈ Dict.keys (sanitizeEntries f entries)) : ∃ k' ∈ entries.keys, k = k'.take 120 := by
  have hof : ∀ (l d : Dict Text Json), k ∈ Dict.keys (l.foldl (fun d e => Dict.set d e.1 e.2) d) →
      k ∈ l.keys ∨ k ∈ d.keys := by
    intro l
    induction l with
    | nil => exact fun d hd => .inr hd
    | cons e l ih =>
        intro d hd
        rcases ih _ hd with h | h
        · exact .inl (List.mem_cons_of_mem _ h)
        · rcases Dict.mem_keys_set.mp h with rfl | h
          · exact .inl List.mem_cons_self
          · exact .inr h
  rcases hof _ [] h with h | h
  · simp only [Dict.keys, List.map_map, List.mem_map] at h
    obtain ⟨e, he, rfl⟩ := h
    exact ⟨e.1, List.mem_map.mpr ⟨e, List.mem_of_mem_take he, rfl⟩, rfl⟩
  · cases h

/-- **Sanitizing keeps the chunks of a result.** -/
theorem HoldsChunks.sanitize {data : Dict Text Json} {pairs : List ChunkPair}
    (h : HoldsChunks data pairs) (hp : ∀ p ∈ pairs, p.Named) (n : Nat) :
    HoldsChunks (sanitizeEntries (sanitizeLevels (n + 3)) data) pairs := by
  rcases h with ⟨items, rfl, hlen, hitems⟩ | ⟨hkeys, rfl⟩
  · refine .inl ⟨(items.take 50).map (sanitizeLevels (n + 2)), rfl, ?_, ?_⟩
    · rw [List.length_map]
      exact List.length_take_le _ _
    · rw [List.take_of_length_le hlen, List.forall₂_map_right_iff]
      exact chunks_sanitize hp hitems n
  · refine .inr ⟨fun hmem => ?_, rfl⟩
    obtain ⟨k', hk', he⟩ := mem_keys_sanitizeEntries hmem
    have hlen : ("chunks" : Text).length = min 120 k'.length := by rw [he, List.length_take]
    rw [List.take_of_length_le (by change 6 = _ at hlen; omega)] at he
    exact hkeys (he ▸ hk')

omit [Runtime] in
theorem rawChunks_of_holds {r : ToolResult} {pairs : List ChunkPair}
    (h : HoldsChunks r.data pairs) : List.Forall₂ IsChunk pairs (rawChunks r) := by
  rcases h with ⟨items, hdata, -, hitems⟩ | ⟨hkeys, rfl⟩
  · rw [rawChunks, hdata]
    exact hitems
  · rw [rawChunks, Dict.get?_eq_none.mpr hkeys]
    exact .nil

/-! ## The stored copy of a result -/

/-- The chunk that a runbook reference names. -/
def EvidenceReference.runbookPair? (r : EvidenceReference) : Option ChunkPair :=
  match r.evidenceType, r.pair with
  | .runbook, (some sourceId, some chunkId) => some (sourceId, chunkId)
  | _, _ => none

omit [Runtime] in
theorem EvidenceReference.runbookPair?_eq_some {r : EvidenceReference} {p : ChunkPair} :
    r.runbookPair? = some p ↔ r.evidenceType = .runbook ∧ r.pair = (some p.1, some p.2) := by
  rcases r with ⟨_ | _ | _ | _, id, _ | s, _ | n⟩ <;> simp [runbookPair?, pair, Prod.ext_iff]

/-- The chunks that the runbook references of a result name. -/
def runbookPairs (refs : List EvidenceReference) : List ChunkPair :=
  refs.filterMap (·.runbookPair?)

/-- A runbook reference names a source and a chunk. -/
def EvidenceReference.Named (r : EvidenceReference) : Prop :=
  r.evidenceType = .runbook → ∃ sourceId chunkId, r.sourceId = some sourceId ∧
    r.chunkId = some chunkId ∧ ManifestId sourceId.1

/-- **Evidence that can be followed**: the data holds the chunks of `pairs`, and each runbook
reference names one of these or of the chunks `before` it. -/
structure Traceable (before pairs : List ChunkPair) (data : Dict Text Json)
    (refs : List EvidenceReference) : Prop where
  named : ∀ ref ∈ refs, ref.Named
  holds : HoldsChunks data pairs
  pairs_named : ∀ p ∈ pairs, p.Named
  covered : ∀ p ∈ runbookPairs refs, p ∈ pairs ∨ p ∈ before

/-- Sanitizing keeps the evidence. -/
theorem Traceable.sanitize {before pairs : List ChunkPair} {data : Dict Text Json}
    {refs : List EvidenceReference} (h : Traceable before pairs data refs) (n : Nat) :
    Traceable before pairs (sanitizeEntries (sanitizeLevels (n + 3)) data) refs :=
  ⟨h.named, h.holds.sanitize h.pairs_named n, h.pairs_named, h.covered⟩

/-- The chunks that are named by the references of the results. -/
def namedPairs (results : Results) : List ChunkPair :=
  results.values.flatMap fun r => runbookPairs r.evidenceReferences.1

/-- Every runbook reference of the results names a source and a chunk. -/
def NamedResults (results : Results) : Prop :=
  ∀ r ∈ results.values, ∀ ref ∈ r.evidenceReferences.1, ref.Named

omit [Runtime] in
/-- Evidence without runbook references and chunks. -/
theorem Traceable.of_others {before : List ChunkPair} {data : Dict Text Json}
    {refs : List EvidenceReference} (hrefs : ∀ ref ∈ refs, ref.evidenceType ≠ .runbook)
    (hkeys : ("chunks" : Text) ∉ data.keys) : Traceable before [] data refs := by
  refine ⟨fun ref hm hb => absurd hb (hrefs ref hm), .inr ⟨hkeys, rfl⟩, nofun, fun p hp => ?_⟩
  obtain ⟨ref, hm, hp⟩ := List.mem_filterMap.mp hp
  exact absurd (EvidenceReference.runbookPair?_eq_some.mp hp).1 (hrefs ref hm)

omit [Runtime] in
/-- Evidence that consists of chunks with a reference to each. -/
theorem Traceable.of_chunks {before pairs : List ChunkPair} {items : List Json}
    {refs : List EvidenceReference} (hitems : List.Forall₂ IsChunk pairs items)
    (hlen : items.length ≤ 50) (hid : ∀ p ∈ pairs, ManifestId p.1)
    (hrefs : List.Forall₂ (fun p ref => ref.runbookPair? = some p) pairs refs) :
    Traceable before pairs [("chunks", .arr items)] refs := by
  have hnamed : ∀ p ∈ pairs, ∀ ref : EvidenceReference, ref.runbookPair? = some p → p.Named ∧ ref.Named := by
    intro p hp ref href
    obtain ⟨-, hpair⟩ := EvidenceReference.runbookPair?_eq_some.mp href
    rw [EvidenceReference.pair, Prod.mk.injEq] at hpair
    obtain ⟨s, hs, hsv⟩ := Option.map_eq_some_iff.mp hpair.1
    obtain ⟨n, hn, -⟩ := Option.map_eq_some_iff.mp hpair.2
    exact ⟨⟨hid p hp, hsv ▸ s.2.2⟩, fun _ => ⟨s, n, hs, hn, hsv.symm ▸ hid p hp⟩⟩
  refine ⟨fun ref hm => ?_, .inl ⟨items, rfl, hlen, hitems⟩, fun p hp => ?_, fun p hp => .inl ?_⟩
  · obtain ⟨p, hp, href⟩ := exists_of_forall₂_right hrefs hm
    exact (hnamed p hp ref href).2
  · obtain ⟨ref, -, href⟩ := exists_of_forall₂_left hrefs hp
    exact (hnamed p hp ref href).1
  · obtain ⟨ref, hm, href⟩ := List.mem_filterMap.mp hp
    obtain ⟨q, hq, hrefq⟩ := exists_of_forall₂_right hrefs hm
    exact Option.some.inj (href.symm.trans hrefq) ▸ hq

/-- The runbook entry of a stored list of references. -/
def runbookEntry (p : ChunkPair) (entry : Json) : Prop :=
  entry.get? "evidence_type" = some (.str "runbook") ∧ entry.get? "source_id" = some (.str p.1) ∧
    entry.get? "chunk_id" = some (.int p.2)

omit [Runtime] in
theorem mem_runbookPairs {refs : List EvidenceReference} {p : ChunkPair} :
    p ∈ runbookPairs refs ↔ ∃ r ∈ refs, r.evidenceType = .runbook ∧
      r.pair = (some p.1, some p.2) := by
  simp only [runbookPairs, List.mem_filterMap, EvidenceReference.runbookPair?_eq_some]

omit [Runtime] in
/-- The references that a row stores are those of the result. -/
theorem runbookEntry_modelDump {r : EvidenceReference} {p : ChunkPair} :
    runbookEntry p r.modelDump ↔ r.evidenceType = .runbook ∧ r.pair = (some p.1, some p.2) := by
  have hvalue : r.evidenceType.value = "runbook" ↔ r.evidenceType = .runbook := by
    cases r.evidenceType <;> decide
  have htype : r.modelDump.get? "evidence_type" = some (.str r.evidenceType.value) := rfl
  have hsource : r.modelDump.get? "source_id" = some (Json.ofText (r.sourceId.map (·.1))) := rfl
  have hchunk : r.modelDump.get? "chunk_id" = some _ := rfl
  rw [runbookEntry, htype, hsource, hchunk, EvidenceReference.pair, Option.some.injEq,
    Json.str.injEq, hvalue]
  refine and_congr_right fun _ => ?_
  rcases r with ⟨t, id, _ | s, _ | n⟩ <;> simp [Json.ofText]

theorem clean_value (t : EvidenceType) : Text.Clean t.value := by
  have hplain : (t.value.all fun c => !SensitiveValue.marks c) = true := by cases t <;> decide
  refine .of_plain (fun c hc => ?_) (by cases t <;> decide)
  simpa using List.all_eq_true.mp hplain c hc

/-- A reference that is read back from its stored copy is the reference, as far as it names a
chunk of a runbook. -/
theorem EvidenceReference.restore [Pydantic]
    (hint : ∀ i : Int, Pydantic.intOf (.int i) = some i) {r r' : EvidenceReference} {n : Nat}
    (hr : ofJson (sanitizeLevels (n + 2) r.modelDump) = some r') (hnamed : r.Named) :
    r'.evidenceType = r.evidenceType ∧ (r.evidenceType = .runbook → r'.pair = r.pair) := by
  have hdump : sanitizeLevels (n + 2) r.modelDump =
      .obj [("evidence_type", .str (sanitizeText r.evidenceType.value)),
        ("reference_id", .str (sanitizeText r.referenceId.1)),
        ("source_id", sanitizeLevels (n + 1) (Json.ofText (r.sourceId.map (·.1)))),
        ("chunk_id", sanitizeLevels (n + 1) _)] := rfl
  rw [hdump, show sanitizeText r.evidenceType.value = r.evidenceType.value from
    clean_value r.evidenceType] at hr
  simp only [ofJson, Option.bind_eq_bind, Option.bind_eq_some_iff] at hr
  obtain ⟨entries, hentries, type, htype, id, -, source, hsource, chunk, hchunk, hr⟩ := hr
  cases hr
  obtain rfl := strictEntries_obj hentries
  obtain ⟨text, htext, htype⟩ := htype
  have htype' : EvidenceType.ofValue r.evidenceType.value = some type := by
    obtain ⟨value, hvalue, hstr⟩ := htext
    cases hvalue
    cases hstr
    exact htype
  rw [EvidenceType.ofValue_value] at htype'
  refine ⟨(Option.some.inj htype').symm, fun hrunbook => ?_⟩
  obtain ⟨s, k, hs, hk, hid⟩ := hnamed hrunbook
  have hclean : sanitizeText s.1 = s.1 := hid.clean (by have := s.2.2; omega)
  have hsource' : optional (boundedText 0 120) (some (.str s.1)) = some source := by
    rw [← hclean]
    rw [hs] at hsource
    exact hsource
  have hchunk' : optional (fun v => (Pydantic.intOf v).bind (field fun n : Int => 0 < n))
      (some (.int k.1)) = some chunk := by
    rw [hk] at hchunk
    exact hchunk
  obtain ⟨s', hs', rfl⟩ := Option.map_eq_some_iff.mp hsource'
  obtain ⟨k', hk', rfl⟩ := Option.map_eq_some_iff.mp hchunk'
  dsimp only at hk'
  rw [hint, Option.bind_some] at hk'
  rw [pair, pair, hs, hk, Option.map_some, Option.map_some, Option.map_some, Option.map_some,
    boundedText_val hs', field_eq_some hk']

omit [Runtime] in
/-- The same chunks are named by references of the same types that name the same chunks as far
as they are runbook references. -/
theorem runbookPairs_congr {refs refs' : List EvidenceReference}
    (h : List.Forall₂ (fun r r' => r'.evidenceType = r.evidenceType ∧
      (r.evidenceType = .runbook → r'.pair = r.pair)) refs refs') :
    runbookPairs refs' = runbookPairs refs := by
  induction h with
  | nil => rfl
  | @cons r r' _ _ hr _ ih =>
      have hpair : r'.runbookPair? = r.runbookPair? := by
        obtain ⟨htype, hpair⟩ := hr
        by_cases hb : r.evidenceType = .runbook
        · rw [EvidenceReference.runbookPair?, EvidenceReference.runbookPair?, htype, hpair hb]
        · rw [EvidenceReference.runbookPair?, EvidenceReference.runbookPair?, htype]
          cases ht : r.evidenceType <;> first | rfl | exact absurd ht hb
      rw [runbookPairs, runbookPairs, List.filterMap_cons, List.filterMap_cons, hpair,
        show List.filterMap _ _ = _ from ih, runbookPairs]

omit [Runtime] in
theorem EvidenceReference.Named.of_pair {r r' : EvidenceReference} (h : r.Named)
    (htype : r'.evidenceType = r.evidenceType)
    (hpair : r.evidenceType = .runbook → r'.pair = r.pair) : r'.Named := by
  intro hb
  rw [htype] at hb
  obtain ⟨s, k, hs, hk, hid⟩ := h hb
  have heq := hpair hb
  rw [pair, pair, hs, hk, Prod.mk.injEq] at heq
  obtain ⟨s', hs', hval⟩ := Option.map_eq_some_iff.mp heq.1
  obtain ⟨k', hk', -⟩ := Option.map_eq_some_iff.mp heq.2
  exact ⟨s', k', hs', hk', hval.symm ▸ hid⟩

/-- References that are read back from their stored copies. -/
theorem restore_references [Pydantic] (hint : ∀ i : Int, Pydantic.intOf (.int i) = some i)
    {n : Nat} {original refs : List EvidenceReference}
    (h : List.Forall₂ (fun r r' =>
      EvidenceReference.ofJson (sanitizeLevels (n + 2) r.modelDump) = some r') original refs)
    (hnamed : ∀ r ∈ original, r.Named) :
    List.Forall₂ (fun r r' => r'.evidenceType = r.evidenceType ∧
      (r.evidenceType = .runbook → r'.pair = r.pair)) original refs ∧
        ∀ r ∈ refs, r.Named := by
  induction h with
  | nil => exact ⟨.nil, nofun⟩
  | cons hr _ ih =>
      have hn := hnamed _ List.mem_cons_self
      have hrel := EvidenceReference.restore hint hr hn
      obtain ⟨hrest, hall⟩ := ih fun r hm => hnamed r (List.mem_cons_of_mem _ hm)
      refine ⟨.cons hrel hrest, fun r hm => ?_⟩
      rcases List.mem_cons.mp hm with rfl | hm
      · exact hn.of_pair hrel.1 hrel.2
      · exact hall r hm

/-- The data of a result that is read back has been sanitized once more. -/
theorem ToolResult.restore_data [Pydantic] {r r' : ToolResult}
    (hr : ToolResult.ofJson (sanitizeValue r.modelDump) = some r') :
    r'.data = sanitizeEntries (sanitizeLevels 3) r.data := by
  simp only [ToolResult.ofJson, Option.bind_eq_bind, Option.bind_eq_some_iff] at hr
  obtain ⟨entries, hentries, name, -, status, -, summary, -, data, hdata, refs, -, refs', -,
    duration, -, hr⟩ := hr
  cases hr
  obtain rfl := strictEntries_obj hentries
  exact (Option.some.inj hdata).symm

/-- **A result that is read back from its stored copy** names the same chunks and holds the
same chunks. -/
theorem Traceable.restore [Pydantic] (hint : ∀ i : Int, Pydantic.intOf (.int i) = some i)
    {before pairs : List ChunkPair} {r r' : ToolResult}
    (h : Traceable before pairs r.data r.evidenceReferences.1)
    (hr : ToolResult.ofJson (sanitizeValue r.modelDump) = some r') :
    runbookPairs r'.evidenceReferences.1 = runbookPairs r.evidenceReferences.1 ∧
      Traceable before pairs r'.data r'.evidenceReferences.1 := by
  have hdump : sanitizeValue r.modelDump =
      .obj [("tool_name", .str (sanitizeText r.toolName.1)),
        ("status", .str (sanitizeText r.status.value)),
        ("summary", .str (sanitizeText r.summary.1)),
        ("data", .obj (sanitizeEntries (sanitizeLevels 3) r.data)),
        ("evidence_references",
          .arr (((r.evidenceReferences.1.map (·.modelDump)).take 50).map (sanitizeLevels 3))),
        ("duration_ms", .float r.durationMs.1)] := rfl
  rw [hdump] at hr
  simp only [ToolResult.ofJson, Option.bind_eq_bind, Option.bind_eq_some_iff] at hr
  obtain ⟨entries, hentries, name, -, status, -, summary, -, data, hdata, refs, hrefs, refs', hrefs',
    duration, -, hr⟩ := hr
  cases hr
  obtain rfl := strictEntries_obj hentries
  obtain rfl : sanitizeEntries (sanitizeLevels 3) r.data = data := Option.some.inj hdata
  have hmap : (((r.evidenceReferences.1.map (·.modelDump)).take 50).map (sanitizeLevels 3)).mapM
      EvidenceReference.ofJson = some refs := hrefs
  have hlen : (r.evidenceReferences.1.map (·.modelDump)).length ≤ 50 := by
    rw [List.length_map]
    have := r.evidenceReferences.2
    omega
  rw [List.take_of_length_le hlen] at hmap
  have hread := forall₂_of_mapM hmap
  rw [List.map_map, List.forall₂_map_left_iff] at hread
  obtain ⟨hrel, hnamed⟩ := restore_references hint hread h.named
  have hpairs : runbookPairs refs'.1 = runbookPairs r.evidenceReferences.1 := by
    rw [field_eq_some hrefs']
    exact runbookPairs_congr hrel
  exact ⟨hpairs, ⟨field_eq_some hrefs' ▸ hnamed, h.holds.sanitize h.pairs_named 0, h.pairs_named,
    hpairs ▸ h.covered⟩⟩

omit [Runtime] in
theorem exists_runbookEntry {refs : List EvidenceReference} {p : ChunkPair} :
    (∃ entry ∈ refs.map (·.modelDump), runbookEntry p entry) ↔ p ∈ runbookPairs refs := by
  simp only [List.mem_map, exists_exists_and_eq_and, runbookEntry_modelDump, mem_runbookPairs]

/-! ## The stored context -/

/-- The key under which a chunk is collected. -/
def chunkKey (p : ChunkPair) : Json × Json := (.str p.1, .int p.2)

omit [Runtime] in
theorem addChunk_of_isChunk {p : ChunkPair} {item : Json} (h : IsChunk p item)
    (chunks : Dict (Json × Json) Json) :
    addChunk chunks item = .ok (chunks.set (chunkKey p) item) := by
  obtain ⟨title, category, content, similarity, rfl⟩ := h
  rfl

/-- Every entry is a chunk under its key. -/
def ChunkTable (chunks : Dict (Json × Json) Json) : Prop :=
  ∀ e ∈ chunks, ∃ p : ChunkPair, e.1 = chunkKey p ∧ IsChunk p e.2 ∧ p.Named

omit [Runtime] in
/-- Collecting chunks succeeds, and every chunk is then in the table. -/
theorem foldlM_addChunk {items : List Json} :
    ∀ {chunks : Dict (Json × Json) Json}, ChunkTable chunks →
      (∀ item ∈ items, ∃ p : ChunkPair, IsChunk p item ∧ p.Named) →
      ∃ chunks', items.foldlM addChunk chunks = .ok chunks' ∧ ChunkTable chunks' ∧
        ∀ p : ChunkPair, chunkKey p ∈ chunks.keys ∨ (∃ item ∈ items, IsChunk p item) →
          chunkKey p ∈ chunks'.keys := by
  induction items with
  | nil =>
      intro chunks htable _
      exact ⟨chunks, rfl, htable, fun p hp => hp.elim id fun ⟨_, hm, _⟩ => nomatch hm⟩
  | cons item items ih =>
      intro chunks htable hitems
      obtain ⟨p, hp, hnamed⟩ := hitems item List.mem_cons_self
      have htable' : ChunkTable (chunks.set (chunkKey p) item) := fun e he => by
        rcases Dict.mem_set he with rfl | he
        · exact ⟨p, rfl, hp, hnamed⟩
        · exact htable e he
      obtain ⟨chunks', hfold, htable', hkeys⟩ :=
        ih htable' fun item' hm => hitems item' (List.mem_cons_of_mem _ hm)
      refine ⟨chunks', ?_, htable', fun q hq => hkeys q ?_⟩
      · rw [List.foldlM_cons, addChunk_of_isChunk hp]
        exact hfold
      · rcases hq with hq | ⟨item', hm, hq⟩
        · exact .inl (Dict.mem_keys_set.mpr (.inr hq))
        · rcases List.mem_cons.mp hm with rfl | hm
          · -- an item is a chunk of one pair only
            obtain ⟨_, _, _, _, h₁⟩ := hp
            obtain ⟨_, _, _, _, h₂⟩ := hq
            rw [h₁] at h₂
            injection h₂ with h₂
            injection h₂ with hs h₂
            injection h₂ with hn h₂
            have hpq : p = q := Prod.ext (Json.str.inj (Prod.mk.inj hs).2)
              (Json.int.inj (Prod.mk.inj hn).2)
            exact .inl (hpq ▸ Dict.mem_keys_set.mpr (.inl rfl))
          · exact .inr ⟨item', hm, hq⟩

omit [Runtime] in
/-- **The stored context** of traceable results holds every chunk of theirs, and nothing but
chunks. -/
theorem retrievedContext_of_holds {results : Results}
    (h : ∀ r ∈ results.values, ∃ pairs, HoldsChunks r.data pairs ∧ ∀ p ∈ pairs, p.Named) :
    ∃ context, retrievedContext results = .ok context ∧
      (∀ item ∈ context, ∃ p : ChunkPair, IsChunk p item ∧ p.Named) ∧
      ∀ r ∈ results.values, ∀ pairs, HoldsChunks r.data pairs → ∀ p ∈ pairs,
        ∃ item ∈ context, IsChunk p item := by
  have hraw : ∀ item ∈ results.values.flatMap rawChunks,
      ∃ p : ChunkPair, IsChunk p item ∧ p.Named := by
    intro item hitem
    obtain ⟨r, hr, hitem⟩ := List.mem_flatMap.mp hitem
    obtain ⟨pairs, hpairs, hnamed⟩ := h r hr
    obtain ⟨p, hp, hc⟩ := exists_of_forall₂_right (rawChunks_of_holds hpairs) hitem
    exact ⟨p, hc, hnamed p hp⟩
  have hnone : ChunkTable [] := nofun
  obtain ⟨chunks, hfold, htable, hkeys⟩ := foldlM_addChunk hnone hraw
  refine ⟨chunks.values, ?_, ?_, ?_⟩
  · rw [retrievedContext, hfold]
    rfl
  · intro item hitem
    obtain ⟨e, he, rfl⟩ := List.mem_map.mp hitem
    obtain ⟨p, -, hc, hnamed⟩ := htable e he
    exact ⟨p, hc, hnamed⟩
  · intro r hr pairs hpairs p hp
    obtain ⟨item, hitem, hc⟩ := exists_of_forall₂_left (rawChunks_of_holds hpairs) hp
    have hkey := hkeys p (.inr ⟨item, List.mem_flatMap.mpr ⟨r, hr, hitem⟩, hc⟩)
    obtain ⟨e, he, hek⟩ := List.mem_map.mp hkey
    obtain ⟨q, hq, hcq, -⟩ := htable e he
    have hqp : q = p := by
      rw [hq, chunkKey, chunkKey, Prod.mk.injEq, Json.str.injEq, Json.int.injEq] at hek
      exact Prod.ext hek.1 hek.2
    exact ⟨e.2, List.mem_map.mpr ⟨e, he, rfl⟩, hqp ▸ hcq⟩

end

end SupportPlatform
