import SupportPlatform.Words

/-! # Chunking

`app/knowledge/chunking.py`: a document is cut at its blank lines into paragraphs, a paragraph that
is too long into lines of words, and these units are put together again into chunks.

Both loops are instances of `pack`, the inner one on the words of a paragraph and the outer one
on the units of the document (`splitOversizedParagraph_eq`, `packUnits_eq`).  So what is known of
packing gives `chunked_chunkDocument`: no word is lost, and the bound is kept and used.
-/
namespace SupportPlatform
open Text

/-- `KnowledgeChunk`; what its content is bounded by below is proved of every chunk. -/
structure KnowledgeChunk (Digest : Type) where
  chunkIndex : Nat
  content : Text
  contentHash : Digest

/-- The lists of `_split_oversized_paragraph`, and its count of characters. -/
structure LineState where
  parts : List Text
  current : List Text
  currentLength : Nat

/-- One word more. -/
def addWord (maxChars : Nat) (st : LineState) (word : Text) : LineState :=
  let added := word.length + if st.current ≠ [] then 1 else 0
  if st.current ≠ [] ∧ maxChars < st.currentLength + added then
    ⟨st.parts ++ [join " " st.current], [word], word.length⟩
  else ⟨st.parts, st.current ++ [word], st.currentLength + added⟩

/-- `_split_oversized_paragraph(paragraph, max_chars)`. -/
def splitOversizedParagraph (paragraph : Text) (maxChars : Nat) : List Text :=
  let st := paragraph.words.foldl (addWord maxChars) ⟨[], [], 0⟩
  if st.current ≠ [] then st.parts ++ [join " " st.current] else st.parts

/-- `\n\s*\n`. -/
def blankLine : Regex :=
  .seq (.char (· == '\n')) (.seq (.star isSpace) (.char (· == '\n')))

/-- The lists of the second loop of `chunk_document`. -/
structure PackState where
  packed : List Text
  current : Text

/-- One unit more. -/
def addUnit (maxChars : Nat) (st : PackState) (unit : Text) : PackState :=
  let candidate := if st.current = [] then unit else st.current ++ "\n\n" ++ unit
  if st.current ≠ [] ∧ maxChars < candidate.length then ⟨st.packed ++ [st.current], unit⟩
  else ⟨st.packed, candidate⟩

/-- The chunks' contents of the units. -/
def packUnits (units : List Text) (maxChars : Nat) : List Text :=
  let st := units.foldl (addUnit maxChars) ⟨[], []⟩
  if st.current ≠ [] then st.packed ++ [st.current] else st.packed

section
variable [Runtime]

/-- The paragraphs of a document. -/
def paragraphs (content : Text) : List Text :=
  ((blankLine.split content).map strip).filter fun part => part ≠ []

/-- The units of a document. -/
def documentUnits (content : Text) (maxChars : Nat) : List Text :=
  (paragraphs content).flatMap fun paragraph =>
    if paragraph.length ≤ maxChars then [paragraph] else splitOversizedParagraph paragraph maxChars

/-- `chunk_document(content, max_chars)`. -/
def chunkDocument {Digest : Type} (contentHash : Text → Digest) (content : Text) (maxChars : Nat) :
    List (KnowledgeChunk Digest) :=
  (packUnits (documentUnits content maxChars) maxChars).zipIdx.map fun (text, index) =>
    ⟨index, text, contentHash text⟩

end

/-! ## The loops pack -/

/-- The words that are left are packed after the line that was begun. -/
theorem foldl_addWord (maxChars : Nat) (ws : List Text) (parts current : List Text)
    (hne : current ≠ []) :
    let st := ws.foldl (addWord maxChars) ⟨parts, current, (join " " current).length⟩
    st.current ≠ [] ∧ st.parts ++ [join " " st.current] =
      parts ++ (packFrom " " maxChars current ws).map (join " ") := by
  induction ws generalizing parts current with
  | nil => exact ⟨hne, rfl⟩
  | cons word ws ih =>
      have hlength : (join " " (current ++ [word])).length =
          (join " " current).length + (word.length + 1) := by
        have hspace : (" " : Text).length = 1 := rfl
        rw [join_append_singleton hne, List.length_append, List.length_append, hspace]
        omega
      have hstep : addWord maxChars ⟨parts, current, (join " " current).length⟩ word =
          if maxChars < (join " " (current ++ [word])).length then
            ⟨parts ++ [join " " current], [word], word.length⟩
          else ⟨parts, current ++ [word], (join " " (current ++ [word])).length⟩ := by
        simp only [addWord, hne, ne_eq, not_false_eq_true, true_and, if_true, hlength]
      rw [List.foldl_cons, hstep, packFrom]
      split
      · obtain ⟨hcurrent, heq⟩ := ih (parts ++ [join " " current]) [word] (List.cons_ne_nil _ _)
        refine ⟨hcurrent, heq.trans ?_⟩
        rw [List.map_cons, List.append_assoc, List.singleton_append]
      · exact ih parts (current ++ [word]) (by simp)

/-- **A paragraph that is too long is packed word by word.** -/
theorem splitOversizedParagraph_eq (paragraph : Text) (maxChars : Nat) :
    splitOversizedParagraph paragraph maxChars =
      (pack " " maxChars paragraph.words).map (join " ") := by
  rw [splitOversizedParagraph]
  cases paragraph.words with
  | nil => rfl
  | cons word ws =>
      have hstart : addWord maxChars ⟨[], [], 0⟩ word = ⟨[], [word], (join " " [word]).length⟩ := by
        simp [addWord, join]
      obtain ⟨hcurrent, heq⟩ := foldl_addWord maxChars ws [] [word] (List.cons_ne_nil _ _)
      rw [List.foldl_cons, hstart, if_pos hcurrent, heq, List.nil_append, pack]

/-- The units that are left are packed after the chunk that was begun. -/
theorem foldl_addUnit (maxChars : Nat) (units packed group : List Text) (hne : group ≠ [])
    (hgroup : ∀ unit ∈ group, unit ≠ []) (hunits : ∀ unit ∈ units, unit ≠ []) :
    let st := units.foldl (addUnit maxChars) ⟨packed, join "\n\n" group⟩
    st.current ≠ [] ∧ st.packed ++ [st.current] =
      packed ++ (packFrom "\n\n" maxChars group units).map (join "\n\n") := by
  induction units generalizing packed group with
  | nil => exact ⟨join_ne_nil hne hgroup, rfl⟩
  | cons unit units ih =>
      obtain ⟨hunit, hunits⟩ := List.forall_mem_cons.mp hunits
      have hcurrent : join "\n\n" group ≠ [] := join_ne_nil hne hgroup
      have hstep : addUnit maxChars ⟨packed, join "\n\n" group⟩ unit =
          if maxChars < (join "\n\n" (group ++ [unit])).length then
            ⟨packed ++ [join "\n\n" group], unit⟩
          else ⟨packed, join "\n\n" (group ++ [unit])⟩ := by
        simp only [addUnit, hcurrent, ne_eq, not_false_eq_true, true_and, if_false,
          join_append_singleton hne]
      rw [List.foldl_cons, hstep, packFrom]
      split
      · obtain ⟨hlast, heq⟩ := ih (packed ++ [join "\n\n" group]) [unit] (List.cons_ne_nil _ _)
          (by simpa using hunit) hunits
        refine ⟨hlast, heq.trans ?_⟩
        rw [List.map_cons, List.append_assoc, List.singleton_append]
      · refine ih packed (group ++ [unit]) (by simp) (fun u hu => ?_) hunits
        rcases List.mem_append.mp hu with hu | hu
        · exact hgroup u hu
        · exact List.mem_singleton.mp hu ▸ hunit

/-- **The units are packed into chunks.** -/
theorem packUnits_eq {units : List Text} (hunits : ∀ unit ∈ units, unit ≠ []) (maxChars : Nat) :
    packUnits units maxChars = (pack "\n\n" maxChars units).map (join "\n\n") := by
  rw [packUnits]
  cases units with
  | nil => rfl
  | cons unit units =>
      obtain ⟨hunit, hunits⟩ := List.forall_mem_cons.mp hunits
      have hstart : addUnit maxChars ⟨[], []⟩ unit = ⟨[], join "\n\n" [unit]⟩ := by
        simp [addUnit, join]
      obtain ⟨hcurrent, heq⟩ := foldl_addUnit maxChars units [] [unit] (List.cons_ne_nil _ _)
        (by simpa using hunit) hunits
      rw [List.foldl_cons, hstart, if_pos hcurrent, heq, List.nil_append, pack]

/-! ## What chunks are -/

section
variable [Runtime]

omit [Runtime] in
theorem blankLine_reads : blankLine.Reads isSpace := by
  have hnewline : ∀ c : Char, (c == '\n') = true → isSpace c = true := fun c hc => by
    obtain rfl := beq_iff_eq.mp hc
    decide
  exact ⟨hnewline, fun c hc => hc, hnewline⟩

theorem mem_paragraphs {content part : Text} (h : part ∈ paragraphs content) : part ≠ [] :=
  of_decide_eq_true (List.mem_filter.mp h).2

/-- The paragraphs keep the words of a document. -/
theorem words_paragraphs (content : Text) : (paragraphs content).flatMap words = content.words := by
  have hgen : ∀ parts : List Text,
      ((parts.map strip).filter fun part => part ≠ []).flatMap words = parts.flatMap words := by
    intro parts
    induction parts with
    | nil => rfl
    | cons part parts ih =>
        rw [List.map_cons, List.flatMap_cons, ← words_strip part, ← ih]
        by_cases hpart : part.strip = []
        · rw [List.filter_cons, if_neg (by simp [hpart]), hpart, words_nil, List.nil_append]
        · rw [List.filter_cons, if_pos (by simp [hpart]), List.flatMap_cons]
  rw [paragraphs, hgen, Regex.words_split blankLine_reads]

omit [Runtime] in
/-- The lines of a paragraph keep its words. -/
theorem words_splitOversizedParagraph (paragraph : Text) (maxChars : Nat) :
    (splitOversizedParagraph paragraph maxChars).flatMap words = paragraph.words := by
  have hsolid : paragraph.words.flatMap words = paragraph.words :=
    flatMap_words_of_solid fun w hw => mem_words hw
  rw [splitOversizedParagraph_eq, words_groups (by decide) (blank_of_all (by decide)), pack_flatten,
    hsolid]

omit [Runtime] in
/-- A line is not empty, and one that is too long is a word. -/
theorem splitOversizedParagraph_bounded {paragraph part : Text} {maxChars : Nat}
    (h : part ∈ splitOversizedParagraph paragraph maxChars) :
    part ≠ [] ∧ (part.length ≤ maxChars ∨ ∀ c ∈ part, isSpace c = false) := by
  rw [splitOversizedParagraph_eq] at h
  obtain ⟨group, hgroup, rfl⟩ := List.mem_map.mp h
  have hword : ∀ w ∈ group, w ≠ [] ∧ ∀ c ∈ w, isSpace c = false := fun w hw => by
    refine mem_words (s := paragraph) ?_
    rw [← @pack_flatten " " maxChars paragraph.words]
    exact List.mem_flatten.mpr ⟨group, hgroup, hw⟩
  have hfits := pack_fits _ group hgroup
  refine ⟨join_ne_nil hfits.ne_nil fun w hw => (hword w hw).1, ?_⟩
  rcases hfits with ⟨item, rfl⟩ | ⟨-, hle⟩
  · exact .inr (hword item List.mem_cons_self).2
  · exact .inl hle

/-- A unit is not empty, and one that is too long is a word. -/
theorem documentUnits_bounded {content unit : Text} {maxChars : Nat}
    (h : unit ∈ documentUnits content maxChars) :
    unit ≠ [] ∧ (unit.length ≤ maxChars ∨ ∀ c ∈ unit, isSpace c = false) := by
  obtain ⟨paragraph, hparagraph, hunit⟩ := List.mem_flatMap.mp h
  by_cases hle : paragraph.length ≤ maxChars
  · rw [if_pos hle, List.mem_singleton] at hunit
    subst hunit
    exact ⟨mem_paragraphs hparagraph, .inl hle⟩
  · rw [if_neg hle] at hunit
    exact splitOversizedParagraph_bounded hunit

/-- The units keep the words of a document. -/
theorem words_documentUnits (content : Text) (maxChars : Nat) :
    (documentUnits content maxChars).flatMap words = content.words := by
  rw [← words_paragraphs, documentUnits, List.flatMap_assoc]
  refine List.flatMap_congr fun paragraph _ => ?_
  by_cases hle : paragraph.length ≤ maxChars
  · rw [if_pos hle, List.flatMap_singleton]
  · rw [if_neg hle, words_splitOversizedParagraph]

variable {Digest : Type} (contentHash : Text → Digest) (content : Text) (maxChars : Nat)

theorem chunkDocument_indices : (chunkDocument contentHash content maxChars).map (·.chunkIndex) =
    List.range (chunkDocument contentHash content maxChars).length := by
  rw [chunkDocument, List.map_map, List.length_map, List.length_zipIdx, List.range_eq_range']
  exact List.zipIdx_map_snd 0 _

theorem chunkDocument_hashes {chunk : KnowledgeChunk Digest}
    (h : chunk ∈ chunkDocument contentHash content maxChars) :
    chunk.contentHash = contentHash chunk.content := by
  obtain ⟨e, -, rfl⟩ := List.mem_map.mp h
  rfl

/-- The groups of units that make up the chunks. -/
def chunkGroups : List (List Text) := pack "\n\n" maxChars (documentUnits content maxChars)

theorem chunkDocument_contents : (chunkDocument contentHash content maxChars).map (·.content) =
    (chunkGroups content maxChars).map (join "\n\n") := by
  rw [chunkDocument, List.map_map, chunkGroups,
    ← packUnits_eq fun unit h => (documentUnits_bounded h).1]
  exact List.zipIdx_map_fst 0 _

theorem mem_documentUnits_of_group {content : Text} {maxChars : Nat} {group : List Text}
    (hgroup : group ∈ chunkGroups content maxChars) {unit : Text} (hunit : unit ∈ group) :
    unit ∈ documentUnits content maxChars := by
  rw [← @pack_flatten "\n\n" maxChars (documentUnits content maxChars)]
  exact List.mem_flatten.mpr ⟨group, hgroup, hunit⟩

/-- A chunk joins the units of a group. -/
theorem mem_chunkDocument {contentHash : Text → Digest} {content : Text} {maxChars : Nat}
    {chunk : KnowledgeChunk Digest} (h : chunk ∈ chunkDocument contentHash content maxChars) :
    ∃ group ∈ chunkGroups content maxChars, chunk.content = join "\n\n" group := by
  obtain ⟨group, hgroup, heq⟩ := List.mem_map.mp
    (chunkDocument_contents contentHash content maxChars ▸ List.mem_map_of_mem h)
  exact ⟨group, hgroup, heq.symm⟩

theorem chunkDocument_nonempty {contentHash : Text → Digest} {content : Text} {maxChars : Nat}
    {chunk : KnowledgeChunk Digest} (h : chunk ∈ chunkDocument contentHash content maxChars) :
    chunk.content ≠ [] := by
  obtain ⟨group, hgroup, heq⟩ := mem_chunkDocument h
  rw [heq]
  exact join_ne_nil (pack_fits _ group hgroup).ne_nil fun unit hunit =>
    (documentUnits_bounded (mem_documentUnits_of_group hgroup hunit)).1

theorem words_chunkDocument : (chunkDocument contentHash content maxChars).flatMap
    (fun chunk => chunk.content.words) = content.words := by
  have hgroups := @words_groups "\n\n" (by decide) (blank_of_all (by decide))
    (chunkGroups content maxChars)
  have hflatten : (chunkGroups content maxChars).flatten = documentUnits content maxChars :=
    pack_flatten _
  rw [hflatten, words_documentUnits, ← chunkDocument_contents contentHash, List.flatMap_map] at hgroups
  exact hgroups

/-- A document without a word has no chunk. -/
theorem chunkDocument_eq_nil {contentHash : Text → Digest} {content : Text} {maxChars : Nat} :
    chunkDocument contentHash content maxChars = [] ↔ Blank content := by
  constructor
  · intro h
    rw [← words_eq_nil, ← words_chunkDocument contentHash content maxChars, h, List.flatMap_nil]
  · intro h
    have hwords := words_paragraphs content
    rw [words_eq_nil.mpr h, List.flatMap_eq_nil_iff] at hwords
    have hparagraphs : paragraphs content = [] := by
      refine List.eq_nil_iff_forall_not_mem.mpr fun part hpart => mem_paragraphs hpart ?_
      obtain ⟨piece, -, rfl⟩ := List.mem_map.mp (List.mem_filter.mp hpart).1
      exact strip_of_blank (words_eq_nil.mp (words_strip piece ▸ hwords _ hpart))
    rw [chunkDocument, documentUnits, hparagraphs]
    rfl

/-- A chunk that is too long is a word. -/
theorem chunkDocument_bounded {contentHash : Text → Digest} {content : Text} {maxChars : Nat}
    {chunk : KnowledgeChunk Digest} (h : chunk ∈ chunkDocument contentHash content maxChars)
    (hlong : maxChars < chunk.content.length) : chunk.content.words = [chunk.content] := by
  obtain ⟨group, hgroup, heq⟩ := mem_chunkDocument h
  rw [heq] at hlong ⊢
  rcases pack_fits _ group hgroup with ⟨unit, rfl⟩ | ⟨-, hle⟩
  · obtain ⟨hne, hbound⟩ :=
      documentUnits_bounded (mem_documentUnits_of_group hgroup List.mem_cons_self)
    rw [join] at hlong ⊢
    rcases hbound with hle | hsolid
    · omega
    · exact words_of_solid hne hsolid
  · omega

/-- A chunking of a document: the words are kept in their order, the bound is kept by all chunks
but single words, and each chunk is as long as the bound lets it be. -/
structure Chunked (chunks : List (KnowledgeChunk Digest)) : Prop where
  indices : chunks.map (·.chunkIndex) = List.range chunks.length
  hashes : ∀ chunk ∈ chunks, chunk.contentHash = contentHash chunk.content
  nonempty : ∀ chunk ∈ chunks, chunk.content ≠ []
  lossless : chunks.flatMap (fun chunk => chunk.content.words) = content.words
  bounded : ∀ chunk ∈ chunks, maxChars < chunk.content.length →
    chunk.content.words = [chunk.content]
  /-- The chunks join the units of the document, and the first unit of a chunk did not fit the
  chunk before it. -/
  packed : ∃ groups : List (List Text), groups.flatten = documentUnits content maxChars ∧
    chunks.map (·.content) = groups.map (join "\n\n") ∧
    groups.IsChain fun group next => ∃ unit, next.head? = some unit ∧
      maxChars < (join "\n\n" group ++ "\n\n" ++ unit).length

/-- **Chunking is lossless, ordered and bounded.** -/
theorem chunked_chunkDocument :
    Chunked contentHash content maxChars (chunkDocument contentHash content maxChars) where
  indices := chunkDocument_indices contentHash content maxChars
  hashes _ := chunkDocument_hashes contentHash content maxChars
  nonempty _ := chunkDocument_nonempty
  lossless := words_chunkDocument contentHash content maxChars
  bounded _ := chunkDocument_bounded
  packed := ⟨chunkGroups content maxChars, pack_flatten _,
    chunkDocument_contents contentHash content maxChars, pack_full _⟩

end

end SupportPlatform
