import SupportPlatform.Regex

/-! # Words, splits and packing

`words` is `str.split()`, and `Regex.split` is `re.split`.  Everything about words follows from
one equation, `words_append_space`: the words of a text are the words before and after a white
space.  So stripping, joining with white space, and splitting at a pattern that reads white
space only all keep the words of a text.

`pack` puts items into groups, from the left, as long as a group joined with the next item is not
too long.  `pack_flatten`, `pack_fits` and `pack_full` are what that guarantees.
-/
namespace SupportPlatform
namespace Text

/-- `s.split()`. -/
def words (s : Text) : List Text := runs (fun c => !isSpace c) s

/-! ## Runs -/

section
variable {p : Char → Bool}

theorem runs_cons_of_not {c : Char} (hc : p c = false) (s : Text) : runs p (c :: s) = runs p s := by
  rw [runs.eq_def p (c :: s)]
  exact if_neg (by rw [hc]; exact Bool.false_ne_true)

theorem runs_ne_nil {c : Char} (hc : p c = true) (s : Text) : runs p (c :: s) ≠ [] := by
  unfold runs
  rw [if_pos hc]
  split
  · exact List.cons_ne_nil _ _
  · split
    · split
      · exact List.cons_ne_nil _ _
      · exact List.cons_ne_nil _ _
    · exact List.cons_ne_nil _ _

/-- A character of the class goes to the run that follows it, or is one of its own. -/
theorem runs_cons_cons {c d : Char} (hc : p c = true) (s : Text) :
    runs p (c :: d :: s) = if p d then ((c :: (runs p (d :: s)).headD []) :: (runs p (d :: s)).tail)
      else [c] :: runs p (d :: s) := by
  rw [runs, if_pos hc]
  by_cases hd : p d = true
  · rw [if_pos hd, if_pos hd]
    cases hr : runs p (d :: s) with
    | nil => exact absurd hr (runs_ne_nil hd s)
    | cons run rest => rfl
  · rw [if_neg hd, if_neg hd]

/-- **Runs on both sides of a character that is in none.** -/
theorem runs_append_cons {c : Char} (hc : p c = false) (s t : Text) :
    runs p (s ++ c :: t) = runs p s ++ runs p t := by
  induction s with
  | nil => exact runs_cons_of_not hc t
  | cons a s ih =>
      by_cases ha : p a = true
      · cases s with
        | nil =>
            rw [List.singleton_append, runs_cons_cons ha, if_neg (by rw [hc]; exact Bool.false_ne_true),
              runs_cons_of_not hc, runs, if_pos ha]
            rfl
        | cons b s =>
            rw [List.cons_append, List.cons_append, runs_cons_cons ha, runs_cons_cons ha]
            rw [List.cons_append] at ih
            by_cases hb : p b = true
            · rw [if_pos hb, if_pos hb, ih]
              cases hr : runs p (b :: s) with
              | nil => exact absurd hr (runs_ne_nil hb s)
              | cons run rest => rfl
            · rw [if_neg hb, if_neg hb, ih]
              rfl
      · have ha := Bool.eq_false_iff.mpr ha
        rw [List.cons_append, runs_cons_of_not ha, runs_cons_of_not ha, ih]

theorem runs_of_all {s : Text} (hne : s ≠ []) (h : ∀ c ∈ s, p c = true) : runs p s = [s] := by
  induction s with
  | nil => exact absurd rfl hne
  | cons a s ih =>
      have ha := h a List.mem_cons_self
      cases s with
      | nil =>
          rw [runs, if_pos ha]
      | cons b s =>
          have ih := ih (List.cons_ne_nil b s) fun c hc => h c (List.mem_cons_of_mem a hc)
          rw [runs_cons_cons ha, if_pos (h b (by simp)), ih]
          rfl

/-- A run is not empty, and of characters of the class only. -/
theorem mem_runs {s w : Text} (h : w ∈ runs p s) : w ≠ [] ∧ ∀ c ∈ w, p c = true := by
  induction s generalizing w with
  | nil => cases h
  | cons a s ih =>
      by_cases ha : p a = true
      · cases s with
        | nil =>
            rw [runs, if_pos ha] at h
            obtain rfl := List.mem_singleton.mp h
            exact ⟨List.cons_ne_nil _ _, fun c hc => List.mem_singleton.mp hc ▸ ha⟩
        | cons b s =>
            rw [runs_cons_cons ha] at h
            by_cases hb : p b = true
            · rw [if_pos hb] at h
              cases hr : runs p (b :: s) with
              | nil => exact absurd hr (runs_ne_nil hb s)
              | cons run rest =>
                  rw [hr] at h ih
                  rcases List.mem_cons.mp h with rfl | h
                  · refine ⟨List.cons_ne_nil _ _, fun c hc => ?_⟩
                    rcases List.mem_cons.mp hc with rfl | hc
                    · exact ha
                    · exact (ih List.mem_cons_self).2 c hc
                  · exact ih (List.mem_cons_of_mem run h)
            · rw [if_neg hb] at h
              rcases List.mem_cons.mp h with rfl | h
              · exact ⟨List.cons_ne_nil _ _, fun c hc => List.mem_singleton.mp hc ▸ ha⟩
              · exact ih h
      · rw [runs_cons_of_not (Bool.eq_false_iff.mpr ha)] at h
        exact ih h

end

/-! ## Words -/

/-- A text of white space. -/
def Blank (s : Text) : Prop := ∀ c ∈ s, isSpace c = true

theorem blank_of_all {s : Text} (h : s.all isSpace = true) : Blank s := List.all_eq_true.mp h

theorem words_append_space {c : Char} (hc : isSpace c = true) (s t : Text) :
    words (s ++ c :: t) = words s ++ words t := runs_append_cons (by simp [hc]) s t

@[simp] theorem words_nil : words [] = [] := rfl

theorem words_cons_space {c : Char} (hc : isSpace c = true) (s : Text) : words (c :: s) = words s :=
  words_append_space hc [] s

theorem words_blank_append {space : Text} (h : Blank space) (s : Text) :
    words (space ++ s) = words s := by
  induction space with
  | nil => rfl
  | cons c space ih =>
      rw [List.cons_append, words_cons_space (h c List.mem_cons_self)]
      exact ih fun d hd => h d (List.mem_cons_of_mem c hd)

theorem words_append_blank {space : Text} (h : Blank space) (s : Text) :
    words (s ++ space) = words s := by
  cases space with
  | nil => rw [List.append_nil]
  | cons c space =>
      have hspace : words (space ++ []) = words [] :=
        words_blank_append (fun d hd => h d (List.mem_cons_of_mem c hd)) []
      rw [List.append_nil] at hspace
      rw [words_append_space (h c List.mem_cons_self), hspace, words_nil, List.append_nil]

/-- **Words on both sides of white space.** -/
theorem words_append_blank_append {space : Text} (hne : space ≠ []) (h : Blank space) (s t : Text) :
    words (s ++ space ++ t) = words s ++ words t := by
  cases space with
  | nil => exact absurd rfl hne
  | cons c space =>
      rw [List.append_assoc, List.cons_append, words_append_space (h c List.mem_cons_self),
        words_blank_append fun d hd => h d (List.mem_cons_of_mem c hd)]

theorem words_of_solid {w : Text} (hne : w ≠ []) (h : ∀ c ∈ w, isSpace c = false) : words w = [w] :=
  runs_of_all hne fun c hc => by rw [h c hc]; rfl

/-- A word is not empty, and without white space. -/
theorem mem_words {s w : Text} (h : w ∈ words s) : w ≠ [] ∧ ∀ c ∈ w, isSpace c = false := by
  obtain ⟨hne, hall⟩ := mem_runs h
  exact ⟨hne, fun c hc => by simpa using hall c hc⟩

/-- Texts are joined with white space, and keep their words. -/
theorem words_join {space : Text} (hne : space ≠ []) (h : Blank space) (parts : List Text) :
    words (join space parts) = parts.flatMap words := by
  induction parts with
  | nil => rfl
  | cons s parts ih =>
      cases parts with
      | nil => rw [join, List.flatMap_singleton]
      | cons t rest =>
          rw [join, words_append_blank_append hne h, ih]
          rfl

/-- Groups of texts are joined, and keep their words. -/
theorem words_groups {space : Text} (hne : space ≠ []) (h : Blank space) (groups : List (List Text)) :
    (groups.map (join space)).flatMap words = groups.flatten.flatMap words := by
  induction groups with
  | nil => rfl
  | cons group groups ih =>
      rw [List.map_cons, List.flatMap_cons, List.flatten_cons, List.flatMap_append, ih,
        words_join hne h]

theorem flatMap_words_of_solid {ws : List Text} (h : ∀ w ∈ ws, w ≠ [] ∧ ∀ c ∈ w, isSpace c = false) :
    ws.flatMap words = ws := by
  induction ws with
  | nil => rfl
  | cons w ws ih =>
      obtain ⟨hne, hsolid⟩ := h w List.mem_cons_self
      rw [List.flatMap_cons, words_of_solid hne hsolid, ih fun v hv => h v (List.mem_cons_of_mem w hv)]
      rfl

theorem mem_takeWhile {p : Char → Bool} {s : Text} {c : Char} (h : c ∈ s.takeWhile p) : p c = true :=
  List.all_eq_true.mp List.all_takeWhile c h

/-- What is stripped off is white space. -/
theorem strip_eq (s : Text) : ∃ left right, Blank left ∧ Blank right ∧ s = left ++ s.strip ++ right := by
  refine ⟨s.takeWhile isSpace, ((s.dropWhile isSpace).reverse.takeWhile isSpace).reverse,
    fun c hc => mem_takeWhile hc, fun c hc => ?_, ?_⟩
  · exact mem_takeWhile (List.mem_reverse.mp hc)
  · rw [strip, List.append_assoc, ← List.reverse_append, List.takeWhile_append_dropWhile,
      List.reverse_reverse, List.takeWhile_append_dropWhile]

theorem words_strip (s : Text) : words s.strip = words s := by
  obtain ⟨left, right, hleft, hright, heq⟩ := strip_eq s
  conv_rhs => rw [heq]
  rw [words_append_blank hright, words_blank_append hleft]

theorem words_eq_nil {s : Text} : words s = [] ↔ Blank s := by
  constructor
  · intro h
    induction s with
    | nil => exact nofun
    | cons c s ih =>
        by_cases hc : isSpace c = true
        · rw [words_cons_space hc] at h
          exact List.forall_mem_cons.mpr ⟨hc, ih h⟩
        · exact absurd h (runs_ne_nil (by simp [hc]) s)
  · exact fun h => words_append_blank h []

theorem strip_of_blank {s : Text} (h : Blank s) : s.strip = [] := by
  have hdrop : s.dropWhile isSpace = [] := by
    induction s with
    | nil => rfl
    | cons c s ih =>
        obtain ⟨hc, h⟩ := List.forall_mem_cons.mp h
        rw [List.dropWhile_cons_of_pos hc, ih h]
  rw [strip, hdrop]
  rfl

/-- Replacing white space by white space. -/
theorem blank_replace {old new : Text} (hne : old ≠ []) (hold : Blank old) (hnew : Blank new)
    (s : Text) : Blank (s.replace old new) ↔ Blank s := by
  have hgen : ∀ (s : Text) (skip : Nat),
      Blank (replaceFrom old new skip s) ↔ Blank (s.drop skip) := by
    intro s
    induction s with
    | nil => intro skip; cases skip <;> exact Iff.rfl
    | cons c s ih =>
        intro skip
        cases skip with
        | succ skip => exact ih skip
        | zero =>
            rw [replaceFrom, List.drop_zero]
            by_cases hprefix : old.isPrefixOf (c :: s) = true
            · obtain ⟨rest, hrest⟩ := List.isPrefixOf_iff_prefix.mp hprefix
              obtain ⟨d, old', rfl⟩ := List.exists_cons_of_ne_nil hne
              have hdrop : s.drop old'.length = rest := by
                rw [← (List.cons.inj hrest).2]
                exact List.drop_left
              rw [if_pos hprefix, ← hrest, Blank, List.forall_mem_append, Blank,
                List.forall_mem_append]
              exact ⟨fun h => ⟨hold, hdrop ▸ (ih old'.length).mp h.2⟩,
                fun h => ⟨hnew, (ih old'.length).mpr (hdrop.symm ▸ h.2)⟩⟩
            · rw [if_neg hprefix, Blank, List.forall_mem_cons, Blank, List.forall_mem_cons]
              exact and_congr_right fun _ => ih 0
  exact hgen s 0

end Text

/-! ## Splits -/

namespace Regex
open Text

/-- The pattern reads characters of class `p` only. -/
def Reads (p : Char → Bool) : Regex → Prop
  | char q => ∀ c, q c = true → p c = true
  | rep q _ _ => ∀ c, q c = true → p c = true
  | seq a b => a.Reads p ∧ b.Reads p
  | alt a b => a.Reads p ∧ b.Reads p
  | boundary => True

section
variable [Runtime] {p : Char → Bool}

theorem mem_take_of_ends : ∀ (r : Regex), r.Reads p → ∀ (prev : Option Char) (s : Text) (n : Nat),
    n ∈ r.ends prev s → ∀ c ∈ s.take n, p c = true
  | char q, h, prev, s, n, hn, c, hc => by
      rw [ends] at hn
      cases s with
      | nil => simp at hc
      | cons d s =>
          by_cases hq : q d = true
          · simp [hq] at hn
            subst n
            rw [List.take_succ_cons, List.take_zero, List.mem_singleton] at hc
            exact hc ▸ h d hq
          · simp [hq] at hn
  | rep q low max, h, prev, s, n, hn, c, hc => by
      have hle : n ≤ (s.takeWhile q).length := Nat.le_trans (mem_down hn).2 (run_le q max s)
      rw [← List.takeWhile_append_dropWhile (p := q) (l := s), List.take_append_of_le_length hle] at hc
      exact h c (mem_takeWhile (List.mem_of_mem_take hc))
  | seq a b, h, prev, s, n, hn, c, hc => by
      obtain ⟨i, hi, hmap⟩ := List.mem_flatMap.mp hn
      obtain ⟨j, hj, rfl⟩ := List.mem_map.mp hmap
      rw [List.take_add, List.mem_append] at hc
      rcases hc with hc | hc
      · exact mem_take_of_ends a h.1 prev s i hi c hc
      · exact mem_take_of_ends b h.2 _ _ j hj c hc
  | alt a b, h, prev, s, n, hn, c, hc => by
      rcases List.mem_append.mp hn with ha | hb
      · exact mem_take_of_ends a h.1 prev s n ha c hc
      · exact mem_take_of_ends b h.2 prev s n hb c hc
  | boundary, _, prev, s, n, hn, c, hc => by
      rw [ends] at hn
      split at hn
      · obtain rfl := List.mem_singleton.mp hn
        simp at hc
      · cases hn

/-- The parts between the matches, from left to right.  `skip` counts the characters of a match
that has been passed already. -/
def splitFrom (r : Regex) : Option Char → Nat → Text → List Text
  | _, _, [] => [[]]
  | _, skip + 1, c :: s => r.splitFrom (some c) skip s
  | prev, 0, c :: s =>
      match r.matchAt prev (c :: s) with
      | some (n + 1) => [] :: r.splitFrom (some c) n s
      | _ => (r.splitFrom (some c) 0 s).modifyHead (c :: ·)

/-- `pattern.split(s)`. -/
def split (r : Regex) (s : Text) : List Text := r.splitFrom none 0 s

/-- What splitting makes of a text: of one that continues a part, and of one that begins with the
rest of a match. -/
theorem words_splitFrom {r : Regex} (h : r.Reads isSpace) (s : Text) :
    (∀ (prev : Option Char) (taken : Text),
      ((r.splitFrom prev 0 s).modifyHead (taken ++ ·)).flatMap words = words (taken ++ s)) ∧
    ∀ (prev : Option Char) (skip : Nat), Blank (s.take skip) →
      (r.splitFrom prev skip s).flatMap words = words s := by
  induction s with
  | nil =>
      refine ⟨fun prev taken => ?_, fun prev skip _ => ?_⟩
      · rw [splitFrom, List.modifyHead_cons, List.flatMap_singleton]
      · rw [splitFrom, List.flatMap_singleton]
  | cons c s ih =>
      obtain ⟨ihbegun, ihskip⟩ := ih
      have hbegun : ∀ (prev : Option Char) (taken : Text),
          ((r.splitFrom prev 0 (c :: s)).modifyHead (taken ++ ·)).flatMap words =
            words (taken ++ c :: s) := by
        intro prev taken
        rw [splitFrom]
        split
        · rename_i n hmatch
          have hblank := mem_take_of_ends r h prev (c :: s) (n + 1) (List.mem_of_mem_head? hmatch)
          rw [List.take_succ_cons, List.forall_mem_cons] at hblank
          rw [List.modifyHead_cons, List.append_nil, List.flatMap_cons, ihskip (some c) n hblank.2,
            words_append_space hblank.1]
        · have hmodify : ((r.splitFrom (some c) 0 s).modifyHead (c :: ·)).modifyHead (taken ++ ·) =
              (r.splitFrom (some c) 0 s).modifyHead ((taken ++ [c]) ++ ·) := by
            cases r.splitFrom (some c) 0 s with
            | nil => rfl
            | cons part parts => simp
          rw [hmodify, ihbegun (some c) (taken ++ [c]), List.append_assoc, List.singleton_append]
      refine ⟨hbegun, fun prev skip hblank => ?_⟩
      cases skip with
      | zero =>
          have hall := hbegun prev []
          rw [List.nil_append] at hall
          rw [← hall]
          cases r.splitFrom prev 0 (c :: s) with
          | nil => rfl
          | cons part parts => rfl
      | succ skip =>
          rw [List.take_succ_cons, Blank, List.forall_mem_cons] at hblank
          rw [splitFrom, ihskip (some c) skip hblank.2, words_cons_space hblank.1]

/-- **Splitting at white space keeps the words.** -/
theorem words_split {r : Regex} (h : r.Reads isSpace) (s : Text) :
    (r.split s).flatMap words = words s :=
  (words_splitFrom h s).2 none 0 (by simp [Blank])

end

end Regex

/-! ## Packing -/

namespace Text

/-- Items that are put into groups from the left: an item goes to the group before it unless the
two are too long together, joined by the separator. -/
def packFrom (separator : Text) (max : Nat) : List Text → List Text → List (List Text)
  | group, [] => [group]
  | group, item :: items =>
      if max < (join separator (group ++ [item])).length then
        group :: packFrom separator max [item] items
      else packFrom separator max (group ++ [item]) items

def pack (separator : Text) (max : Nat) : List Text → List (List Text)
  | [] => []
  | item :: items => packFrom separator max [item] items

variable {separator : Text} {max : Nat}

theorem join_append_singleton {parts : List Text} (hne : parts ≠ []) (s : Text) :
    join separator (parts ++ [s]) = join separator parts ++ separator ++ s := by
  induction parts with
  | nil => exact absurd rfl hne
  | cons t parts ih =>
      cases parts with
      | nil => rfl
      | cons u rest =>
          have ih := ih (List.cons_ne_nil u rest)
          rw [List.cons_append] at ih
          rw [List.cons_append, List.cons_append, join, ih, join]
          simp only [List.append_assoc]

theorem join_ne_nil {parts : List Text} (hne : parts ≠ []) (h : ∀ s ∈ parts, s ≠ []) :
    join separator parts ≠ [] := by
  cases parts with
  | nil => exact absurd rfl hne
  | cons s parts =>
      have hs := h s List.mem_cons_self
      cases parts with
      | nil => exact hs
      | cons t rest =>
          rw [join, List.append_assoc]
          exact List.append_ne_nil_of_left_ne_nil hs _

/-- The group that is being filled is the beginning of the first one. -/
theorem packFrom_eq_cons (group items : List Text) :
    ∃ more groups, packFrom separator max group items = (group ++ more) :: groups := by
  induction items generalizing group with
  | nil => exact ⟨[], [], by rw [packFrom, List.append_nil]⟩
  | cons item items ih =>
      rw [packFrom]
      split
      · exact ⟨[], _, by rw [List.append_nil]⟩
      · obtain ⟨more, groups, heq⟩ := ih (group ++ [item])
        exact ⟨item :: more, groups, by rw [heq, List.append_assoc, List.singleton_append]⟩

/-- **Packing keeps the items**, in their order. -/
theorem flatten_packFrom (group items : List Text) :
    (packFrom separator max group items).flatten = group ++ items := by
  induction items generalizing group with
  | nil => rw [packFrom, List.flatten_singleton, List.append_nil]
  | cons item items ih =>
      rw [packFrom]
      split
      · rw [List.flatten_cons, ih, List.singleton_append]
      · rw [ih, List.append_assoc, List.singleton_append]

theorem pack_flatten (items : List Text) : (pack separator max items).flatten = items := by
  cases items with
  | nil => rfl
  | cons item items => exact flatten_packFrom [item] items

/-- A group that is not too long, or of one item. -/
def Fits (separator : Text) (max : Nat) (group : List Text) : Prop :=
  (∃ item, group = [item]) ∨ group ≠ [] ∧ (join separator group).length ≤ max

theorem Fits.ne_nil {group : List Text} (h : Fits separator max group) : group ≠ [] := by
  rcases h with ⟨item, rfl⟩ | h
  · exact List.cons_ne_nil _ _
  · exact h.1

/-- **What is packed fits.** -/
theorem packFrom_fits {group : List Text} (hgroup : Fits separator max group) (items : List Text) :
    ∀ g ∈ packFrom separator max group items, Fits separator max g := by
  induction items generalizing group with
  | nil => exact fun g hg => List.mem_singleton.mp hg ▸ hgroup
  | cons item items ih =>
      rw [packFrom]
      split
      · intro g hg
        rcases List.mem_cons.mp hg with rfl | hg
        · exact hgroup
        · exact ih (.inl ⟨item, rfl⟩) g hg
      · rename_i hle
        exact ih (.inr ⟨by simp, Nat.not_lt.mp hle⟩)

theorem pack_fits (items : List Text) : ∀ g ∈ pack separator max items, Fits separator max g := by
  cases items with
  | nil => exact nofun
  | cons item items => exact packFrom_fits (.inl ⟨item, rfl⟩) items

/-- The first item of the next group would have been too much for the group. -/
def Full (separator : Text) (max : Nat) (group next : List Text) : Prop :=
  ∃ item, next.head? = some item ∧ max < (join separator group ++ separator ++ item).length

/-- **No group could have been filled further.** -/
theorem packFrom_full {group : List Text} (hgroup : group ≠ []) (items : List Text) :
    (packFrom separator max group items).IsChain (Full separator max) := by
  induction items generalizing group with
  | nil => exact .singleton _
  | cons item items ih =>
      rw [packFrom]
      split
      · rename_i hlong
        have htail := ih (List.cons_ne_nil item [])
        obtain ⟨more, groups, heq⟩ := @packFrom_eq_cons separator max [item] items
        rw [heq] at htail ⊢
        refine .cons_cons ⟨item, rfl, ?_⟩ htail
        rwa [← join_append_singleton hgroup]
      · exact ih (by simp)

theorem pack_full (items : List Text) :
    (pack separator max items).IsChain (Full separator max) := by
  cases items with
  | nil => exact .nil
  | cons item items => exact packFrom_full (List.cons_ne_nil item []) items

end Text

end SupportPlatform
