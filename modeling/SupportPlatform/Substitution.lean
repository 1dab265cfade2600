import SupportPlatform.Regex

/-! # What a substitution leaves to be matched

`Takes` reads the matcher as a relation: which texts a pattern can match in which context.
`Replaces` reads `sub` the same way: a text is kept character by character, and matches are
swapped for the new text.  Together they say when no match of one pattern appears where another
one was replaced (`Replaces.exists_kept`): a match of the result must come from a match of the
text, and must not start inside the new text.
-/
namespace SupportPlatform.Regex

section
variable [Runtime]

/-! ## Texts that a pattern takes -/

/-- The pattern can match `w`, between `prev` and `rest`. -/
def Takes (r : Regex) (prev : Option Char) (w rest : Text) : Prop :=
  w.length ∈ r.ends prev (w ++ rest)

theorem length_le_of_mem_ends : ∀ (r : Regex) (prev : Option Char) (s : Text) (n : Nat),
    n ∈ r.ends prev s → n ≤ s.length
  | char p, _, s, n, h => by
      rw [ends] at h
      cases s with
      | nil => simp at h
      | cons c s =>
          split at h
          · rw [List.mem_singleton.mp h]
            exact Nat.succ_le_succ (Nat.zero_le _)
          · cases h
  | rep p low max, _, s, n, h =>
      Nat.le_trans (mem_down h).2 (Nat.le_trans (run_le p max s) (List.takeWhile_prefix p).length_le)
  | seq a b, prev, s, n, h => by
      obtain ⟨i, hi, hmap⟩ := List.mem_flatMap.mp h
      obtain ⟨j, hj, rfl⟩ := List.mem_map.mp hmap
      have hfirst := length_le_of_mem_ends a prev s i hi
      have hsecond := length_le_of_mem_ends b _ _ j hj
      rw [List.length_drop] at hsecond
      omega
  | alt a b, prev, s, n, h => by
      rcases List.mem_append.mp h with h | h
      · exact length_le_of_mem_ends a prev s n h
      · exact length_le_of_mem_ends b prev s n h
  | boundary, prev, s, n, h => by
      rw [ends] at h
      split at h
      · rw [List.mem_singleton.mp h]
        exact Nat.zero_le _
      · cases h

/-- A length that the matcher tries is the length of a text that the pattern takes. -/
theorem takes_of_mem_ends {r : Regex} {prev : Option Char} {s : Text} {n : Nat}
    (h : n ∈ r.ends prev s) : r.Takes prev (s.take n) (s.drop n) := by
  have hlength : (s.take n).length = n := by
    rw [List.length_take, Nat.min_eq_left (length_le_of_mem_ends r prev s n h)]
  rw [Takes, List.take_append_drop, hlength]
  exact h

variable {prev : Option Char} {w rest : Text}

theorem takes_char {p : Char → Bool} : (char p).Takes prev w rest ↔ ∃ c, w = [c] ∧ p c = true := by
  rw [Takes, ends]
  constructor
  · intro h
    split at h
    · rename_i hp
      obtain ⟨c, rfl⟩ := List.length_eq_one_iff.mp (List.mem_singleton.mp h)
      exact ⟨c, rfl, by simpa using hp⟩
    · cases h
  · rintro ⟨c, rfl, hc⟩
    simp [hc]

section
omit [Runtime]

theorem mem_down_iff {high low n : Nat} : n ∈ down high low ↔ low ≤ n ∧ n ≤ high := by
  refine ⟨mem_down, fun ⟨hlow, hhigh⟩ => List.mem_map.mpr ⟨high - n, ?_, ?_⟩⟩
  · rw [List.mem_range]
    omega
  · omega

theorem le_run_iff {p : Char → Bool} {max : Option Nat} {s : Text} {n : Nat} :
    n ≤ run p max s ↔ (∀ m ∈ max, n ≤ m) ∧ n ≤ (s.takeWhile p).length := by
  cases max with
  | none => simp [run]
  | some m =>
      rw [run, Nat.le_min]
      simp

theorem length_le_takeWhile {p : Char → Bool} :
    w.length ≤ ((w ++ rest).takeWhile p).length ↔ ∀ c ∈ w, p c = true := by
  induction w with
  | nil => simp
  | cons c w ih =>
      rw [List.cons_append, List.forall_mem_cons, ← ih]
      by_cases hc : p c = true
      · rw [List.takeWhile_cons_of_pos hc]
        simp [hc]
      · rw [List.takeWhile_cons_of_neg hc]
        simp [hc]

end

theorem takes_rep {p : Char → Bool} {low : Nat} {max : Option Nat} :
    (rep p low max).Takes prev w rest ↔
      low ≤ w.length ∧ (∀ m ∈ max, w.length ≤ m) ∧ ∀ c ∈ w, p c = true := by
  rw [Takes, ends, mem_down_iff, le_run_iff, length_le_takeWhile]

theorem takes_seq {a b : Regex} : (seq a b).Takes prev w rest ↔
    ∃ u v, w = u ++ v ∧ a.Takes prev u (v ++ rest) ∧ b.Takes (before prev u) v rest := by
  rw [Takes, ends]
  constructor
  · intro h
    obtain ⟨i, hi, hmap⟩ := List.mem_flatMap.mp h
    obtain ⟨j, hj, hlength⟩ := List.mem_map.mp hmap
    have hle : i ≤ w.length := by omega
    have htake : (w ++ rest).take i = w.take i := List.take_append_of_le_length hle
    have hdrop : (w ++ rest).drop i = w.drop i ++ rest := List.drop_append_of_le_length hle
    have hfirst : (w.take i).length = i := by rw [List.length_take, Nat.min_eq_left hle]
    have hsecond : (w.drop i).length = j := by
      rw [List.length_drop]
      omega
    refine ⟨w.take i, w.drop i, (List.take_append_drop i w).symm, ?_, ?_⟩
    · rw [Takes, ← List.append_assoc, List.take_append_drop, hfirst]
      exact hi
    · rw [Takes, hsecond, ← hdrop, ← htake]
      exact hj
  · rintro ⟨u, v, rfl, hu, hv⟩
    refine List.mem_flatMap.mpr ⟨u.length, ?_, List.mem_map.mpr ⟨v.length, ?_, ?_⟩⟩
    · rw [List.append_assoc]
      exact hu
    · rw [List.append_assoc, List.take_left, List.drop_left]
      exact hv
    · rw [List.length_append]

theorem takes_alt {a b : Regex} :
    (alt a b).Takes prev w rest ↔ a.Takes prev w rest ∨ b.Takes prev w rest := List.mem_append

theorem takes_boundary : boundary.Takes prev w rest ↔ w = [] ∧ isBoundary prev rest = true := by
  rw [Takes, ends]
  constructor
  · intro h
    split at h
    · rename_i hb
      obtain rfl := List.length_eq_zero_iff.mp (List.mem_singleton.mp h)
      exact ⟨rfl, hb⟩
    · cases h
  · rintro ⟨rfl, hb⟩
    rw [List.nil_append, if_pos hb]
    exact List.mem_singleton_self _

theorem takes_plus {p : Char → Bool} :
    (plus p).Takes prev w rest ↔ w ≠ [] ∧ ∀ c ∈ w, p c = true := by
  rw [plus, takes_rep, Nat.one_le_iff_ne_zero, Ne, List.length_eq_zero_iff]
  exact and_congr_right fun _ => ⟨fun h => h.2, fun h => ⟨nofun, h⟩⟩

theorem takes_star {p : Char → Bool} :
    (star p).Takes prev w rest ↔ ∀ c ∈ w, p c = true := by
  rw [star, takes_rep]
  exact ⟨fun h => h.2.2, fun h => ⟨Nat.zero_le _, nofun, h⟩⟩

/-- A pattern after a word boundary. -/
theorem takes_boundary_seq {r : Regex} : (seq boundary r).Takes prev w rest ↔
    isBoundary prev (w ++ rest) = true ∧ r.Takes prev w rest := by
  rw [takes_seq]
  constructor
  · rintro ⟨u, v, rfl, hu, hv⟩
    obtain ⟨rfl, hb⟩ := takes_boundary.mp hu
    exact ⟨hb, hv⟩
  · rintro ⟨hb, hr⟩
    exact ⟨[], w, rfl, takes_boundary.mpr ⟨rfl, hb⟩, hr⟩

theorem takes_literal {letters : Text} : (literal letters).Takes prev w rest ↔ w = letters := by
  induction letters generalizing prev w with
  | nil =>
      rw [literal, takes_rep]
      constructor
      · rintro ⟨-, -, h⟩
        exact List.eq_nil_iff_forall_not_mem.mpr fun c hc => Bool.false_ne_true (h c hc)
      · rintro rfl
        exact ⟨Nat.le_refl _, nofun, nofun⟩
  | cons c letters ih =>
      have hchar : ∀ {prev w rest}, (char (· == c)).Takes prev w rest ↔ w = [c] := by
        intro prev w rest
        rw [takes_char]
        simp
      cases letters with
      | nil => rw [literal, hchar]
      | cons d letters =>
          rw [literal, takes_seq]
          on_goal 2 => exact nofun
          constructor
          · rintro ⟨u, v, rfl, hu, hv⟩
            rw [hchar.mp hu, ih.mp hv]
            rfl
          · rintro rfl
            exact ⟨[c], d :: letters, rfl, hchar.mpr rfl, ih.mpr rfl⟩

/-- The text spells the letters, in either case. -/
def Spells (letters w : Text) : Prop := List.Forall₂ (fun l c => foldsTo l c = true) letters w

theorem takes_literalIgnoreCase {letters : Text} :
    (literalIgnoreCase letters).Takes prev w rest ↔ Spells letters w := by
  induction letters generalizing prev w with
  | nil =>
      rw [literalIgnoreCase, takes_rep, Spells, List.forall₂_nil_left_iff]
      constructor
      · rintro ⟨-, -, h⟩
        exact List.eq_nil_iff_forall_not_mem.mpr fun c hc => Bool.false_ne_true (h c hc)
      · rintro rfl
        exact ⟨Nat.le_refl _, nofun, nofun⟩
  | cons l letters ih =>
      cases letters with
      | nil =>
          rw [literalIgnoreCase, takes_char, Spells]
          constructor
          · rintro ⟨c, rfl, hc⟩
            exact .cons hc .nil
          · rintro (_ | ⟨hc, hnil⟩)
            cases hnil
            exact ⟨_, rfl, hc⟩
      | cons l' letters =>
          rw [literalIgnoreCase, takes_seq, Spells]
          on_goal 2 => exact nofun
          constructor
          · rintro ⟨u, v, rfl, hu, hv⟩
            obtain ⟨c, rfl, hc⟩ := takes_char.mp hu
            exact .cons hc (ih.mp hv)
          · rintro (_ | ⟨hc, hrest⟩)
            exact ⟨[_], _, rfl, takes_char.mpr ⟨_, rfl, hc⟩, ih.mpr hrest⟩

omit [Runtime] in
/-- What folds to a lower-case letter is an ASCII letter, or one of a few letters beyond. -/
theorem foldsTo_range {letter c : Char} (hl : 97 ≤ letter.toNat ∧ letter.toNat ≤ 122)
    (h : foldsTo letter c = true) : 65 ≤ c.toNat ∧ c.toNat ≤ 90 ∨ 97 ≤ c.toNat ∧ c.toNat ≤ 122 ∨
      0x130 ≤ c.toNat ∧ c.toNat ≤ 0x17f ∨ c.toNat = 0x212a := by
  simp only [foldsTo, Bool.or_eq_true, Bool.and_eq_true, beq_iff_eq] at h
  rcases h with ((h | h) | h) | h
  · by_cases hupper : c.val ≥ 'A'.val ∧ c.val ≤ 'Z'.val
    · exact .inl hupper
    · have hlower : c.toLower = c := dif_neg hupper
      rw [hlower] at h
      exact .inr (.inl (h ▸ hl))
  · omega
  · omega
  · omega

omit [Runtime] in
/-- A character that folds to none of the letters is not among what spells them. -/
theorem notMem_of_spells {letters w : Text} {d : Char} (h : Spells letters w)
    (hd : letters.any (foldsTo · d) = false) : d ∉ w := by
  induction h with
  | nil => exact List.not_mem_nil
  | cons hc _ ih =>
      rw [List.any_cons, Bool.or_eq_false_iff] at hd
      rw [List.mem_cons, not_or]
      refine ⟨?_, ih hd.2⟩
      rintro rfl
      rw [hd.1] at hc
      cases hc

/-- A pattern can match where it takes some text. -/
theorem ends_ne_nil_iff {r : Regex} {s : Text} :
    r.ends prev s ≠ [] ↔ ∃ w rest, s = w ++ rest ∧ r.Takes prev w rest := by
  constructor
  · intro h
    obtain ⟨n, hn⟩ := List.exists_mem_of_ne_nil _ h
    exact ⟨s.take n, s.drop n, (List.take_append_drop n s).symm, takes_of_mem_ends hn⟩
  · rintro ⟨w, rest, rfl, h⟩
    exact List.ne_nil_of_mem h

/-! ## The match of the engine -/

/-- The pattern ends with as many characters of a class as there are. -/
def EndsGreedy (p : Char → Bool) : Regex → Prop
  | rep q _ none => q = p
  | seq _ b => EndsGreedy p b
  | _ => False

/-- The match of a sequence ends with the match of its second part. -/
theorem matchAt_seq {a b : Regex} {s : Text} {n : Nat} (h : (seq a b).matchAt prev s = some n) :
    ∃ i j, b.matchAt (before prev (s.take i)) (s.drop i) = some j ∧ n = i + j := by
  rw [matchAt, ends, List.head?_flatMap] at h
  obtain ⟨i, -, hi⟩ := List.exists_of_findSome?_eq_some h
  rw [List.head?_map] at hi
  obtain ⟨j, hj, rfl⟩ := Option.map_eq_some_iff.mp hi
  exact ⟨i, j, hj, rfl⟩

omit [Runtime] in
/-- After as many characters of a class as there are, the next one is not in the class. -/
theorem next_of_takeWhile (p : Char → Bool) (s : Text) :
    ∀ c ∈ (s.drop (s.takeWhile p).length).head?, p c = false := by
  induction s with
  | nil => exact nofun
  | cons d s ih =>
      by_cases hd : p d = true
      · rw [List.takeWhile_cons_of_pos hd]
        exact ih
      · rw [List.takeWhile_cons_of_neg hd]
        intro c hc
        obtain rfl := Option.some.inj hc
        exact Bool.eq_false_iff.mpr hd

/-- **A greedy match stops where it must**: the next character is not in the class. -/
theorem next_of_endsGreedy {p : Char → Bool} : ∀ (r : Regex), r.EndsGreedy p →
    ∀ (prev : Option Char) (s : Text) (n : Nat), r.matchAt prev s = some n →
      ∀ c ∈ (s.drop n).head?, p c = false
  | rep q low none, hr, _, s, n, h, c, hc => by
      obtain rfl := hr
      rw [matchAt, ends, down, List.head?_map, List.head?_range] at h
      split at h
      · cases h
      · obtain rfl := Option.some.inj h
        exact next_of_takeWhile q s c hc
  | seq a b, hr, prev, s, n, h, c, hc => by
      obtain ⟨i, j, hj, rfl⟩ := matchAt_seq h
      rw [← List.drop_drop] at hc
      exact next_of_endsGreedy b hr _ _ j hj c hc

/-! ## Substitution -/

omit [Runtime] in
theorem before_cons (prev : Option Char) (c : Char) (w : Text) :
    before prev (c :: w) = before (some c) w := by
  cases w with
  | nil => rfl
  | cons d w => simp [before, List.getLast?_cons]

/-- **What `sub` does** to a text after `prev`: it keeps a character where no match starts, and
swaps a match for the new text. -/
inductive Replaces (r : Regex) (new : Text) : Option Char → Text → Text → Prop
  | nil (prev : Option Char) : Replaces r new prev [] []
  | keep {prev : Option Char} {c : Char} {s t : Text}
      (hnone : ∀ n, r.matchAt prev (c :: s) ≠ some (n + 1)) (h : Replaces r new (some c) s t) :
      Replaces r new prev (c :: s) (c :: t)
  | swap {prev : Option Char} {w s t : Text} (hne : w ≠ [])
      (hmatch : r.matchAt prev (w ++ s) = some w.length) (h : Replaces r new (before prev w) s t) :
      Replaces r new prev (w ++ s) (new ++ t)

theorem subFrom_skip (r : Regex) (new : Text) (w s : Text) (prev : Option Char) :
    r.subFrom new prev w.length (w ++ s) = r.subFrom new (before prev w) 0 s := by
  induction w generalizing prev with
  | nil => rfl
  | cons c w ih =>
      rw [List.length_cons, List.cons_append, subFrom, ih, before_cons]

theorem replaces_subFrom (r : Regex) (new : Text) (k : Nat) (prev : Option Char) (s : Text)
    (hk : s.length ≤ k) : Replaces r new prev s (r.subFrom new prev 0 s) := by
  -- by induction on a bound of the length, since a match swallows characters
  induction k generalizing prev s with
  | zero =>
      obtain rfl := List.length_eq_zero_iff.mp (Nat.le_zero.mp hk)
      exact .nil prev
  | succ k ih =>
      cases s with
      | nil => exact .nil prev
      | cons c s =>
          rw [List.length_cons, Nat.succ_le_succ_iff] at hk
          rw [subFrom]
          split
          · rename_i n hn
            have hle := length_le_of_mem_ends r prev (c :: s) _ (List.mem_of_mem_head? hn)
            rw [List.length_cons, Nat.succ_le_succ_iff] at hle
            have hlength : (s.take n).length = n := by rw [List.length_take, Nat.min_eq_left hle]
            have hsplit : c :: s = (c :: s.take n) ++ s.drop n := by simp
            have hskip := subFrom_skip r new (s.take n) (s.drop n) (some c)
            rw [hlength, List.take_append_drop, ← before_cons prev] at hskip
            rw [hskip]
            conv => arg 4; rw [hsplit]
            refine .swap (List.cons_ne_nil _ _) ?_ (ih _ _ ?_)
            · rw [← hsplit, List.length_cons, hlength]
              exact hn
            · rw [List.length_drop]
              omega
          · rename_i hnone
            exact .keep hnone (ih _ _ hk)

theorem replaces_sub (r : Regex) (new s : Text) : Replaces r new none s (r.sub new s) :=
  replaces_subFrom r new s.length none s (Nat.le_refl _)

variable {r : Regex} {new : Text}

/-- What the result has before the new text comes up was there before. -/
theorem Replaces.kept_prefix {d : Char} (hnew : new.head? = some d) {w t : Text} (hd : d ∉ w) :
    ∀ {prev : Option Char} {s : Text}, Replaces r new prev s (w ++ t) →
      ∃ s', s = w ++ s' ∧ Replaces r new (before prev w) s' t := by
  induction w with
  | nil => exact fun {_} s h => ⟨s, rfl, h⟩
  | cons c w ih =>
      intro prev s h
      rw [List.mem_cons, not_or] at hd
      generalize ht : (c :: w) ++ t = t' at h
      cases h with
      | nil => cases ht
      | keep hnone h =>
          obtain ⟨rfl, rfl⟩ := List.cons.inj ht
          obtain ⟨s', rfl, h'⟩ := ih hd.2 h
          exact ⟨s', rfl, by rw [before_cons]; exact h'⟩
      | swap hne hmatch h =>
          cases new with
          | nil => cases hnew
          | cons e new =>
              obtain ⟨rfl, -⟩ := List.cons.inj ht
              exact absurd (Option.some.inj hnew).symm hd.1

/-! ## Occurrences -/

/-- A match starts somewhere in the text. -/
def Occurs (q : Regex) : Option Char → Text → Prop
  | _, [] => False
  | prev, c :: s => q.ends prev (c :: s) ≠ [] ∨ Occurs q (some c) s

/-- The pattern matches no empty text. -/
def Consumes (q : Regex) : Prop := ∀ (prev : Option Char) (s : Text), 0 ∉ q.ends prev s

theorem matchAt_of_ends_ne_nil {q : Regex} (hq : q.Consumes) {s : Text}
    (h : q.ends prev s ≠ []) : ∃ n, q.matchAt prev s = some (n + 1) := by
  cases hends : q.ends prev s with
  | nil => exact absurd hends h
  | cons n ns =>
      have hpos : n ≠ 0 := by
        rintro rfl
        exact hq prev s (hends ▸ List.mem_cons_self)
      obtain ⟨m, rfl⟩ := Nat.exists_eq_succ_of_ne_zero hpos
      exact ⟨m, by rw [matchAt, hends, List.head?_cons]⟩

/-- **What the search finds** is an occurrence. -/
theorem searchFrom_iff_occurs {q : Regex} (hq : q.Consumes) {prev : Option Char} {s : Text} :
    q.searchFrom prev s = true ↔ q.Occurs prev s := by
  induction s generalizing prev with
  | nil => exact iff_of_false Bool.false_ne_true id
  | cons c s ih =>
      rw [searchFrom, Bool.or_eq_true, ih, Occurs]
      refine or_congr_left ⟨fun h hnil => ?_, fun h => ?_⟩
      · rw [matchAt, hnil] at h
        cases h
      · obtain ⟨n, hn⟩ := matchAt_of_ends_ne_nil hq h
        rw [hn]
        rfl

theorem occurs_append {q : Regex} {w s : Text} :
    ∀ {prev : Option Char}, q.Occurs (before prev w) s → q.Occurs prev (w ++ s) := by
  induction w with
  | nil => exact fun h => h
  | cons c w ih =>
      intro prev h
      rw [before_cons] at h
      exact .inr (ih h)

theorem occurs_iff_exists {q : Regex} (hq : q.Consumes) {prev : Option Char} {s : Text} :
    q.Occurs prev s ↔ ∃ u w rest, s = u ++ (w ++ rest) ∧ q.Takes (before prev u) w rest := by
  constructor
  · intro h
    induction s generalizing prev with
    | nil => exact h.elim
    | cons c s ih =>
        rcases h with h | h
        · obtain ⟨w, rest, hsplit, htakes⟩ := ends_ne_nil_iff.mp h
          exact ⟨[], w, rest, hsplit, htakes⟩
        · obtain ⟨u, w, rest, rfl, htakes⟩ := ih h
          exact ⟨c :: u, w, rest, rfl, by rw [before_cons]; exact htakes⟩
  · rintro ⟨u, w, rest, rfl, htakes⟩
    cases w with
    | nil => exact absurd htakes (hq _ _)
    | cons c w => exact occurs_append (.inl (ends_ne_nil_iff.mpr ⟨c :: w, rest, rfl, htakes⟩))

/-- An occurrence that does not start in the first part starts in the second. -/
theorem occurs_of_append {q : Regex} {w s : Text} : ∀ {prev : Option Char},
    (∀ u v, w = u ++ v → v ≠ [] → ∀ p, q.ends p (v ++ s) = []) → q.Occurs prev (w ++ s) →
      q.Occurs (before prev w) s := by
  induction w with
  | nil => exact fun _ h => h
  | cons c w ih =>
      intro prev hnone h
      rw [before_cons]
      rcases h with h | h
      · exact absurd (hnone [] (c :: w) rfl (List.cons_ne_nil _ _) prev) h
      · exact ih (fun u v hw => hnone (c :: u) v (by rw [hw]; rfl)) h

/-- What comes before a text and before its replacement: the same, or a match and the new text. -/
def Linked (r : Regex) (new : Text) (prev' prev : Option Char) (s : Text) : Prop :=
  prev' = prev ∨ prev' = new.getLast? ∧
    ∃ p w, w ≠ [] ∧ r.matchAt p (w ++ s) = some w.length ∧ prev = before p w

/-- **Where an occurrence in the result comes from**: a character of the text that was kept,
when no occurrence starts in the new text. -/
theorem Replaces.exists_kept {q : Regex} (hnew : new ≠ [])
    (hinside : ∀ u v, new = u ++ v → v ≠ [] → ∀ p t, q.ends p (v ++ t) = [])
    (hkept : ∀ {prev' prev c s t}, Linked r new prev' prev (c :: s) →
      Replaces r new (some c) s t → q.ends prev' (c :: t) ≠ [] → q.ends prev (c :: s) ≠ [])
    {prev : Option Char} {s t : Text} (h : Replaces r new prev s t) :
    ∀ {prev' : Option Char}, Linked r new prev' prev s → q.Occurs prev' t →
      ∃ w c s', s = w ++ c :: s' ∧ q.ends (before prev w) (c :: s') ≠ [] ∧
        ∀ n, r.matchAt (before prev w) (c :: s') ≠ some (n + 1) := by
  induction h with
  | nil prev => exact fun _ h => h.elim
  | @keep prev c s t hnone h ih =>
      intro prev' hlinked hoccurs
      rcases hoccurs with hhere | hlater
      · exact ⟨[], c, s, rfl, hkept hlinked h hhere, hnone⟩
      · obtain ⟨w, d, s', rfl, hends, hnone⟩ := ih (.inl rfl) hlater
        exact ⟨c :: w, d, s', rfl, by rw [before_cons]; exact hends,
          by rw [before_cons]; exact hnone⟩
  | @swap prev m s t hne hmatch h ih =>
      intro prev' hlinked hoccurs
      have hafter := occurs_of_append (fun u v hw hv p => hinside u v hw hv p t) hoccurs
      have hlast : before prev' new = new.getLast? := by
        cases new with
        | nil => exact absurd rfl hnew
        | cons e new => simp [before, List.getLast?_cons]
      obtain ⟨w, d, s', rfl, hends, hnone⟩ := ih (.inr ⟨hlast, prev, m, hne, hmatch, rfl⟩) hafter
      have hbefore : before (before prev m) w = before prev (m ++ w) := by
        simp only [before, List.getLast?_append, Option.or_assoc]
      rw [hbefore] at hends hnone
      exact ⟨m ++ w, d, s', by simp, hends, hnone⟩

/-- **What occurs is replaced**: the result differs from the text at the first occurrence, where
the new text starts otherwise. -/
theorem Replaces.differs {d : Char} (hnew : new.head? = some d) (hr : r.Consumes)
    (hstart : ∀ prev w rest, r.Takes prev w rest → w.head? ≠ some d) {prev : Option Char}
    {s t : Text} (h : Replaces r new prev s t) (hoccurs : r.Occurs prev s) :
    ∃ u c s' t', s = u ++ c :: s' ∧ t = u ++ d :: t' ∧ c ≠ d := by
  induction h with
  | nil prev => exact hoccurs.elim
  | @keep prev c s t hnone h ih =>
      rcases hoccurs with hhere | hlater
      · obtain ⟨n, hn⟩ := matchAt_of_ends_ne_nil hr hhere
        exact absurd hn (hnone n)
      · obtain ⟨u, e, s', t', rfl, rfl, hne⟩ := ih hlater
        exact ⟨c :: u, e, s', t', rfl, rfl, hne⟩
  | @swap prev w s t hne hmatch h ih =>
      have htakes : r.Takes prev w s := List.mem_of_mem_head? hmatch
      cases w with
      | nil => exact absurd rfl hne
      | cons c w =>
          cases new with
          | nil => cases hnew
          | cons e new =>
              obtain rfl := Option.some.inj hnew
              exact ⟨[], c, w ++ s, new ++ t, rfl, rfl, fun hce =>
                hstart prev _ s htakes (congrArg some hce)⟩

end

end SupportPlatform.Regex

