import SupportPlatform.Text

/-! # Backtracking regular expressions

The fragment of Python's `re` that is needed to read the patterns of the code:
single characters, greedy repetition of a character class, sequence, alternation
and word boundaries.  A match is a choice among several, and a backtracking engine
tries them in a fixed order; `ends r prev s` is the list of the lengths that `r`
can match at the start of `s`, in that order, `prev` being the character before
`s`.  The engine's match is the first of them.

`sub` replaces matches from left to right.  No pattern it is used with matches the
empty text, so an empty match is passed over.
-/
namespace SupportPlatform

/-- A pattern. -/
inductive Regex
  /-- One character of a class. -/
  | char (p : Char → Bool)
  /-- As many characters of a class as possible, then fewer: at least `min`, and at
  most `max` when there is a bound. -/
  | rep (p : Char → Bool) (min : Nat) (max : Option Nat)
  | seq (a b : Regex)
  | alt (a b : Regex)
  /-- `\b`. -/
  | boundary

namespace Regex

/-- `p+`, `p*` and `p?`. -/
def plus (p : Char → Bool) : Regex := rep p 1 none
def star (p : Char → Bool) : Regex := rep p 0 none
def opt (p : Char → Bool) : Regex := rep p 0 (some 1)

/-- A literal text. -/
def literal : Text → Regex
  | [] => rep (fun _ => false) 0 none
  | [c] => char (· == c)
  | c :: s => seq (char (· == c)) (literal s)

/-- A sequence of patterns. -/
def all : List Regex → Regex
  | [] => rep (fun _ => false) 0 none
  | [r] => r
  | r :: rs => seq r (all rs)

/-- A lower-case ASCII letter under `re.IGNORECASE`: its two cases, and the
non-ASCII characters that fold to it. -/
def foldsTo (letter c : Char) : Bool :=
  c.toLower == letter ||
    (letter == 'i' && (c.toNat == 0x130 || c.toNat == 0x131)) ||
    (letter == 'k' && c.toNat == 0x212a) || (letter == 's' && c.toNat == 0x17f)

/-- A lower-case literal under `re.IGNORECASE`. -/
def literalIgnoreCase : Text → Regex
  | [] => rep (fun _ => false) 0 none
  | [c] => char (foldsTo c)
  | c :: s => seq (char (foldsTo c)) (literalIgnoreCase s)

/-- The character before what is left once `taken` has been read. -/
def before (prev : Option Char) (taken : Text) : Option Char :=
  taken.getLast?.or prev

/-- The number of characters a greedy repetition reads. -/
def run (p : Char → Bool) (max : Option Nat) (s : Text) : Nat :=
  let n := (s.takeWhile p).length
  match max with
  | none => n
  | some m => min m n

/-- The lengths from `high` down to `low`. -/
def down (high low : Nat) : List Nat :=
  (List.range (high + 1 - low)).map fun i => high - i

section Matching
variable [Runtime]

/-- Whether there is a word boundary between `prev` and `s`. -/
def isBoundary (prev : Option Char) (s : Text) : Bool :=
  prev.any Text.isWord != s.head?.any Text.isWord

/-- The lengths `r` can match at the start of `s`, in the order they are tried. -/
def ends : Regex → Option Char → Text → List Nat
  | char p, _, s => if s.head?.any p then [1] else []
  | rep p low max, _, s => down (run p max s) low
  | seq a b, prev, s => (ends a prev s).flatMap fun n =>
      (ends b (before prev (s.take n)) (s.drop n)).map (n + ·)
  | alt a b, prev, s => ends a prev s ++ ends b prev s
  | boundary, prev, s => if isBoundary prev s then [0] else []

/-- The length of the engine's match at the start of `s`. -/
def matchAt (r : Regex) (prev : Option Char) (s : Text) : Option Nat := (r.ends prev s).head?

/-- Whether some non-empty match of `r` starts in `s`. -/
def searchFrom (r : Regex) : Option Char → Text → Bool
  | _, [] => false
  | prev, c :: s => (r.matchAt prev (c :: s)).any (0 < ·) || r.searchFrom (some c) s

/-- `pattern.search(s)` found something. -/
def search (r : Regex) (s : Text) : Bool := r.searchFrom none s

/-- Replace matches from left to right.  `skip` counts the characters of a match
that has been replaced already. -/
def subFrom (r : Regex) (new : Text) : Option Char → Nat → Text → Text
  | _, _, [] => []
  | _, skip + 1, c :: s => r.subFrom new (some c) skip s
  | prev, 0, c :: s =>
      match r.matchAt prev (c :: s) with
      | some (n + 1) => new ++ r.subFrom new (some c) n s
      | _ => c :: r.subFrom new (some c) 0 s

/-- `pattern.sub(new, s)`. -/
def sub (r : Regex) (new s : Text) : Text := r.subFrom new none 0 s

/-! ## What is not matched is left alone -/

theorem subFrom_of_not_searchFrom (r : Regex) (new : Text) :
    ∀ (prev : Option Char) (s : Text), r.searchFrom prev s = false → r.subFrom new prev 0 s = s
  | _, [], _ => rfl
  | prev, c :: s, h => by
      rw [searchFrom, Bool.or_eq_false_iff] at h
      obtain ⟨hm, hs⟩ := h
      have ih := subFrom_of_not_searchFrom r new (some c) s hs
      unfold subFrom
      split
      · rename_i n hn
        simp [hn] at hm
      · rw [ih]

/-- **A text without a match is left as it is.** -/
theorem sub_of_not_search {r : Regex} {s : Text} (new : Text) (h : r.search s = false) :
    r.sub new s = s :=
  subFrom_of_not_searchFrom r new none s h

end Matching

/-! ## Characters a match needs -/

/-- Every match of the pattern contains a character of class `p`. -/
def Needs (p : Char → Bool) : Regex → Prop
  | char q => ∀ c, q c = true → p c = true
  | rep q low _ => 0 < low ∧ ∀ c, q c = true → p c = true
  | seq a b => a.Needs p ∨ b.Needs p
  | alt a b => a.Needs p ∧ b.Needs p
  | boundary => False

theorem mem_down {high low n : Nat} (h : n ∈ down high low) : low ≤ n ∧ n ≤ high := by
  obtain ⟨i, hi, rfl⟩ := List.mem_map.mp h
  rw [List.mem_range] at hi
  omega

theorem run_le (p : Char → Bool) (max : Option Nat) (s : Text) :
    run p max s ≤ (s.takeWhile p).length := by
  cases max with
  | none => exact Nat.le_refl _
  | some m => exact Nat.min_le_right _ _

theorem head_of_takeWhile {p : Char → Bool} {s : Text} (h : 0 < (s.takeWhile p).length) :
    ∃ c t, s = c :: t ∧ p c = true := by
  cases s with
  | nil => simp at h
  | cons c t =>
      by_cases hc : p c = true
      · exact ⟨c, t, rfl, hc⟩
      · simp [List.takeWhile_cons_of_neg hc] at h

section Needs
variable [Runtime] {p : Char → Bool}

/-- A match of a pattern that needs `p` reads a character of class `p`. -/
theorem exists_mem_of_ends : ∀ (r : Regex), r.Needs p → ∀ (prev : Option Char) (s : Text) (n : Nat),
    n ∈ r.ends prev s → ∃ c ∈ s.take n, p c = true
  | char q, h, prev, s, n, hn => by
      rw [ends] at hn
      cases s with
      | nil => simp at hn
      | cons c s =>
          by_cases hq : q c = true
          · simp [hq] at hn
            subst n
            exact ⟨c, by simp, h c hq⟩
          · simp [hq] at hn
  | rep q low max, h, prev, s, n, hn => by
      obtain ⟨hlow, hhigh⟩ := mem_down hn
      have hpos : 0 < (s.takeWhile q).length :=
        Nat.lt_of_lt_of_le (Nat.lt_of_lt_of_le h.1 (Nat.le_trans hlow hhigh)) (run_le q max s)
      obtain ⟨c, t, rfl, hc⟩ := head_of_takeWhile hpos
      obtain ⟨m, rfl⟩ : ∃ m, n = m + 1 := ⟨n - 1, by have := h.1; omega⟩
      exact ⟨c, by simp, h.2 c hc⟩
  | seq a b, h, prev, s, n, hn => by
      obtain ⟨i, hi, hmap⟩ := List.mem_flatMap.mp hn
      obtain ⟨j, hj, rfl⟩ := List.mem_map.mp hmap
      rcases h with ha | hb
      · obtain ⟨c, hc, hp⟩ := exists_mem_of_ends a ha prev s i hi
        exact ⟨c, List.take_subset_take_left s (Nat.le_add_right i j) hc, hp⟩
      · obtain ⟨c, hc, hp⟩ := exists_mem_of_ends b hb _ _ j hj
        refine ⟨c, ?_, hp⟩
        rw [List.take_add]
        exact List.mem_append_right _ hc
  | alt a b, h, prev, s, n, hn => by
      rcases List.mem_append.mp hn with ha | hb
      · exact exists_mem_of_ends a h.1 prev s n ha
      · exact exists_mem_of_ends b h.2 prev s n hb
  | boundary, h, _, _, _, _ => h.elim

theorem searchFrom_of_needs {r : Regex} (h : r.Needs p) : ∀ (prev : Option Char) (s : Text),
    (∀ c ∈ s, p c = false) → r.searchFrom prev s = false
  | _, [], _ => rfl
  | prev, c :: s, hs => by
      rw [searchFrom, Bool.or_eq_false_iff]
      refine ⟨?_, searchFrom_of_needs h (some c) s fun d hd => hs d (List.mem_cons_of_mem c hd)⟩
      cases hm : r.matchAt prev (c :: s) with
      | none => rfl
      | some n =>
          obtain ⟨d, hd, hp⟩ := exists_mem_of_ends r h prev (c :: s) n (List.mem_of_mem_head? hm)
          rw [hs d (List.mem_of_mem_take hd)] at hp
          cases hp

/-- **A text without the characters a pattern needs has no match.** -/
theorem search_of_needs {r : Regex} (h : r.Needs p) {s : Text} (hs : ∀ c ∈ s, p c = false) :
    r.search s = false :=
  searchFrom_of_needs h none s hs

end Needs

end Regex

end SupportPlatform
