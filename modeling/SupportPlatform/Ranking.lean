import Mathlib

/-! # Rankings

A list sorted by a key in a linear order, and its first entries.  Two keys that differ in
where they put one kind of entry only give rankings that are told apart by their first
entries: `rank_of_split` puts the entries of that kind last, and `take_split` says that
this is not seen as long as none of them is among the first.
-/
namespace Ranking

variable {α κ κ' : Type} [LinearOrder κ] [LinearOrder κ'] {key : α → κ} {key' : α → κ'}
  {l s : List α}

/-- The list, sorted by the key. -/
def rank (key : α → κ) (l : List α) : List α := l.mergeSort fun a b => decide (key a ≤ key b)

theorem rank_perm (key : α → κ) (l : List α) : (rank key l).Perm l := List.mergeSort_perm l _

@[simp] theorem mem_rank {a : α} : a ∈ rank key l ↔ a ∈ l := (rank_perm key l).mem_iff

theorem rank_sorted (key : α → κ) (l : List α) :
    (rank key l).Pairwise fun a b => key a ≤ key b := by
  have h := @List.pairwise_mergeSort _ (fun a b => decide (key a ≤ key b))
    (fun a b c hab hbc => by
      simp only [decide_eq_true_eq] at *
      exact hab.trans hbc)
    (fun a b => by simpa using le_total (key a) (key b)) l
  exact h.imp fun hab => by simpa using hab

/-- Distinct keys are ranked strictly. -/
theorem rank_strict (h : (l.map key).Nodup) : (rank key l).Pairwise fun a b => key a < key b := by
  have hnd : ((rank key l).map key).Nodup := ((rank_perm key l).map key).nodup_iff.mpr h
  rw [List.Nodup, List.pairwise_map] at hnd
  exact (rank_sorted key l).imp₂ (fun _ _ hle hne => lt_of_le_of_ne hle hne) hnd

/-- A strictly sorted arrangement of the list is its ranking. -/
theorem rank_eq (hp : s.Perm l) (hs : s.Pairwise fun a b => key a < key b) :
    rank key l = s := by
  have hsorted : s.Pairwise fun a b => key a ≤ key b := hs.imp le_of_lt
  refine List.Perm.eq_of_pairwise (fun a b _ hb hab hba => ?_) (rank_sorted key l) hsorted
    ((rank_perm key l).trans hp.symm)
  have ha : a ∈ s := hp.symm.mem_iff.mp (by simpa using ‹a ∈ rank key l›)
  have hnd : (s.map key).Nodup := List.pairwise_map.mpr (hs.imp ne_of_lt)
  exact List.inj_on_of_nodup_map hnd ha hb (le_antisymm hab hba)

/-- **The place of an entry** is the number of entries before it. -/
theorem mem_take_iff (hs : s.Pairwise fun a b => key a < key b) {a : α} (ha : a ∈ s) (n : Nat) :
    a ∈ s.take n ↔ s.countP (fun b => decide (key b < key a)) < n := by
  induction s generalizing n with
  | nil => cases ha
  | cons b s ih =>
      obtain ⟨hb, hs'⟩ := List.pairwise_cons.mp hs
      rcases List.mem_cons.mp ha with rfl | ha'
      · have hzero : s.countP (fun b => decide (key b < key a)) = 0 :=
          List.countP_eq_zero.mpr fun c hc => by simpa using (hb c hc).le
        cases n <;> simp [hzero]
      · cases n with
        | zero => simp
        | succ n =>
            have hne : a ≠ b := fun h => lt_irrefl _ (h ▸ hb a ha')
            simp [hne, hb a ha', ih hs' ha' n]

/-- **Two keys that part over `p`.**  The second key keeps the order among the entries with
`p` and among those without, and puts the latter last. -/
theorem rank_of_split (p : α → Bool) (hl : (l.map key).Nodup)
    (hsame : ∀ a ∈ l, ∀ b ∈ l, p a = p b → key a < key b → key' a < key' b)
    (hlast : ∀ a ∈ l, ∀ b ∈ l, p a = true → p b = false → key' a < key' b) :
    rank key' l = (rank key l).filter p ++ (rank key l).filter fun a => !p a := by
  refine rank_eq ((List.filter_append_perm p _).trans (rank_perm key l)) ?_
  have hstrict := rank_strict hl
  have hpart : ∀ q : Bool, ((rank key l).filter fun a => p a == q).Pairwise
      fun a b => key' a < key' b := by
    intro q
    refine (hstrict.filter _).imp_of_mem fun {a b} ha hb hab => ?_
    simp only [List.mem_filter, mem_rank, beq_iff_eq] at ha hb
    exact hsame a ha.1 b hb.1 (ha.2.trans hb.2.symm) hab
  refine List.pairwise_append.mpr ⟨by simpa using hpart true, by simpa using hpart false, ?_⟩
  intro a ha b hb
  simp only [List.mem_filter, mem_rank, Bool.not_eq_true'] at ha hb
  exact hlast a ha.1 b hb.1 ha.2 hb.2

/-- Moving the entries without `p` to the end does not change a beginning that has none. -/
theorem take_split (p : α → Bool) (n : Nat) (h : ∀ a ∈ s.take n, p a = true) :
    ((s.filter p) ++ s.filter fun a => !p a).take n = s.take n := by
  have hfirst : (s.take n).filter p = s.take n := List.filter_eq_self.mpr h
  have hnone : ((s.take n).filter fun a => !p a) = [] :=
    List.filter_eq_nil_iff.mpr fun a ha => by simp [h a ha]
  rcases Nat.le_total n s.length with hn | hn
  · have hfilter : s.filter p = s.take n ++ (s.drop n).filter p := by
      conv_lhs => rw [← List.take_append_drop n s]
      rw [List.filter_append, hfirst]
    have hlen : (s.take n).length = n := List.length_take_of_le hn
    rw [hfilter, List.append_assoc, List.take_append_of_le_length hlen.ge,
      List.take_of_length_le hlen.le]
  · rw [List.take_of_length_le hn] at hfirst hnone ⊢
    rw [hfirst, hnone, List.append_nil, List.take_of_length_le hn]

/-! ## Pages -/

/-- The place of an entry: how many entries come before it. -/
def place (key : α → κ) (l : List α) (a : α) : Nat := l.countP fun b => decide (key b < key a)

/-- The page of at most `n` entries from an offset. -/
def page (key : α → κ) (l : List α) (offset n : Nat) : List α := ((rank key l).drop offset).take n

theorem place_lt {a : α} (ha : a ∈ l) : place key l a < l.length :=
  List.countP_lt_length_iff.mpr ⟨a, ha, by simp⟩

/-- New entries only move an entry to a later place. -/
theorem place_mono (key : α → κ) (h : l.Sublist s) (a : α) : place key l a ≤ place key s a := h.countP_le

/-- An entry is on the page that its place falls on. -/
theorem mem_page_iff (hl : (l.map key).Nodup) {a : α} (ha : a ∈ l) (offset n : Nat) :
    a ∈ page key l offset n ↔ offset ≤ place key l a ∧ place key l a < offset + n := by
  have hstrict := rank_strict hl
  have htake : ∀ m, a ∈ (rank key l).take m ↔ place key l a < m := by
    intro m
    rw [mem_take_iff hstrict (mem_rank.mpr ha), place, (rank_perm key l).countP_eq]
  have hsplit : (rank key l).take (offset + n) =
      (rank key l).take offset ++ page key l offset n := List.take_add
  have hnodup : ((rank key l).take (offset + n)).Nodup :=
    ((rank_perm key l).nodup_iff.mpr (List.Nodup.of_map key hl)).sublist (List.take_sublist _ _)
  rw [hsplit] at hnodup
  have hdisjoint := List.disjoint_of_nodup_append hnodup
  have hbound := htake (offset + n)
  rw [hsplit, List.mem_append, htake offset] at hbound
  constructor
  · intro h
    have hnot : a ∉ (rank key l).take offset := fun hoff => hdisjoint hoff h
    rw [htake] at hnot
    have := hbound.mp (.inr h)
    omega
  · intro ⟨hle, hlt⟩
    exact (hbound.mpr hlt).resolve_left (by omega)

theorem length_page (key : α → κ) (l : List α) (offset n : Nat) :
    (page key l offset n).length = min n (l.length - offset) := by
  rw [page, List.length_take, List.length_drop, (rank_perm key l).length_eq]

section
variable {tables : Nat → List α} {last limit : Nat} {a : α}

/-- **No entry is skipped** by turning the pages of a list to which entries are added on the
way, up to a page that is not full. -/
theorem exists_page (hkeys : ∀ k ≤ last, ((tables k).map key).Nodup)
    (hgrow : ∀ k < last, (tables k).Sublist (tables (k + 1)))
    (hlast : (page key (tables last) (last * limit) limit).length < limit)
    (ha : a ∈ tables 0) : ∃ k ≤ last, a ∈ page key (tables k) (k * limit) limit := by
  by_contra hnone
  have hmiss : ∀ k ≤ last, a ∉ page key (tables k) (k * limit) limit :=
    fun k hk h => hnone ⟨k, hk, h⟩
  -- an entry that the pages so far have missed is still to come
  have hplace : ∀ k ≤ last, a ∈ tables k ∧ k * limit ≤ place key (tables k) a := by
    intro k
    induction k with
    | zero => exact fun _ => ⟨ha, by omega⟩
    | succ k ih =>
        intro hk
        obtain ⟨hmem, hle⟩ := ih (by omega)
        have hnot := hmiss k (by omega)
        rw [mem_page_iff (hkeys k (by omega)) hmem] at hnot
        have hmono := place_mono key (hgrow k (by omega)) a
        refine ⟨(hgrow k (by omega)).subset hmem, ?_⟩
        rw [Nat.succ_mul]
        omega
  obtain ⟨hmem, hle⟩ := hplace last le_rfl
  have hnot := hmiss last le_rfl
  rw [mem_page_iff (hkeys last le_rfl) hmem] at hnot
  have hlt : place key (tables last) a < (tables last).length := place_lt hmem
  rw [length_page] at hlast
  omega

/-- **An entry that is shown again** has had a new entry put before it. -/
theorem exists_new_of_shown_again {j k : Nat} (hjk : j < k) (hl : (l.map key).Nodup)
    (hs : (s.map key).Nodup) (hj : a ∈ page key l (j * limit) limit)
    (hk : a ∈ page key s (k * limit) limit) : ∃ b ∈ s, b ∉ l ∧ key b < key a := by
  have hmem : ∀ {t : List α} {o n : Nat}, a ∈ page key t o n → a ∈ t := fun h =>
    mem_rank.mp (List.drop_subset _ _ (List.take_subset _ _ h))
  have hfirst := (mem_page_iff hl (hmem hj) _ _).mp hj
  have hagain := (mem_page_iff hs (hmem hk) _ _).mp hk
  have hpages : j * limit + limit ≤ k * limit := by
    rw [← Nat.succ_mul]
    exact Nat.mul_le_mul_right limit hjk
  by_contra hnone
  have hold : s.filter (fun b => decide (key b < key a)) ⊆
      l.filter fun b => decide (key b < key a) := by
    intro b hb
    obtain ⟨hbs, hbefore⟩ := List.mem_filter.mp hb
    refine List.mem_filter.mpr ⟨?_, hbefore⟩
    by_contra hbl
    exact hnone ⟨b, hbs, hbl, of_decide_eq_true hbefore⟩
  have hle := (((List.Nodup.of_map key hs).filter _).subperm hold).length_le
  rw [← List.countP_eq_length_filter, ← List.countP_eq_length_filter] at hle
  have hplaces : place key s a ≤ place key l a := hle
  omega

end

end Ranking
