import Mathlib

/-! # Lists taken entry by entry

`List.Forall₂ R xs ys` says that two lists are related entry by entry.  It is what reading a
list with a function that may fail amounts to, and it is used to find the entry that another
comes from.
-/
namespace SupportPlatform

variable {α β : Type} {R : α → β → Prop} {f : α → Option β}

theorem exists_of_forall₂_left {xs : List α} {ys : List β} (h : List.Forall₂ R xs ys) {x : α}
    (hx : x ∈ xs) : ∃ y ∈ ys, R x y := by
  induction h with
  | nil => cases hx
  | @cons a b _ _ hr _ ih =>
      rcases List.mem_cons.mp hx with rfl | hx
      · exact ⟨b, List.mem_cons_self, hr⟩
      · obtain ⟨y, hy, h⟩ := ih hx
        exact ⟨y, List.mem_cons_of_mem _ hy, h⟩

theorem exists_of_forall₂_right {xs : List α} {ys : List β} (h : List.Forall₂ R xs ys) {y : β}
    (hy : y ∈ ys) : ∃ x ∈ xs, R x y :=
  exists_of_forall₂_left h.flip hy

/-- What is read entry by entry, or not at all. -/
theorem forall₂_of_mapM : ∀ {xs : List α} {ys : List β},
    xs.mapM f = some ys → List.Forall₂ (fun x y => f x = some y) xs ys
  | [], ys, h => by
      rw [List.mapM_nil] at h
      cases h
      exact .nil
  | x :: xs, ys, h => by
      rw [List.mapM_cons] at h
      obtain ⟨y, hy, h⟩ := Option.bind_eq_some_iff.mp h
      obtain ⟨zs, hzs, h⟩ := Option.bind_eq_some_iff.mp h
      cases h
      exact .cons hy (forall₂_of_mapM hzs)

theorem mapM_of_forall₂ {xs : List α} {ys : List β}
    (h : List.Forall₂ (fun x y => f x = some y) xs ys) : xs.mapM f = some ys := by
  induction h with
  | nil => rfl
  | cons hx _ ih =>
      rw [List.mapM_cons, hx, ih]
      rfl

theorem isSome_mapM {xs : List α} (h : ∀ x ∈ xs, (f x).isSome) : (xs.mapM f).isSome := by
  induction xs with
  | nil => rfl
  | cons x xs ih =>
      obtain ⟨hx, hxs⟩ := List.forall_mem_cons.mp h
      obtain ⟨y, hy⟩ := Option.isSome_iff_exists.mp hx
      obtain ⟨ys, hys⟩ := Option.isSome_iff_exists.mp (ih hxs)
      simp [List.mapM_cons, hy, hys]

end SupportPlatform
