import SupportPlatform.Json

/-! # Parts of encodings

What is inside a value is encoded inside its encoding: the elements of an array, and the values
of an object, also where the entries are sorted by their keys.
-/
namespace SupportPlatform

namespace Text

/-- The parts are in the joined text. -/
theorem infix_join {sep part : Text} {parts : List Text} (h : part ∈ parts) :
    part <:+: join sep parts := by
  induction parts with
  | nil => cases h
  | cons first rest ih =>
      cases rest with
      | nil =>
          rw [List.mem_singleton.mp h]
          exact List.infix_rfl
      | cons second rest =>
          rcases List.mem_cons.mp h with rfl | h
          · exact ⟨[], sep ++ join sep (second :: rest), by simp [join]⟩
          · obtain ⟨before, after, hjoin⟩ := ih h
            exact ⟨first ++ sep ++ before, after, by simp [join, ← hjoin]⟩

end Text

namespace Json
variable [Runtime] {ascii sortKeys : Bool}

theorem encodeItems_eq (items : List Json) :
    encodeItems ascii sortKeys items = items.map (encode ascii sortKeys) := by
  induction items with
  | nil => rfl
  | cons v items ih => rw [encodeItems, ih, List.map_cons]

theorem encodeEntries_eq (entries : List (Text × Json)) :
    encodeEntries ascii sortKeys entries = entries.map fun e => (e.1, encode ascii sortKeys e.2) := by
  induction entries with
  | nil => rfl
  | cons e entries ih => rw [encodeEntries, ih, List.map_cons]

/-- An element is encoded inside the array. -/
theorem infix_encode_arr {items : List Json} {v : Json} (h : v ∈ items) :
    encode ascii sortKeys v <:+: encode ascii sortKeys (.arr items) := by
  have hjoin : encode ascii sortKeys v <:+:
      Text.join "," (items.map (encode ascii sortKeys)) :=
    Text.infix_join (List.mem_map_of_mem h)
  rw [encode, encodeItems_eq]
  exact hjoin.trans ⟨_, _, rfl⟩

/-- A value is encoded inside the object. -/
theorem infix_encode_obj {entries : List (Text × Json)} {e : Text × Json} (h : e ∈ entries) :
    encode ascii sortKeys e.2 <:+: encode ascii sortKeys (.obj entries) := by
  have hpart : (e.1, encode ascii sortKeys e.2) ∈
      (if sortKeys then sortEntries (encodeEntries ascii sortKeys entries)
        else encodeEntries ascii sortKeys entries) := by
    have hmem : (e.1, encode ascii sortKeys e.2) ∈ encodeEntries ascii sortKeys entries := by
      rw [encodeEntries_eq]
      exact List.mem_map.mpr ⟨e, h, rfl⟩
    split
    · exact ((List.perm_insertionSort _ _).mem_iff).mpr hmem
    · exact hmem
  have hentry : encode ascii sortKeys e.2 <:+:
      quoted ascii e.1 ++ (":" : Text) ++ encode ascii sortKeys e.2 := (List.suffix_append _ _).isInfix
  have hjoin : ∀ parts : List (Text × Text), (e.1, encode ascii sortKeys e.2) ∈ parts →
      quoted ascii e.1 ++ (":" : Text) ++ encode ascii sortKeys e.2 <:+:
        Text.join "," (parts.map fun e => quoted ascii e.1 ++ (":" : Text) ++ e.2) := fun _ hmem =>
    Text.infix_join (List.mem_map.mpr ⟨_, hmem, rfl⟩)
  rw [encode]
  exact hentry.trans ((hjoin _ hpart).trans ⟨_, _, rfl⟩)

end Json

end SupportPlatform
