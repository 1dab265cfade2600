import SupportPlatform.AgentWorkflow
import SupportPlatform.ReferenceCodec

/-! # What sanitizing promises of a value

`sanitize_value` is to return data that a JSON column takes, bounded in every direction, and
without what is stored under a sensitive key.  The bounds hold of every value.  The other two
promises hold of some values only, and `safelyRecorded_iff` and `redacts_iff` say of which: no
number that is kept is non-finite, since numbers pass as they are; and no key that is kept
loses its sensitive part when it is cut off, since it is cut off before it is tested.

Both conditions are read off the entries that `sanitize_value` keeps of a dictionary, each
with the entry that it is made from.
-/
namespace SupportPlatform

section
variable [Runtime]

/-! ## The entries that are kept -/

/-- The keys of a sanitized dictionary, each with the entry whose value is kept under it. -/
def keptEntries (entries : Dict Text Json) : Dict Text (Text × Json) :=
  Dict.ofList ((entries.take 50).map fun e => (e.1.take 120, e))

theorem sanitizeEntries_eq (item : Json → Json) (entries : Dict Text Json) :
    sanitizeEntries item entries = (keptEntries entries).map fun e =>
      (e.1, if sensitiveKey e.1 then .str "[redacted]" else item e.2.2) := by
  have hmap := Dict.ofList_map_values
    (fun key (e : Text × Json) => if sensitiveKey key then .str "[redacted]" else item e.2)
    ((entries.take 50).map fun e => (e.1.take 120, e))
  rw [List.map_map] at hmap
  exact hmap

omit [Runtime] in
/-- What is kept under a key: the last of the first fifty entries that are cut off to it. -/
theorem mem_keptEntries {entries : Dict Text Json} {key : Text} {e : Text × Json} :
    (key, e) ∈ keptEntries entries ↔ key = e.1.take 120 ∧ ∃ before after,
      entries.take 50 = before ++ e :: after ∧ ∀ a ∈ after, a.1.take 120 ≠ key := by
  rw [keptEntries, Dict.mem_ofList]
  constructor
  · rintro ⟨before, after, heq, hafter⟩
    obtain ⟨l₁, rest, hsplit, rfl, hrest⟩ := List.map_eq_append_iff.mp heq
    obtain ⟨raw, l₂, rfl, hraw, rfl⟩ := List.map_eq_cons_iff.mp hrest
    obtain ⟨rfl, rfl⟩ := Prod.mk.inj hraw
    refine ⟨rfl, l₁, l₂, hsplit, fun a ha hk => hafter ?_⟩
    exact List.mem_map.mpr ⟨_, List.mem_map_of_mem ha, hk⟩
  · rintro ⟨rfl, before, after, heq, hafter⟩
    refine ⟨before.map fun e => (e.1.take 120, e), after.map fun e => (e.1.take 120, e), ?_, ?_⟩
    · rw [heq, List.map_append, List.map_cons]
    · intro hmem
      obtain ⟨_, hmem, hk⟩ := List.mem_map.mp hmem
      obtain ⟨a, ha, rfl⟩ := List.mem_map.mp hmem
      exact hafter a ha hk

/-! ## Bounds -/

/-- A value with so many levels of containers at most, each of fifty entries at most, and with
bounded keys and texts. -/
def Bounded : Nat → Json → Prop
  | _, .str s => s.length ≤ 2000
  | 0, .arr _ => False
  | 0, .obj _ => False
  | n + 1, .arr items => items.length ≤ 50 ∧ ∀ v ∈ items, Bounded n v
  | n + 1, .obj entries => entries.length ≤ 50 ∧ ∀ e ∈ entries, e.1.length ≤ 120 ∧ Bounded n e.2
  | _, _ => True

theorem bounded_sanitizeLevels (n : Nat) (v : Json) : Bounded n (sanitizeLevels n v) := by
  have hconstant : ∀ (n : Nat) {s : Text}, s.length ≤ 2000 → Bounded n (.str s) := fun n s h => by
    cases n <;> exact h
  induction n generalizing v with
  | zero => exact hconstant 0 (by decide)
  | succ n ih =>
      cases v with
      | null => trivial
      | bool b => trivial
      | int i => trivial
      | float f => trivial
      | str s => exact hconstant (n + 1) (length_sanitizeText_le s)
      | arr items =>
          refine ⟨?_, fun v hv => ?_⟩
          · rw [List.length_map]
            exact List.length_take_le _ _
          · obtain ⟨item, -, rfl⟩ := List.mem_map.mp hv
            exact ih item
      | obj entries =>
          refine ⟨?_, fun e he => ?_⟩
          · refine (Dict.length_ofList_le _).trans ?_
            rw [List.length_map]
            exact List.length_take_le _ _
          · obtain ⟨raw, -, rfl⟩ := List.mem_map.mp (Dict.mem_of_mem_ofList he)
            refine ⟨List.length_take_le _ _, ?_⟩
            by_cases hkey : sensitiveKey (raw.1.take 120) = true
            · dsimp only
              rw [if_pos hkey]
              exact hconstant n (by decide)
            · dsimp only
              rw [if_neg hkey]
              exact ih raw.2

/-! ## Numbers -/

omit [Runtime] in
theorem Json.storable_arr {items : List Json} :
    (Json.arr items).storable = true ↔ ∀ v ∈ items, v.storable = true := by
  rw [Json.storable]
  induction items with
  | nil => exact iff_of_true rfl nofun
  | cons v items ih => rw [Json.storableItems, Bool.and_eq_true, ih, List.forall_mem_cons]

omit [Runtime] in
theorem Json.storable_obj {entries : List (Text × Json)} :
    (Json.obj entries).storable = true ↔ ∀ e ∈ entries, e.2.storable = true := by
  rw [Json.storable]
  induction entries with
  | nil => exact iff_of_true rfl nofun
  | cons e entries ih => rw [Json.storableEntries, Bool.and_eq_true, ih, List.forall_mem_cons]

/-- Every number that is kept of a value with so many levels left is finite. -/
def FiniteKept : Nat → Json → Prop
  | 0, _ => True
  | _ + 1, .float f => ∃ q, f = .finite q
  | n + 1, .arr items => ∀ v ∈ items.take 50, FiniteKept n v
  | n + 1, .obj entries =>
      ∀ e ∈ keptEntries entries, sensitiveKey e.1 = false → FiniteKept n e.2.2
  | _ + 1, _ => True

/-- **When a sanitized value can be stored.** -/
theorem storable_sanitizeLevels {n : Nat} {v : Json} :
    (sanitizeLevels n v).storable = true ↔ FiniteKept n v := by
  induction n generalizing v with
  | zero => exact iff_of_true rfl trivial
  | succ n ih =>
      cases v with
      | null => exact iff_of_true rfl trivial
      | bool b => exact iff_of_true rfl trivial
      | int i => exact iff_of_true rfl trivial
      | str s => exact iff_of_true rfl trivial
      | float f =>
          rw [sanitizeLevels, FiniteKept]
          have hnone : ∀ f : Float64, (∀ q, f ≠ .finite q) → ¬ ∃ q, f = .finite q :=
            fun f hf hq => hq.elim hf
          cases f with
          | finite q => exact iff_of_true rfl ⟨q, rfl⟩
          | nan => exact iff_of_false (by decide) (hnone _ (by simp))
          | infinity => exact iff_of_false (by decide) (hnone _ (by simp))
          | negInfinity => exact iff_of_false (by decide) (hnone _ (by simp))
      | arr items =>
          rw [sanitizeLevels, Json.storable_arr, List.forall_mem_map, FiniteKept]
          exact forall₂_congr fun v _ => ih
      | obj entries =>
          rw [sanitizeLevels, Json.storable_obj, sanitizeEntries_eq, List.forall_mem_map, FiniteKept]
          refine forall₂_congr fun e _ => ?_
          cases hkey : sensitiveKey e.1 with
          | true => exact iff_of_true rfl fun h => by cases h
          | false => exact ih.trans ⟨fun h _ => h, fun h => h rfl⟩

/-! ## Recording steps -/

/-- The request without its arguments. -/
def ToolRequest.bare (request : ToolRequest) : ToolRequest := { request with arguments := [] }

/-- The database takes the row of a step as it takes the row without the arguments. -/
structure Recordable (request : ToolRequest) : Prop where
  rejected : ∀ (W : Type) [DecidableEq W] (s : World W) (w : W) (executionId : Uuid)
    (stepNumber : Nat) (decision : PlannerDecision) (outcome : StepOutcome),
    Environment.Accepts s w [.insertStep (ControlledAgentWorkflow.rejectedStepRecord executionId
      stepNumber decision (some request) outcome)] ↔
    Environment.Accepts s w [.insertStep (ControlledAgentWorkflow.rejectedStepRecord executionId
      stepNumber decision (some request.bare) outcome)]
  succeeded : ∀ (W : Type) [DecidableEq W] (s : World W) (w : W) (executionId : Uuid)
    (stepNumber : Nat) (decision : PlannerDecision) (result : ToolResult),
    Environment.Accepts s w [.insertStep (ControlledAgentWorkflow.toolStepRecord executionId
      stepNumber decision request result)] ↔
    Environment.Accepts s w [.insertStep (ControlledAgentWorkflow.toolStepRecord executionId
      stepNumber decision request.bare result)]

omit [Runtime] in
/-- A row is taken for its numbers, and for what is in its columns. -/
theorem accepts_insertStep_congr {W : Type} [DecidableEq W] {s : World W} {w : W}
    {row row' : AgentStep} (hexecution : row.executionId = row'.executionId)
    (hnumber : row.stepNumber = row'.stepNumber)
    (hstorable : (Change.insertStep row).storable = (Change.insertStep row').storable) :
    Environment.Accepts s w [.insertStep row] ↔ Environment.Accepts s w [.insertStep row'] := by
  have hadmits : ∀ (staged : List Change) (db : Database),
      db.admitsAll (staged ++ [.insertStep row]) = db.admitsAll (staged ++ [.insertStep row']) := by
    intro staged
    induction staged with
    | nil =>
        intro db
        simp only [List.nil_append, Database.admitsAll, Database.admits, hexecution, hnumber]
    | cons c staged ih =>
        intro db
        rw [List.cons_append, List.cons_append, Database.admitsAll, Database.admitsAll, ih]
  simp only [Environment.Accepts, World.CanWrite, List.forall_mem_singleton, Change.keys, hexecution,
    hnumber, hadmits, hstorable]

theorem recordable {request : ToolRequest}
    (h : (sanitizeValue (.obj request.arguments)).storable = true) : Recordable request := by
  have hbare : (sanitizeValue (.obj request.bare.arguments)).storable = true := rfl
  constructor
  · intro W _ s w executionId stepNumber decision outcome
    refine accepts_insertStep_congr rfl rfl ?_
    simp only [Change.storable, Columns.storable, Change.columns,
      ControlledAgentWorkflow.rejectedStepRecord, Option.map_some, Option.toList_some,
      List.cons_append, List.all_cons, h, hbare]
    rfl
  · intro W _ s w executionId stepNumber decision result
    refine accepts_insertStep_congr rfl rfl ?_
    simp only [Change.storable, Columns.storable, Change.columns,
      ControlledAgentWorkflow.toolStepRecord, Option.toList_some, List.cons_append, List.all_cons,
      h, hbare]
    rfl

/-- What `sanitize_value` promises for the record of a step. -/
structure SafelyRecorded (v : Json) : Prop where
  stored : (sanitizeValue v).storable = true
  bounded : Bounded 5 (sanitizeValue v)
  recorded : ∀ request : ToolRequest, v = .obj request.arguments → Recordable request

/-- **When a value is recorded safely**: the numbers that are kept of it are finite. -/
theorem safelyRecorded_iff (v : Json) : SafelyRecorded v ↔ FiniteKept 5 v := by
  constructor
  · intro h
    exact storable_sanitizeLevels.mp h.stored
  · intro h
    have hstored : (sanitizeValue v).storable = true := storable_sanitizeLevels.mpr h
    refine ⟨hstored, bounded_sanitizeLevels 5 v, fun request hv => recordable ?_⟩
    exact hv ▸ hstored

end

/-- A limit that the planner writes as `NaN` is kept as it is. -/
theorem not_safelyRecorded_nan : ¬ SafelyRecorded (.obj [("limit", .float .nan)]) := fun h =>
  absurd h.stored (by decide)

section
variable [Runtime]

/-! ## Sensitive keys -/

mutual
/-- Two values that differ in what is stored under sensitive keys at most. -/
def SameBut : Json → Json → Prop
  | .arr items, .arr items' => SameItems items items'
  | .obj entries, .obj entries' => SameEntries entries entries'
  | v, w => v = w

def SameItems : List Json → List Json → Prop
  | [], [] => True
  | v :: items, w :: items' => SameBut v w ∧ SameItems items items'
  | _, _ => False

def SameEntries : List (Text × Json) → List (Text × Json) → Prop
  | [], [] => True
  | (key, v) :: entries, (key', w) :: entries' =>
      (key = key' ∧ (sensitiveKey key = true ∨ SameBut v w)) ∧ SameEntries entries entries'
  | _, _ => False
end

theorem sameItems_iff {items items' : List Json} :
    SameItems items items' ↔ List.Forall₂ SameBut items items' := by
  induction items generalizing items' with
  | nil => cases items' <;> simp [SameItems]
  | cons v items ih => cases items' <;> simp [SameItems, ih]

theorem sameEntries_iff {entries entries' : List (Text × Json)} :
    SameEntries entries entries' ↔ List.Forall₂
      (fun e e' => e.1 = e'.1 ∧ (sensitiveKey e.1 = true ∨ SameBut e.2 e'.2)) entries entries' := by
  induction entries generalizing entries' with
  | nil => cases entries' <;> simp [SameEntries]
  | cons e entries ih => cases entries' <;> simp [SameEntries, ih]

mutual
theorem SameBut.refl : ∀ v : Json, SameBut v v
  | .null | .bool _ | .int _ | .float _ | .str _ => rfl
  | .arr items => SameItems.refl items
  | .obj entries => SameEntries.refl entries

theorem SameItems.refl : ∀ items : List Json, SameItems items items
  | [] => trivial
  | v :: items => ⟨SameBut.refl v, SameItems.refl items⟩

theorem SameEntries.refl : ∀ entries : List (Text × Json), SameEntries entries entries
  | [] => trivial
  | (_, v) :: entries => ⟨⟨rfl, .inr (SameBut.refl v)⟩, SameEntries.refl entries⟩
end

/-- Some value of those that are kept, with so many levels left, is stored under a sensitive key
that is not sensitive any more when it is cut off. -/
def Leaks : Nat → Json → Prop
  | n + 1, .arr items => ∃ v ∈ items.take 50, Leaks n v
  | n + 1, .obj entries => ∃ e ∈ keptEntries entries, sensitiveKey e.1 = false ∧
      (0 < n ∧ sensitiveKey e.2.1 = true ∨ Leaks n e.2.2)
  | _, _ => False

/-- Every value that differs under sensitive keys only is sanitized to the same. -/
def Redacts (n : Nat) (v : Json) : Prop :=
  ∀ w, SameBut v w → sanitizeLevels n v = sanitizeLevels n w

omit [Runtime] in
theorem map_eq_map_of_forall₂ {α β γ : Type} {R : α → β → Prop} {f : α → γ} {g : β → γ}
    {l : List α} {l' : List β} (h : List.Forall₂ R l l') (heq : ∀ a ∈ l, ∀ b, R a b → f a = g b) :
    l.map f = l'.map g := by
  induction h with
  | nil => rfl
  | cons hab _ ih =>
      rw [List.map_cons, List.map_cons, heq _ List.mem_cons_self _ hab,
        ih fun a ha => heq a (List.mem_cons_of_mem _ ha)]

theorem SameBut.of_not_container {v w : Json} (harr : ∀ items, v ≠ .arr items)
    (hobj : ∀ entries, v ≠ .obj entries) (h : SameBut v w) : v = w := by
  cases v with
  | arr items => exact absurd rfl (harr items)
  | obj entries => exact absurd rfl (hobj entries)
  | _ => simpa only [SameBut] using h

theorem SameBut.arr {items : List Json} {w : Json} (h : SameBut (.arr items) w) :
    ∃ items', w = .arr items' ∧ List.Forall₂ SameBut items items' := by
  cases w with
  | arr items' => exact ⟨items', rfl, sameItems_iff.mp h⟩
  | _ => cases h

theorem SameBut.obj {entries : List (Text × Json)} {w : Json} (h : SameBut (.obj entries) w) :
    ∃ entries', w = .obj entries' ∧ List.Forall₂
      (fun e e' => e.1 = e'.1 ∧ (sensitiveKey e.1 = true ∨ SameBut e.2 e'.2)) entries entries' := by
  cases w with
  | obj entries' => exact ⟨entries', rfl, sameEntries_iff.mp h⟩
  | _ => cases h

/-- Where nothing leaks, the values under sensitive keys make no difference. -/
theorem redacts_of_not_leaks {n : Nat} {v : Json} (h : ¬ Leaks n v) : Redacts n v := by
  induction n generalizing v with
  | zero => exact fun _ _ => rfl
  | succ n ih =>
      intro w hw
      cases v with
      | arr items =>
          obtain ⟨items', rfl, hitems⟩ := hw.arr
          rw [sanitizeLevels, sanitizeLevels, Json.arr.injEq]
          refine map_eq_map_of_forall₂ (List.forall₂_take 50 hitems) fun v hv w hvw => ?_
          exact ih (fun hleaks => h ⟨v, hv, hleaks⟩) w hvw
      | obj entries =>
          obtain ⟨entries', rfl, hentries⟩ := hw.obj
          rw [sanitizeLevels, sanitizeLevels, Json.obj.injEq, sanitizeEntries_eq, sanitizeEntries_eq]
          -- the entries that are kept agree as the entries themselves do
          have hkept : List.Forall₂ (fun a b : Text × Text × Json => a.1 = b.1 ∧ a.2.1 = b.2.1 ∧
              (sensitiveKey a.2.1 = true ∨ SameBut a.2.2 b.2.2))
              (keptEntries entries) (keptEntries entries') := by
            refine Dict.forall₂_ofList (fun a b hab => hab.1) ?_
            rw [List.forall₂_map_left_iff, List.forall₂_map_right_iff]
            refine (List.forall₂_take 50 hentries).imp fun a b hab => ?_
            exact ⟨congrArg (List.take 120) hab.1, hab⟩
          refine map_eq_map_of_forall₂ hkept fun a ha b hab => ?_
          obtain ⟨hkey, -, hsame⟩ := hab
          rw [← hkey]
          cases hsensitive : sensitiveKey a.1 with
          | true => rfl
          | false =>
              have hnot : ¬ (0 < n ∧ sensitiveKey a.2.1 = true ∨ Leaks n a.2.2) := fun hleaks =>
                h ⟨a, ha, hsensitive, hleaks⟩
              rw [not_or] at hnot
              refine Prod.ext rfl ?_
              rcases hsame with hraw | hsame
              · -- the value is cut off, whatever it is
                obtain rfl : n = 0 := Nat.eq_zero_of_not_pos fun hpos => hnot.1 ⟨hpos, hraw⟩
                rfl
              · exact ih hnot.2 b.2.2 hsame
      | _ =>
          obtain rfl := hw.of_not_container (fun _ h => by cases h) fun _ h => by cases h
          rfl

omit [Runtime] in
/-- One of the first fifty entries is replaced. -/
theorem take_replaced {α : Type} {l before after : List α} {a : α} (b : α)
    (h : l.take 50 = before ++ a :: after) :
    ((before ++ b :: after) ++ l.drop 50).take 50 = before ++ b :: after := by
  have hlen : (before ++ b :: after).length = (l.take 50).length := by rw [h]; simp
  rw [List.length_take] at hlen
  by_cases hl : l.length ≤ 50
  · rw [List.drop_eq_nil_of_le hl, List.append_nil]
    exact List.take_of_length_le (by omega)
  · exact List.take_left' (by omega)

omit [Runtime] in
theorem forall₂_replaced {α : Type} {R : α → α → Prop} (hrefl : ∀ a, R a a)
    {l before after : List α} {a b : α} (hab : R a b) (h : l.take 50 = before ++ a :: after) :
    List.Forall₂ R l ((before ++ b :: after) ++ l.drop 50) := by
  have hl : l = (before ++ a :: after) ++ l.drop 50 := by rw [← h, List.take_append_drop]
  have hsame : ∀ l : List α, List.Forall₂ R l l := fun l => List.forall₂_same.mpr fun a _ => hrefl a
  conv_lhs => rw [hl]
  exact List.rel_append (List.rel_append (hsame before) (.cons hab (hsame after))) (hsame _)

/-- Two values that are sanitized to different ones can be put under a key that leaks. -/
theorem not_redacts_of_leaks {n : Nat} {v : Json} (h : Leaks n v) : ¬ Redacts n v := by
  have hother : ∀ {n : Nat} (v : Json), 0 < n → ∃ w, sanitizeLevels n v ≠ sanitizeLevels n w := by
    intro n v hn
    obtain ⟨m, rfl⟩ := Nat.exists_eq_succ_of_ne_zero hn.ne'
    by_cases hv : sanitizeLevels (m + 1) v = .null
    · exact ⟨.bool true, by rw [hv]; exact nofun⟩
    · exact ⟨.null, hv⟩
  suffices hdiffer : ∃ w, SameBut v w ∧ sanitizeLevels n v ≠ sanitizeLevels n w by
    obtain ⟨w, hw, hne⟩ := hdiffer
    exact fun hredacts => hne (hredacts w hw)
  induction n generalizing v with
  | zero => exact absurd h (by simp [Leaks])
  | succ n ih =>
      cases v with
      | arr items =>
          obtain ⟨v, hv, hleaks⟩ := h
          obtain ⟨w, hw, hne⟩ := ih hleaks
          obtain ⟨before, after, hsplit⟩ := List.append_of_mem hv
          refine ⟨.arr ((before ++ w :: after) ++ items.drop 50), ?_, fun heq => hne ?_⟩
          · exact sameItems_iff.mpr (forall₂_replaced SameBut.refl hw hsplit)
          · rw [sanitizeLevels, sanitizeLevels, Json.arr.injEq, take_replaced w hsplit, hsplit] at heq
            simpa using heq
      | obj entries =>
          obtain ⟨⟨key, e⟩, he, hkey, hleaks⟩ := h
          obtain ⟨w, hw, hne⟩ : ∃ w, (sensitiveKey e.1 = true ∨ SameBut e.2 w) ∧
              sanitizeLevels n e.2 ≠ sanitizeLevels n w := by
            rcases hleaks with ⟨hpos, hraw⟩ | hleaks
            · obtain ⟨w, hne⟩ := hother e.2 hpos
              exact ⟨w, .inl hraw, hne⟩
            · obtain ⟨w, hw, hne⟩ := ih hleaks
              exact ⟨w, .inr hw, hne⟩
          obtain ⟨rfl, before, after, hsplit, hafter⟩ := mem_keptEntries.mp he
          refine ⟨.obj ((before ++ (e.1, w) :: after) ++ entries.drop 50), ?_, fun heq => hne ?_⟩
          · exact sameEntries_iff.mpr
              (forall₂_replaced (a := e) (b := (e.1, w)) (fun a => ⟨rfl, .inr (SameBut.refl a.2)⟩)
                ⟨rfl, hw⟩ hsplit)
          · -- both values are found under the key in what the two are sanitized to
            rw [sanitizeLevels, sanitizeLevels, Json.obj.injEq] at heq
            have hfind : ∀ {entries : Dict Text Json} {v : Json},
                (e.1.take 120, e.1, v) ∈ keptEntries entries →
                Dict.get? (sanitizeEntries (sanitizeLevels n) entries) (e.1.take 120) =
                  some (sanitizeLevels n v) := by
              intro entries v hmem
              have hentry : (e.1.take 120, sanitizeLevels n v) ∈
                  sanitizeEntries (sanitizeLevels n) entries := by
                rw [sanitizeEntries_eq]
                refine List.mem_map.mpr ⟨_, hmem, ?_⟩
                dsimp only at hkey ⊢
                rw [hkey]
                rfl
              exact Dict.get?_of_mem (Dict.nodup_keys_ofList _) hentry
            have hmem := mem_keptEntries.mpr ⟨rfl, before, after, take_replaced (e.1, w) hsplit, hafter⟩
            have hfound := hfind he
            rw [heq, hfind hmem] at hfound
            exact (Option.some.inj hfound).symm
      | _ => exact absurd h (by simp [Leaks])

/-- **When sensitive keys are redacted**: none of them is cut off in a way that hides it. -/
theorem redacts_iff (v : Json) :
    (∀ w, SameBut v w → sanitizeValue v = sanitizeValue w) ↔ ¬ Leaks 5 v :=
  ⟨fun h hleaks => not_redacts_of_leaks hleaks h, redacts_of_not_leaks⟩

end

/-- A password under a key that says so after its first 120 characters. -/
def longKeyed (password : Text) : Json :=
  .obj [(List.replicate 120 'x' ++ "_password", .str password)]

/-- The key is cut off before it is tested, and the password is kept. -/
theorem long_sensitive_key_leaks : ¬ ∀ v w, SameBut v w → sanitizeValue v = sanitizeValue w := by
  intro h
  have hsame : SameBut (longKeyed "hunter2") (longKeyed "correct horse") :=
    ⟨⟨rfl, .inl (by decide +kernel)⟩, trivial⟩
  exact absurd (h _ _ hsame) (by decide +kernel)

end SupportPlatform
