import SupportPlatform.AgentWorkflow
import SupportPlatform.ReferenceCodec

/-! # Planner payloads

What the `before` validators of the planner's response models make of a payload, and what a
payload must be for a decision to be read from it.  The normalization only renames an alias
where the proper field is missing, so it is described by what is found under each key
afterwards (`get?_renameField` and the lemmas beside it), and everything below goes by that.
-/
namespace SupportPlatform
open ControlledAgentWorkflow

/-! ## Normalizing a payload -/

/-- The action that a text is an alias of. -/
def aliasOf [Runtime] (raw : Text) : Option Text :=
  plannerActionAliases.get? ((raw.strip.lower.replace "-" "_").replace " " "_")

/-- The tool that a payload names, under the proper key or else under the other. -/
def suppliedTool (payload : Dict Text Json) : Option Json :=
  match payload.get? "tool_name" with
  | some name => some name
  | none => payload.get? "tool"

/-- The action that normalization settles on, if it does. -/
def resolvedAction [Runtime] (payload : Dict Text Json) : Option Text :=
  match payload.get? "next_action" with
  | some (.str raw) => aliasOf raw
  | none | some .null =>
      match suppliedTool payload with
      | some (.str (_ :: _)) => some "tool"
      | _ => none
  | _ => none

section
variable [Runtime]

theorem normalizeAction_eq (payload : Dict Text Json) :
    normalizeAction payload = match resolvedAction payload with
      | some action => payload.set "next_action" (.str action)
      | none => payload := by
  -- a missing action is read off the tool that the payload names
  have hmissing : (match (match payload.get? "tool_name" with
        | some name => some name
        | none => payload.get? "tool") with
      | some (.str (_ :: _)) => payload.set "next_action" (.str "tool")
      | _ => payload) =
      match (match suppliedTool payload with
        | some (.str (_ :: _)) => some ("tool" : Text)
        | _ => none) with
      | some action => payload.set "next_action" (.str action)
      | none => payload := by
    change (match suppliedTool payload with
      | some (.str (_ :: _)) => payload.set "next_action" (.str "tool")
      | _ => payload) = _
    rcases suppliedTool payload with _ | _ | _ | _ | _ | (_ | _) | _ | _ <;> rfl
  unfold normalizeAction resolvedAction
  rcases payload.get? "next_action" with _ | _ | _ | _ | _ | raw | _ | _
  case some.str =>
    change (match aliasOf raw with
      | some action => payload.set "next_action" (.str action)
      | none => payload) = match aliasOf raw with
      | some action => payload.set "next_action" (.str action)
      | none => payload
    rfl
  case none => exact hmissing
  case some.null => exact hmissing
  all_goals rfl

/-- What an alias stands for. -/
theorem aliasOf_cases {raw action : Text} (h : aliasOf raw = some action) :
    action = "tool" ∨ action = "final" := by
  have hmem := Dict.mem_values_of_get? h
  simp only [plannerActionAliases, Dict.values, List.map_cons, List.map_nil, List.mem_cons,
    List.not_mem_nil, or_false] at hmem
  tauto

/-- An action is an alias of itself. -/
theorem aliasOf_self {action : Text} (h : action = "tool" ∨ action = "final") :
    aliasOf action = some action := by
  rcases h with rfl | rfl <;> rfl

theorem resolvedAction_cases {payload : Dict Text Json} {action : Text}
    (h : resolvedAction payload = some action) : action = "tool" ∨ action = "final" := by
  unfold resolvedAction at h
  split at h
  · exact aliasOf_cases h
  · split at h
    · exact .inl (Option.some.inj h).symm
    · cases h
  · split at h
    · exact .inl (Option.some.inj h).symm
    · cases h
  · cases h

/-- The action of a normalized payload. -/
theorem get?_normalizeAction (payload : Dict Text Json) (key : Text) :
    (normalizeAction payload).get? key =
      if key = "next_action" then
        match resolvedAction payload with
        | some action => some (.str action)
        | none => payload.get? "next_action"
      else payload.get? key := by
  rw [normalizeAction_eq]
  cases resolvedAction payload with
  | some action => exact Dict.get?_set payload _ key _
  | none =>
      by_cases h : key = "next_action"
      · rw [if_pos h, h]
      · rw [if_neg h]

omit [Runtime] in
theorem get?_renameField (payload : Dict Text Json) {old new : Text} (hne : old ≠ new)
    (key : Text) :
    (renameField payload old new).get? key =
      if key = new then (payload.get? new).or (payload.get? old)
      else if key = old then
        match payload.get? new with
        | some _ => payload.get? old
        | none => none
      else payload.get? key := by
  unfold renameField
  cases hnew : payload.get? new with
  | some value =>
      rcases eq_or_ne key new with rfl | hk
      · simp [hnew]
      · rcases eq_or_ne key old with rfl | ho <;> simp [*]
  | none =>
      cases hold : payload.get? old with
      | none =>
          rcases eq_or_ne key new with rfl | hk
          · simp [hnew]
          · rcases eq_or_ne key old with rfl | ho <;> simp [*]
      | some value =>
          dsimp only
          rw [Dict.get?_set, Dict.get?_erase]
          rcases eq_or_ne key new with rfl | hk
          · simp
          · simp [hk]

omit [Runtime] in
theorem get?_dropEmpty (payload : Dict Text Json) (field key : Text) (empty : Json) :
    (dropEmpty payload field empty).get? key =
      if key = field ∧ payload.get? field = some empty then some .null else payload.get? key := by
  unfold dropEmpty
  by_cases h : payload.get? field = some empty
  · rw [if_pos h, Dict.get?_set]
    by_cases hk : key = field <;> simp [hk, h]
  · rw [if_neg h, if_neg (fun hc => h hc.2)]

/-! ## The three ways of a payload -/

theorem normalize_of_tool {payload : Dict Text Json} (h : resolvedAction payload = some ("tool" : Text)) :
    normalizePlannerEntries payload =
      renameField (renameField (payload.set "next_action" (.str "tool")) "tool" "tool_name")
        "arguments" "tool_arguments" := by
  have haction : normalizeAction payload = payload.set "next_action" (.str "tool") := by
    rw [normalizeAction_eq, h]
  unfold normalizePlannerEntries
  rw [haction]
  dsimp only
  rw [Dict.get?_set, if_pos rfl, if_pos rfl]

theorem normalize_of_final {payload : Dict Text Json} (h : resolvedAction payload = some ("final" : Text)) :
    normalizePlannerEntries payload =
      dropEmpty (dropEmpty (payload.set "next_action" (.str "final")) "tool_name" (.str []))
        "tool_arguments" (.obj []) := by
  have haction : normalizeAction payload = payload.set "next_action" (.str "final") := by
    rw [normalizeAction_eq, h]
  unfold normalizePlannerEntries
  rw [haction]
  dsimp only
  rw [Dict.get?_set, if_pos rfl, if_neg (by decide), if_pos rfl]

/-- A payload whose action is not settled does not name an action. -/
theorem get?_of_unresolved {payload : Dict Text Json} (h : resolvedAction payload = none)
    {action : Text} (ha : action = "tool" ∨ action = "final") :
    payload.get? "next_action" ≠ some (.str action) := by
  intro hget
  rw [resolvedAction, hget] at h
  exact nomatch (aliasOf_self ha).symm.trans h

theorem normalize_of_none {payload : Dict Text Json} (h : resolvedAction payload = none) :
    normalizePlannerEntries payload = payload := by
  have haction : normalizeAction payload = payload := by rw [normalizeAction_eq, h]
  unfold normalizePlannerEntries
  rw [haction]
  dsimp only
  rw [if_neg (get?_of_unresolved h (.inl rfl)), if_neg (get?_of_unresolved h (.inr rfl))]

omit [Runtime] in
theorem renameField_done {payload : Dict Text Json} {old new : Text}
    (h : payload.get? new ≠ none ∨ payload.get? old = none) :
    renameField payload old new = payload := by
  unfold renameField
  cases hnew : payload.get? new with
  | some value => rfl
  | none =>
      rw [h.resolve_left (not_not.mpr hnew)]

omit [Runtime] in
theorem dropEmpty_done {payload : Dict Text Json} {field : Text} {empty : Json}
    (h : payload.get? field ≠ some empty) : dropEmpty payload field empty = payload := if_neg h

/-- What is found in a payload that was normalized for a tool. -/
theorem get?_of_tool {payload : Dict Text Json} (h : resolvedAction payload = some ("tool" : Text)) :
    (normalizePlannerEntries payload).get? "next_action" = some (.str "tool") ∧
    (normalizePlannerEntries payload).get? "tool_name" = suppliedTool payload ∧
    (normalizePlannerEntries payload).get? "tool" =
      (if payload.get? "tool_name" = none then none else payload.get? "tool") ∧
    (normalizePlannerEntries payload).get? "tool_arguments" =
      (payload.get? "tool_arguments").or (payload.get? "arguments") ∧
    (normalizePlannerEntries payload).get? "arguments" =
      (if payload.get? "tool_arguments" = none then none else payload.get? "arguments") := by
  have htool : ∀ (set : Dict Text Json), suppliedTool set = (set.get? "tool_name").or
      (set.get? "tool") := fun set => by
    unfold suppliedTool
    cases set.get? "tool_name" <;> rfl
  rw [normalize_of_tool h]
  have hname : ∀ key : Text, key ≠ "next_action" →
      (payload.set "next_action" (.str "tool")).get? key = payload.get? key := fun key hk => by
    rw [Dict.get?_set, if_neg hk]
  have hne₁ : ("tool" : Text) ≠ "tool_name" := by decide
  have hne₂ : ("arguments" : Text) ≠ "tool_arguments" := by decide
  refine ⟨?_, ?_, ?_, ?_, ?_⟩
  · rw [get?_renameField _ hne₂, if_neg (by decide), if_neg (by decide), get?_renameField _ hne₁,
      if_neg (by decide), if_neg (by decide), Dict.get?_set, if_pos rfl]
  · rw [get?_renameField _ hne₂, if_neg (by decide), if_neg (by decide), get?_renameField _ hne₁,
      if_pos rfl, hname _ (by decide), hname _ (by decide), htool]
  · rw [get?_renameField _ hne₂, if_neg (by decide), if_neg (by decide), get?_renameField _ hne₁,
      if_neg hne₁, if_pos rfl, hname _ (by decide), hname _ (by decide)]
    cases payload.get? "tool_name" <;> simp
  · rw [get?_renameField _ hne₂, if_pos rfl, get?_renameField _ hne₁, get?_renameField _ hne₁,
      if_neg (by decide), if_neg (by decide), if_neg (by decide), if_neg (by decide),
      hname _ (by decide), hname _ (by decide)]
  · rw [get?_renameField _ hne₂, if_neg hne₂, if_pos rfl, get?_renameField _ hne₁,
      get?_renameField _ hne₁, if_neg (by decide), if_neg (by decide), if_neg (by decide),
      if_neg (by decide), hname _ (by decide), hname _ (by decide)]
    cases payload.get? "tool_arguments" <;> simp

omit [Runtime] in
theorem ite_ite_or {α : Type} (p q : Prop) [Decidable p] [Decidable q] (a b : α) :
    (if q then a else if p then a else b) = if p ∨ q then a else b := by
  by_cases hp : p <;> by_cases hq : q <;> simp [hp, hq]

/-- What is found in a payload that was normalized for the final resolution. -/
theorem get?_of_final {payload : Dict Text Json} (h : resolvedAction payload = some ("final" : Text))
    (key : Text) (hk : key ≠ "next_action") :
    (normalizePlannerEntries payload).get? key =
      if (key = "tool_name" ∧ payload.get? "tool_name" = some (.str [])) ∨
          (key = "tool_arguments" ∧ payload.get? "tool_arguments" = some (.obj [])) then some .null
      else payload.get? key := by
  have hname : ∀ key : Text, key ≠ "next_action" →
      (payload.set "next_action" (.str "final")).get? key = payload.get? key := fun key hk => by
    rw [Dict.get?_set, if_neg hk]
  have hname' : ∀ key : Text, key ≠ "next_action" →
      (dropEmpty (payload.set "next_action" (.str "final")) "tool_name" (.str [])).get? key =
        if key = "tool_name" ∧ payload.get? "tool_name" = some (.str []) then some .null
        else payload.get? key := fun key hk => by
    rw [get?_dropEmpty, hname _ (by decide), hname _ hk]
  have harguments := hname' "tool_arguments" (by decide)
  rw [if_neg fun hc => absurd hc.1 (by decide)] at harguments
  rw [normalize_of_final h, get?_dropEmpty, harguments, hname' key hk]
  exact ite_ite_or _ _ _ _

theorem next_action_of_final {payload : Dict Text Json}
    (h : resolvedAction payload = some ("final" : Text)) :
    (normalizePlannerEntries payload).get? "next_action" = some (.str "final") := by
  rw [normalize_of_final h, get?_dropEmpty, if_neg fun hc => absurd hc.1 (by decide),
    get?_dropEmpty, if_neg fun hc => absurd hc.1 (by decide), Dict.get?_set, if_pos rfl]

/-- **Normalizing twice is normalizing once.** -/
theorem normalizePlannerEntries_idempotent (payload : Dict Text Json) :
    normalizePlannerEntries (normalizePlannerEntries payload) = normalizePlannerEntries payload := by
  cases h : resolvedAction payload with
  | none => rw [normalize_of_none h, normalize_of_none h]
  | some action =>
      rcases resolvedAction_cases h with rfl | rfl
      · obtain ⟨haction, hname, htool, harguments, hrest⟩ := get?_of_tool h
        generalize normalizePlannerEntries payload = q at *
        have hq : resolvedAction q = some ("tool" : Text) := by
          rw [resolvedAction, haction]
          rfl
        rw [normalize_of_tool hq, Dict.set_of_get? haction]
        have hdone : renameField q "tool" "tool_name" = q := by
          refine renameField_done ?_
          rw [hname, htool, suppliedTool]
          cases payload.get? "tool_name" <;> simp
        rw [hdone]
        refine renameField_done ?_
        rw [harguments, hrest]
        cases payload.get? "tool_arguments" <;> simp
      · have haction := next_action_of_final h
        have hget := fun key hk => get?_of_final h key hk
        generalize normalizePlannerEntries payload = q at *
        have hq : resolvedAction q = some ("final" : Text) := by
          rw [resolvedAction, haction]
          rfl
        rw [normalize_of_final hq, Dict.set_of_get? haction]
        have hdone : dropEmpty q "tool_name" (.str []) = q := by
          refine dropEmpty_done ?_
          rw [hget _ (by decide)]
          split
          · exact fun hc => by cases hc
          · rename_i hc
            exact fun he => hc (.inl ⟨rfl, he⟩)
        rw [hdone]
        refine dropEmpty_done ?_
        rw [hget _ (by decide)]
        split
        · exact fun hc => by cases hc
        · rename_i hc
          exact fun he => hc (.inr ⟨rfl, he⟩)

/-! ## The mandated literals -/

/-- What a dictionary cannot have as a key or a set as a member. -/
def Unhashable : Option Json → Prop
  | some (.arr _) | some (.obj _) => True
  | _ => False

/-- **A payload whose tool name cannot be looked up**: its action is missing and its tool name
is a list or an object, or its action is an alias of `tool` and the tool that it names, under
either key, is one. -/
def NamesUnhashableTool (payload : Dict Text Json) : Prop :=
  match payload.get? "next_action" with
  | none | some .null => Unhashable (payload.get? "tool_name")
  | some (.str raw) => aliasOf raw = some ("tool" : Text) ∧ Unhashable (suppliedTool payload)
  | _ => False

/-- The second half of `fillRequiredTool`: the lookup of the tool name. -/
def lookUpTool (toolName : Text) (payload : Dict Text Json) : Except PyExc (Dict Text Json) :=
  if payload.get? "next_action" = some (.str "tool") then
    match payload.get? "tool_name" with
    | some (.arr _) => .error ⟨.typeError, "unhashable type: 'list'"⟩
    | some (.obj _) => .error ⟨.typeError, "unhashable type: 'dict'"⟩
    | none | some .null | some (.str []) => .ok (payload.set "tool_name" (.str toolName))
    | some _ => .ok payload
  else .ok payload

section
omit [Runtime]

theorem fillRequiredTool_eq (toolName : Text) (payload : Dict Text Json) :
    fillRequiredTool toolName payload = lookUpTool toolName
      (match payload.get? "next_action" with
      | none | some .null => payload.set "next_action" (.str "tool")
      | some _ => payload) := rfl

theorem lookUpTool_ok (toolName : Text) (payload : Dict Text Json) :
    (∃ out, lookUpTool toolName payload = .ok out) ↔
      ¬ (payload.get? "next_action" = some (.str "tool") ∧
        Unhashable (payload.get? "tool_name")) := by
  unfold lookUpTool
  by_cases h : payload.get? "next_action" = some (.str "tool")
  · rw [if_pos h]
    rcases payload.get? "tool_name" with _ | _ | _ | _ | _ | (_ | _) | _ | _
    case some.arr => exact ⟨fun ⟨_, h⟩ => (nomatch h), fun hn => absurd ⟨h, trivial⟩ hn⟩
    case some.obj => exact ⟨fun ⟨_, h⟩ => (nomatch h), fun hn => absurd ⟨h, trivial⟩ hn⟩
    all_goals exact ⟨fun _ hc => hc.2, fun _ => ⟨_, rfl⟩⟩
  · rw [if_neg h]
    exact ⟨fun _ hc => h hc.1, fun _ => ⟨_, rfl⟩⟩

/-- Filling in the literals fails just on a tool name that cannot be looked up. -/
theorem fillRequiredTool_ok (toolName : Text) (payload : Dict Text Json) :
    (∃ out, fillRequiredTool toolName payload = .ok out) ↔
      ¬ ((payload.get? "next_action" = none ∨ payload.get? "next_action" = some .null ∨
        payload.get? "next_action" = some (.str "tool")) ∧
          Unhashable (payload.get? "tool_name")) := by
  have hset : ∀ action : Option Json, (action = none ∨ action = some .null) →
      ((∃ out, lookUpTool toolName (payload.set "next_action" (.str "tool")) = .ok out) ↔
        ¬ ((action = none ∨ action = some .null ∨ action = some (.str "tool")) ∧
          Unhashable (payload.get? "tool_name"))) := by
    intro action hcases
    rw [lookUpTool_ok, Dict.get?_set, Dict.get?_set, if_pos rfl, if_neg (by decide)]
    exact not_congr (and_congr_left' ⟨fun _ => hcases.imp_right .inl, fun _ => rfl⟩)
  rw [fillRequiredTool_eq]
  cases h : payload.get? "next_action" with
  | none => exact hset none (.inl rfl)
  | some action =>
      cases action with
      | null => exact hset (some .null) (.inr rfl)
      | _ =>
          refine (lookUpTool_ok toolName payload).trans (not_congr (and_congr_left' ?_))
          rw [h]
          exact ⟨fun h => .inr (.inr h), fun h => (h.resolve_left nofun).resolve_left nofun⟩

end

/-- A payload that is taken for a tool call. -/
theorem namesUnhashable_of_tool {payload : Dict Text Json}
    (h : resolvedAction payload = some ("tool" : Text)) :
    NamesUnhashableTool payload ↔ Unhashable (suppliedTool payload) := by
  -- a missing action was read off a tool name, which is a text
  have hmissing : (match suppliedTool payload with
        | some (.str (_ :: _)) => some ("tool" : Text)
        | _ => none) = some ("tool" : Text) →
      (Unhashable (payload.get? "tool_name") ↔ Unhashable (suppliedTool payload)) := by
    intro hname
    unfold suppliedTool at hname ⊢
    cases hget : payload.get? "tool_name" with
    | some name => exact Iff.rfl
    | none =>
        rw [hget] at hname
        rcases htool : payload.get? "tool" with _ | _ | _ | _ | _ | _ | _ | _ <;> rw [htool] at hname
        case some.arr => cases hname
        case some.obj => cases hname
        all_goals exact Iff.rfl
  unfold NamesUnhashableTool
  unfold resolvedAction at h
  rcases haction : payload.get? "next_action" with _ | _ | _ | _ | _ | raw | _ | _ <;>
    rw [haction] at h
  case some.str => exact and_iff_right h
  case none => exact hmissing h
  case some.null => exact hmissing h
  all_goals cases h

theorem namesUnhashable_normalized (payload : Dict Text Json) :
    ((normalizePlannerEntries payload).get? "next_action" = none ∨
      (normalizePlannerEntries payload).get? "next_action" = some .null ∨
        (normalizePlannerEntries payload).get? "next_action" = some (.str "tool")) ∧
      Unhashable ((normalizePlannerEntries payload).get? "tool_name") ↔
    NamesUnhashableTool payload := by
  cases h : resolvedAction payload with
  | some action =>
      rcases resolvedAction_cases h with rfl | rfl
      · obtain ⟨haction, hname, -⟩ := get?_of_tool h
        rw [haction, hname, namesUnhashable_of_tool h]
        exact and_iff_right (.inr (.inr rfl))
      · rw [next_action_of_final h]
        have hmissing : (match suppliedTool payload with
            | some (.str (_ :: _)) => some ("tool" : Text)
            | _ => none) ≠ some ("final" : Text) := by
          intro hc
          split at hc
          · exact absurd (Option.some.inj hc) (by decide)
          · cases hc
        have hfinal : ¬ NamesUnhashableTool payload := by
          unfold NamesUnhashableTool
          unfold resolvedAction at h
          rcases haction : payload.get? "next_action" with _ | _ | _ | _ | _ | raw | _ | _ <;>
            rw [haction] at h
          case some.str => exact fun hc => absurd (hc.1.symm.trans h) (by decide)
          case none => exact fun _ => hmissing h
          case some.null => exact fun _ => hmissing h
          all_goals cases h
        refine ⟨fun hc => ?_, fun hc => absurd hc hfinal⟩
        rcases hc.1 with hc | hc | hc
        · cases hc
        · cases hc
        · exact absurd hc (by decide)
  | none =>
      rw [normalize_of_none h]
      have htool := get?_of_unresolved h (.inl rfl)
      unfold NamesUnhashableTool
      unfold resolvedAction at h
      rcases haction : payload.get? "next_action" with _ | _ | _ | _ | _ | raw | _ | _
      case none => exact and_iff_right (.inl rfl)
      case some.null => exact and_iff_right (.inr (.inl rfl))
      case some.str =>
        rw [haction] at h htool
        refine ⟨fun hc => ?_, fun hc => absurd (h.symm.trans hc.1) nofun⟩
        exact absurd ((hc.1.resolve_left nofun).resolve_left nofun) htool
      all_goals
        refine ⟨fun hc => ?_, False.elim⟩
        rcases hc.1 with hc | hc | hc <;> cases hc

/-- **The normalization for a mandated tool** fails just on a tool name that cannot be looked
up. -/
theorem normalizeRequired_ok (toolName : Text) (payload : Dict Text Json) :
    (∃ out, normalizeRequiredToolPayload toolName (.obj payload) = .ok out) ↔
      ¬ NamesUnhashableTool payload := by
  have hfilled : (∃ out, normalizeRequiredToolPayload toolName (.obj payload) = .ok out) ↔
      ∃ out, fillRequiredTool toolName (normalizePlannerEntries payload) = .ok out := by
    change (∃ out, (do
      let filled ← fillRequiredTool toolName (normalizePlannerEntries payload)
      return normalizePlannerPayload (.obj filled) : Except PyExc Json) = .ok out) ↔ _
    cases fillRequiredTool toolName (normalizePlannerEntries payload) with
    | ok filled => exact ⟨fun _ => ⟨filled, rfl⟩, fun _ => ⟨_, rfl⟩⟩
    | error e => exact ⟨fun ⟨_, h⟩ => (nomatch h), fun ⟨_, h⟩ => (nomatch h)⟩
  rw [hfilled, fillRequiredTool_ok, namesUnhashable_normalized]

end

/-! ## Validation -/

section
variable [Runtime] [Pydantic]

/-- The response models of the planner. -/
def plannerModels : List ResponseModel :=
  [.plannerDecision, .requiredIncidentDecision, .requiredRetrievalDecision]

/-- The tools that the server mandates. -/
def mandatedTools : List Text := ["get_incident", "retrieve_runbooks"]

/-- **Total validation of a message content**: the normalization raises nothing, the validation
raises nothing but a `ValidationError`, and the provider reports nothing else than a
`StructuredOutputValidationError` for it. -/
structure TotalValidation (value : Json) : Prop where
  normalizes : ∀ toolName ∈ mandatedTools, ∃ out, normalizeRequiredToolPayload toolName value = .ok out
  validates : ∀ model ∈ plannerModels, ∀ e, model.modelValidate value = .error e →
    e.cls = .validationError
  reported : ∀ model ∈ plannerModels, ∀ body content,
    OllamaLLMProvider.contentOf body = some content → Pydantic.parseJson content.utf8 = some value →
    ∀ e, (OllamaLLMProvider.interpret model (.body (some (.obj body)))).2 = .error e →
      e.cls = .structuredOutputValidationError

/-- A value whose tool name cannot be looked up. -/
def UnhashableTool : Json → Prop
  | .obj payload => NamesUnhashableTool payload
  | _ => False

omit [Runtime] in
theorem validated_error {α : Type} {model : Text} {input : Json} {out : Option α} {e : PyExc}
    (h : validated model input out = .error e) : e.cls = .validationError := by
  cases out <;> cases h
  rfl

/-- A mandated tool's decision is read, or a `ValidationError` is raised, once the payload has
been normalized. -/
theorem required_error {α : Type} {model toolName : Text} {input : Json → Option α} {value : Json}
    {out : Json} (hout : normalizeRequiredToolPayload toolName value = .ok out) {e : PyExc}
    (h : RequiredDecision.modelValidate model toolName input value = .error e) :
    e.cls = .validationError := by
  rw [RequiredDecision.modelValidate, hout] at h
  exact validated_error h

theorem interpret_error {model : ResponseModel} {body : Dict Text Json} {content : Text}
    {value : Json} (hcontent : OllamaLLMProvider.contentOf body = some content)
    (hvalue : Pydantic.parseJson content.utf8 = some value)
    (hvalid : ∀ e, model.modelValidate value = .error e → e.cls = .validationError) {e : PyExc}
    (h : (OllamaLLMProvider.interpret model (.body (some (.obj body)))).2 = .error e) :
    e.cls = .structuredOutputValidationError := by
  have hjson : model.modelValidateJson content = model.modelValidate value := by
    rw [ResponseModel.modelValidateJson, hvalue]
  simp only [OllamaLLMProvider.interpret, hcontent, hjson] at h
  cases hv : model.modelValidate value with
  | ok decision =>
      rw [hv] at h
      cases h
  | error exc =>
      have hA : exc.isA .validationError = true := by
        rw [PyExc.isA, hvalid exc hv]
        rfl
      simp only [hv, if_pos hA] at h
      exact (Except.error.inj h) ▸ rfl

/-- **Validation is total but for tool names that cannot be looked up.** -/
theorem totalValidation_iff (value : Json) : TotalValidation value ↔ ¬ UnhashableTool value := by
  have hnormal : ∀ toolName : Text, (∃ out, normalizeRequiredToolPayload toolName value = .ok out) ↔
      ¬ UnhashableTool value := by
    intro toolName
    cases value with
    | obj payload => exact normalizeRequired_ok toolName payload
    | _ => exact ⟨fun _ h => h, fun _ => ⟨_, rfl⟩⟩
  refine ⟨fun h => (hnormal _).mp (h.normalizes "get_incident" (by decide)), fun h => ?_⟩
  have hvalid : ∀ model ∈ plannerModels, ∀ e, model.modelValidate value = .error e →
      e.cls = .validationError := by
    intro model hm e he
    obtain ⟨_, hincident⟩ := (hnormal "get_incident").mpr h
    obtain ⟨_, hretrieve⟩ := (hnormal "retrieve_runbooks").mpr h
    cases model with
    | requiredIncidentDecision => exact required_error hincident he
    | requiredRetrievalDecision => exact required_error hretrieve he
    | plannerDecision => exact validated_error he
    | agentFinalResponse => exact absurd hm (by decide)
  refine ⟨fun toolName _ => (hnormal toolName).mpr h, hvalid, ?_⟩
  intro model hm body content hcontent hvalue e he
  exact interpret_error hcontent hvalue (hvalid model hm) he

end

/-- A planner that writes the tool name as a list: the message is not repaired, since what is
raised is a `TypeError`. -/
theorem listedTool_raises : ¬ TotalValidation (.obj [("goal", .str "Load the incident."),
    ("next_action", .str "tool"), ("tool_name", .arr [.str "get_incident"]),
    ("tool_arguments", .obj [("incident_id", .int 1)]), ("reason_summary", .str "Evidence."),
    ("expected_evidence", .str "The incident.")]) := by
  intro h
  obtain ⟨out, hout⟩ := h.normalizes "get_incident" (by decide)
  cases hout

/-! ## What a decision was read from -/

section
variable [Runtime]

/-- The payload holds the value under just one of the two keys. -/
def OneOf (payload : Dict Text Json) (key other : Text) (value : Json) : Prop :=
  payload.get? key = some value ∧ payload.get? other = none ∨
    payload.get? key = none ∧ payload.get? other = some value

/-- What the payload holds under the keys is null or empty. -/
def NoneOf (payload : Dict Text Json) (keys : List Text) (empty : Json) : Prop :=
  ∀ key ∈ keys, ∀ v, payload.get? key = some v → v = .null ∨ v = empty

/-- The payload names no tool but the mandated one, and no action but a tool call. -/
structure Mandated (payload : Dict Text Json) (toolName : Text) : Prop where
  tool : ∀ key ∈ (["tool_name", "tool"] : List Text), ∀ v, payload.get? key = some v →
    v = .null ∨ v = .str [] ∨ v = .str toolName
  action : payload.get? "next_action" = none ∨ payload.get? "next_action" = some .null ∨
    ∃ raw, payload.get? "next_action" = some (.str raw) ∧ aliasOf raw = some ("tool" : Text)

section
omit [Runtime]

/-- A field that the model does not have is refused. -/
theorem get?_of_strict {fields : List Text} {entries read : Dict Text Json}
    (h : strictEntries fields (.obj entries) = some read) {key : Text} (hk : key ∉ fields) :
    entries.get? key = none := by
  rw [strictEntries, dictOf, Option.bind_some] at h
  split at h
  · rename_i hall
    refine Dict.get?_eq_none.mpr fun hmem => ?_
    obtain ⟨e, he, rfl⟩ := List.mem_map.mp hmem
    exact hk (of_decide_eq_true (List.all_eq_true.mp hall e he))
  · cases h

/-- A field that is given is read of its value. -/
theorem optional_eq_some {α : Type} {read : Json → Option α} {value : Option Json} {a : α}
    (h : optional read value = some (some a)) : ∃ v, value = some v ∧ read v = some a := by
  rcases value with _ | v
  · cases h
  · cases v with
    | null => cases h
    | _ =>
        obtain ⟨_, hread, ha⟩ := Option.map_eq_some_iff.mp h
        exact ⟨_, rfl, Option.some.inj ha ▸ hread⟩

/-- A field that is not given is missing or null. -/
theorem optional_eq_none {α : Type} {read : Json → Option α} {value : Option Json}
    (h : optional read value = some none) : ∀ v, value = some v → v = .null := by
  intro v hv
  subst hv
  cases v with
  | null => rfl
  | _ =>
      obtain ⟨_, -, h⟩ := Option.map_eq_some_iff.mp h
      cases h

theorem boundedText_str {low high : Nat} {v : Json} {x : BoundedText low high}
    (h : boundedText low high v = some x) : v = .str x.1 := by
  cases v with
  | str s => rw [boundedText_val h]
  | _ => cases h

theorem dictOf_obj {v : Json} {entries : Dict Text Json} (h : dictOf v = some entries) :
    v = .obj entries := by
  cases v <;> cases h
  rfl

/-- What is read of a valid payload. -/
theorem plannerDecision_fields {entries : Dict Text Json} {d : PlannerDecision}
    (h : PlannerDecision.ofJson (.obj entries) = some d) :
    entries.get? "tool" = none ∧ entries.get? "arguments" = none ∧
    (∀ name arguments, d.nextAction = .tool name arguments →
      entries.get? "next_action" = some (.str "tool") ∧
      entries.get? "tool_name" = some (.str name.1) ∧
      entries.get? "tool_arguments" = some (.obj arguments)) ∧
    (d.nextAction = .final → entries.get? "next_action" = some (.str "final") ∧
      (∀ v, entries.get? "tool_name" = some v → v = .null) ∧
      ∀ v, entries.get? "tool_arguments" = some v → v = .null) := by
  simp only [PlannerDecision.ofJson, Option.bind_eq_bind, Option.bind_eq_some_iff] at h
  obtain ⟨read, hread, goal, -, action, ⟨raw, hraw, haction⟩, name, hname, arguments, harguments,
    reason, -, expected, -, shape, hshape, h⟩ := h
  cases h
  obtain rfl := strictEntries_obj hread
  have hraw' : read.get? "next_action" = some (.str action) := by
    rw [hraw]
    cases raw <;> cases haction
    rfl
  refine ⟨get?_of_strict hread (by decide), get?_of_strict hread (by decide), ?_, ?_⟩
  · rintro tool args rfl
    unfold PlannerDecision.actionOf at hshape
    split at hshape
    · rename_i htool
      subst htool
      split at hshape
      · rename_i text htext given
        split at hshape
        · cases hshape
          obtain ⟨v, hv, hname⟩ := optional_eq_some hname
          obtain ⟨u, hu, harguments⟩ := optional_eq_some harguments
          exact ⟨hraw', boundedText_str hname ▸ hv, dictOf_obj harguments ▸ hu⟩
        · cases hshape
      · cases hshape
    · split at hshape
      · split at hshape <;> cases hshape
      · cases hshape
  · rintro rfl
    unfold PlannerDecision.actionOf at hshape
    split at hshape
    · split at hshape
      · split at hshape <;> cases hshape
      · cases hshape
    · split at hshape
      · rename_i hfinal
        subst hfinal
        split at hshape
        · exact ⟨hraw', optional_eq_none hname, optional_eq_none harguments⟩
        · cases hshape
      · cases hshape

end

variable [Pydantic]

omit [Runtime] in
theorem validated_ok {α : Type} {model : Text} {input : Json} {out : Option α} {a : α}
    (h : validated model input out = .ok a) : out = some a := by
  cases out <;> cases h
  rfl

omit [Pydantic] in
/-- A normalized payload that asks for a tool was one that does. -/
theorem resolvedAction_of_tool {payload : Dict Text Json}
    (h : (normalizePlannerEntries payload).get? "next_action" = some (.str "tool")) :
    resolvedAction payload = some ("tool" : Text) := by
  cases hr : resolvedAction payload with
  | none =>
      rw [normalize_of_none hr] at h
      exact absurd h (get?_of_unresolved hr (.inl rfl))
  | some action =>
      rcases resolvedAction_cases hr with rfl | rfl
      · rfl
      · rw [next_action_of_final hr] at h
        exact absurd (Json.str.inj (Option.some.inj h)) (by decide)

omit [Pydantic] in
theorem resolvedAction_of_final {payload : Dict Text Json}
    (h : (normalizePlannerEntries payload).get? "next_action" = some (.str "final")) :
    resolvedAction payload = some ("final" : Text) := by
  cases hr : resolvedAction payload with
  | none =>
      rw [normalize_of_none hr] at h
      exact absurd h (get?_of_unresolved hr (.inr rfl))
  | some action =>
      rcases resolvedAction_cases hr with rfl | rfl
      · rw [(get?_of_tool hr).1] at h
        exact absurd (Json.str.inj (Option.some.inj h)) (by decide)
      · rfl

omit [Runtime] [Pydantic] in
/-- One of two keys holds what is found under the first or else under the second. -/
theorem oneOf_of_or {payload : Dict Text Json} {key other : Text} {value : Json}
    (hvalue : (payload.get? key).or (payload.get? other) = some value)
    (hother : (if payload.get? key = none then none else payload.get? other) = none) :
    OneOf payload key other value := by
  cases hkey : payload.get? key with
  | none =>
      rw [hkey, Option.none_or] at hvalue
      exact .inr ⟨hkey, hvalue⟩
  | some v =>
      rw [hkey, Option.some_or] at hvalue
      rw [hkey, if_neg nofun] at hother
      exact .inl ⟨hkey.trans hvalue, hother⟩

/-- **A tool decision** takes the tool and the arguments as they are given. -/
theorem tool_of_valid {payload : Dict Text Json} {d : PlannerDecision} {name : BoundedText 1 80}
    {arguments : Dict Text Json} (h : PlannerDecision.modelValidate (.obj payload) = .ok d)
    (hd : d.nextAction = .tool name arguments) :
    OneOf payload "tool_name" "tool" (.str name.1) ∧
      OneOf payload "tool_arguments" "arguments" (.obj arguments) := by
  obtain ⟨htool, hrest, hfields, -⟩ := plannerDecision_fields (validated_ok h)
  obtain ⟨haction, hname, harguments⟩ := hfields name arguments hd
  obtain ⟨-, hname', htool', harguments', hrest'⟩ := get?_of_tool (resolvedAction_of_tool haction)
  rw [hname'] at hname
  have hor : suppliedTool payload = (payload.get? "tool_name").or (payload.get? "tool") := by
    unfold suppliedTool
    cases payload.get? "tool_name" <;> rfl
  exact ⟨oneOf_of_or (hor ▸ hname) (htool' ▸ htool),
    oneOf_of_or (harguments' ▸ harguments) (hrest' ▸ hrest)⟩

/-- **A final decision** is read of a payload without a tool and without arguments. -/
theorem final_of_valid {payload : Dict Text Json} {d : PlannerDecision}
    (h : PlannerDecision.modelValidate (.obj payload) = .ok d) (hd : d.nextAction = .final) :
    NoneOf payload ["tool_name", "tool"] (.str []) ∧
      NoneOf payload ["tool_arguments", "arguments"] (.obj []) := by
  obtain ⟨htool, hrest, -, hfields⟩ := plannerDecision_fields (validated_ok h)
  obtain ⟨haction, hname, harguments⟩ := hfields hd
  have hget := fun key hk => get?_of_final (resolvedAction_of_final haction) key hk
  have hgone : ∀ key : Text, key ≠ "next_action" → key ≠ "tool_name" → key ≠ "tool_arguments" →
      (normalizePlannerEntries payload).get? key = none → payload.get? key = none := by
    intro key h₁ h₂ h₃ hkey
    rwa [hget key h₁, if_neg (by tauto)] at hkey
  refine ⟨fun key hkey v hv => ?_, fun key hkey v hv => ?_⟩
  · rcases List.mem_pair.mp hkey with rfl | rfl
    · by_cases hempty : payload.get? "tool_name" = some (.str [])
      · exact .inr (Option.some.inj (hv.symm.trans hempty))
      · refine .inl (hname v ?_)
        rw [hget _ (by decide), if_neg, hv]
        rintro (⟨-, hc⟩ | ⟨hc, -⟩)
        · exact hempty hc
        · exact absurd hc (by decide)
    · exact nomatch (hgone "tool" (by decide) (by decide) (by decide) htool).symm.trans hv
  · rcases List.mem_pair.mp hkey with rfl | rfl
    · by_cases hempty : payload.get? "tool_arguments" = some (.obj [])
      · exact .inr (Option.some.inj (hv.symm.trans hempty))
      · refine .inl (harguments v ?_)
        rw [hget _ (by decide), if_neg, hv]
        rintro (⟨hc, -⟩ | ⟨-, hc⟩)
        · exact absurd hc (by decide)
        · exact hempty hc
    · exact nomatch (hgone "arguments" (by decide) (by decide) (by decide) hrest).symm.trans hv

/-- The parser builds dictionaries: the keys of an object within an object are distinct. -/
def ParsesDicts : Prop := ∀ (bytes : Bytes) (payload : Dict Text Json) (key : Text)
  (entries : Dict Text Json), Pydantic.parseJson bytes = some (.obj payload) →
    payload.get? key = some (.obj entries) → entries.keys.Nodup

/-- The arguments of a call are a dictionary. -/
def PlannerDecision.Keyed (d : PlannerDecision) : Prop :=
  ∀ name arguments, d.nextAction = .tool name arguments → (Dict.keys arguments).Nodup

/-- **What is read of a reply** is the validation of a content that was parsed. -/
theorem read_of_interpret {model : ResponseModel} {reply : ChatReply} {response : model.Instance}
    (h : (OllamaLLMProvider.interpret model reply).2 = .ok response) :
    ∃ bytes value, Pydantic.parseJson bytes = some value ∧
      model.modelValidate value = .ok response := by
  unfold OllamaLLMProvider.interpret at h
  split at h
  · cases h
  · cases h
  · cases h
  · dsimp only at h
    split at h
    · cases h
    · rename_i content _
      cases hvalid : model.modelValidateJson content with
      | error e =>
          rw [hvalid] at h
          dsimp only at h
          split at h <;> cases h
      | ok found =>
          rw [hvalid] at h
          obtain rfl : found = response := Except.ok.inj h
          rw [ResponseModel.modelValidateJson] at hvalid
          split at hvalid
          · exact ⟨_, _, ‹_›, hvalid⟩
          · cases hvalid
  · cases h
  · cases h

/-- The arguments of a decision that is read of a reply are a dictionary. -/
theorem keyed_of_interpret (hdicts : ParsesDicts) {reply : ChatReply} {d : PlannerDecision}
    (h : (OllamaLLMProvider.interpret .plannerDecision reply).2 = .ok d) : d.Keyed := by
  obtain ⟨bytes, value, hparse, hvalid⟩ := read_of_interpret h
  intro name arguments haction
  cases value with
  | obj payload =>
      rcases (tool_of_valid hvalid haction).2 with ⟨hkey, -⟩ | ⟨-, hkey⟩
      · exact hdicts bytes payload _ _ hparse hkey
      · exact hdicts bytes payload _ _ hparse hkey
  | _ => cases hvalid

omit [Pydantic] [Runtime] in
/-- The payload as the mandated literals are filled in. -/
theorem fillRequiredTool_get {toolName : Text} {payload filled : Dict Text Json}
    (h : fillRequiredTool toolName payload = .ok filled) :
    (payload.get? "next_action" = none ∨ payload.get? "next_action" = some .null ∨
      payload.get? "next_action" = some (.str "tool")) ∧
      filled.get? "tool" = payload.get? "tool" ∧
      ((payload.get? "tool_name" = none ∨ payload.get? "tool_name" = some .null ∨
        payload.get? "tool_name" = some (.str [])) ∧
          filled.get? "tool_name" = some (.str toolName) ∨
        payload.get? "tool_name" ≠ none ∧
          filled.get? "tool_name" = payload.get? "tool_name") ∨
    payload.get? "next_action" ≠ some (.str "tool") ∧ filled = payload := by
  -- the lookup, for a payload whose action is `tool`
  have hlook : ∀ q : Dict Text Json, q.get? "next_action" = some (.str "tool") →
      lookUpTool toolName q = .ok filled →
      filled.get? "tool" = q.get? "tool" ∧
      ((q.get? "tool_name" = none ∨ q.get? "tool_name" = some .null ∨
        q.get? "tool_name" = some (.str [])) ∧ filled.get? "tool_name" = some (.str toolName) ∨
        q.get? "tool_name" ≠ none ∧ filled.get? "tool_name" = q.get? "tool_name") := by
    intro q haction hq
    have hset : (q.set "tool_name" (.str toolName)).get? "tool" = q.get? "tool" ∧
        (q.set "tool_name" (.str toolName)).get? "tool_name" = some (.str toolName) := by
      rw [Dict.get?_set, Dict.get?_set, if_neg (by decide), if_pos rfl]
      exact ⟨rfl, rfl⟩
    unfold lookUpTool at hq
    rw [if_pos haction] at hq
    rcases hname : q.get? "tool_name" with _ | _ | _ | _ | _ | (_ | _) | _ | _ <;> rw [hname] at hq
    case none => cases hq; exact ⟨hset.1, .inl ⟨.inl rfl, hset.2⟩⟩
    case some.null => cases hq; exact ⟨hset.1, .inl ⟨.inr (.inl rfl), hset.2⟩⟩
    case some.str.nil => cases hq; exact ⟨hset.1, .inl ⟨.inr (.inr rfl), hset.2⟩⟩
    case some.arr => cases hq
    case some.obj => cases hq
    all_goals
      cases hq
      exact ⟨rfl, .inr ⟨nofun, hname⟩⟩
  have hset : ∀ key : Text, key ≠ "next_action" →
      (payload.set "next_action" (.str "tool")).get? key = payload.get? key := fun key hk => by
    rw [Dict.get?_set, if_neg hk]
  have hfill : lookUpTool toolName (payload.set "next_action" (.str "tool")) = .ok filled →
      filled.get? "tool" = payload.get? "tool" ∧
      ((payload.get? "tool_name" = none ∨ payload.get? "tool_name" = some .null ∨
        payload.get? "tool_name" = some (.str [])) ∧
          filled.get? "tool_name" = some (.str toolName) ∨
        payload.get? "tool_name" ≠ none ∧
          filled.get? "tool_name" = payload.get? "tool_name") := by
    intro hq
    have hspec := hlook _ (by rw [Dict.get?_set, if_pos rfl]) hq
    rwa [hset _ (by decide), hset _ (by decide)] at hspec
  rw [fillRequiredTool_eq] at h
  cases haction : payload.get? "next_action" with
  | none =>
      rw [haction] at h
      exact .inl ⟨.inl rfl, hfill h⟩
  | some action =>
      rw [haction] at h
      by_cases htool : action = .str "tool"
      · subst htool
        exact .inl ⟨.inr (.inr rfl), hlook payload haction h⟩
      · cases action with
        | null => exact .inl ⟨.inr (.inl rfl), hfill h⟩
        | _ =>
            have hne : payload.get? "next_action" ≠ some (.str "tool") := by
              rw [haction]
              exact fun hc => htool (Option.some.inj hc)
            rw [lookUpTool, if_neg hne] at h
            exact .inr ⟨fun hc => htool (Option.some.inj hc), (Except.ok.inj h).symm⟩

omit [Pydantic] [Runtime] in
/-- What is read of a valid payload for a mandated tool. -/
theorem requiredDecision_fields {α : Type} {toolName : Text} {input : Json → Option α}
    {entries : Dict Text Json} {r : RequiredDecision α}
    (h : RequiredDecision.ofJson toolName input (.obj entries) = some r) :
    entries.get? "next_action" = some (.str "tool") ∧
      entries.get? "tool_name" = some (.str toolName) ∧ entries.get? "tool" = none ∧
      ∃ v, entries.get? "tool_arguments" = some v ∧ input v = some r.toolArguments := by
  have hguard : ∀ {p : Prop} [Decidable p] {u : Unit}, (guard p : Option Unit) = some u → p := by
    intro p _ u h
    by_contra hp
    simp [guard, hp] at h
  simp only [RequiredDecision.ofJson, Option.bind_eq_bind, Option.bind_eq_some_iff] at h
  obtain ⟨read, hread, goal, -, _, haction, _, hname, arguments, ⟨v, hv, harguments⟩, reason, -,
    expected, -, h⟩ := h
  cases h
  obtain rfl := strictEntries_obj hread
  exact ⟨hguard haction, hguard hname, get?_of_strict hread (by decide), v, hv, harguments⟩

/-- **A decision for a mandated tool** is read of a payload that names no other. -/
theorem mandated_of_valid {α : Type} {model toolName : Text} {input : Json → Option α}
    {payload : Dict Text Json} {r : RequiredDecision α}
    (h : RequiredDecision.modelValidate model toolName input (.obj payload) = .ok r) :
    Mandated payload toolName := by
  obtain ⟨filled, hfill, hread⟩ : ∃ filled,
      fillRequiredTool toolName (normalizePlannerEntries payload) = .ok filled ∧
      RequiredDecision.ofJson toolName input (.obj (normalizePlannerEntries filled)) = some r := by
    change (do
      let normalized ← (do
        let filled ← fillRequiredTool toolName (normalizePlannerEntries payload)
        return normalizePlannerPayload (.obj filled))
      validated model _ (RequiredDecision.ofJson toolName input normalized) : Except PyExc _) =
        .ok r at h
    cases hfill : fillRequiredTool toolName (normalizePlannerEntries payload) with
    | ok filled =>
        rw [hfill] at h
        exact ⟨filled, rfl, validated_ok h⟩
    | error e =>
        rw [hfill] at h
        cases h
  obtain ⟨haction, hname, htool, -⟩ := requiredDecision_fields hread
  obtain ⟨-, hname', htool', -⟩ := get?_of_tool (resolvedAction_of_tool haction)
  rw [hname'] at hname
  rw [htool'] at htool
  rcases fillRequiredTool_get hfill with ⟨hasks, hkept, hfilled⟩ | ⟨hother, rfl⟩
  · -- the literals were filled in: the tool name is there, so nothing is left under the alias
    have hthere : filled.get? "tool_name" ≠ none := by
      rcases hfilled with ⟨-, h⟩ | ⟨hne, h⟩
      · rw [h]; nofun
      · rwa [h]
    rw [if_neg hthere, hkept] at htool
    have hfirst : filled.get? "tool_name" = some (.str toolName) := by
      unfold suppliedTool at hname
      cases hget : filled.get? "tool_name" with
      | none => exact absurd hget hthere
      | some v => rw [hget] at hname; exact hname
    have hthen : ∀ v, (normalizePlannerEntries payload).get? "tool_name" = some v →
        v = .null ∨ v = .str [] ∨ v = .str toolName := by
      intro v hv
      rcases hfilled with ⟨hempty, -⟩ | ⟨-, h⟩
      · rw [hv] at hempty
        rcases hempty with h | h | h
        · cases h
        · exact .inl (Option.some.inj h)
        · exact .inr (.inl (Option.some.inj h))
      · exact .inr (.inr (Option.some.inj (hv.symm.trans (h.symm.trans hfirst))))
    cases hr : resolvedAction payload with
    | some action =>
        rcases resolvedAction_cases hr with rfl | rfl
        · obtain ⟨-, hname, htool', -⟩ := get?_of_tool hr
          rw [htool'] at htool
          refine ⟨fun key hkey v hv => hthen v (hname.trans ?_), ?_⟩
          · unfold suppliedTool
            rcases List.mem_pair.mp hkey with rfl | rfl
            · rw [hv]
            · cases hget : payload.get? "tool_name" with
              | none => exact hv
              | some u =>
                  rw [hget, if_neg nofun, hv] at htool
                  cases htool
          · unfold resolvedAction at hr
            rcases haction : payload.get? "next_action" with _ | _ | _ | _ | _ | raw | _ | _ <;>
              rw [haction] at hr
            case some.str => exact .inr (.inr ⟨raw, rfl, hr⟩)
            case none => exact .inl rfl
            case some.null => exact .inr (.inl rfl)
            all_goals cases hr
        · rw [next_action_of_final hr] at hasks
          rcases hasks with hc | hc | hc
          · cases hc
          · cases hc
          · exact absurd hc (by decide)
    | none =>
        rw [normalize_of_none hr] at hasks hthen htool
        refine ⟨fun key hkey v hv => ?_, ?_⟩
        · rcases List.mem_pair.mp hkey with rfl | rfl
          · exact hthen v hv
          · exact nomatch htool.symm.trans hv
        · exact hasks.imp_right (.imp_right fun h => absurd h (get?_of_unresolved hr (.inl rfl)))
  · -- nothing was filled in: the action asked for something else
    rw [normalizePlannerEntries_idempotent] at haction
    exact absurd haction hother

/-! ## Validating a decision again -/

/-- The entries of a decision for a tool. -/
def toolEntries (goal reason expected : BoundedText 1 500) (name : Text)
    (arguments : Dict Text Json) : Dict Text Json :=
  [("goal", .str goal.1), ("next_action", .str "tool"), ("tool_name", .str name),
    ("tool_arguments", .obj arguments), ("reason_summary", .str reason.1),
    ("expected_evidence", .str expected.1)]

/-- They are valid, and say what they say. -/
theorem modelValidate_toolEntries (goal reason expected : BoundedText 1 500)
    (name : BoundedText 1 80) (arguments : Dict Text Json) :
    PlannerDecision.modelValidate (.obj (toolEntries goal reason expected name.1 arguments)) =
      .ok ⟨goal, .tool name arguments, reason, expected⟩ := by
  generalize hentries : toolEntries goal reason expected name.1 arguments = entries
  have hnormal : normalizePlannerPayload (.obj entries) = .obj entries := by subst hentries; rfl
  have hstrict : strictEntries PlannerDecision.fieldNames (.obj entries) = some entries := by
    subst hentries; rfl
  have hgoal : (entries.get? "goal").bind (boundedText 1 500) = some goal := by
    subst hentries; exact boundedText_self goal
  have haction : (entries.get? "next_action").bind Json.str? = some ("tool" : Text) := by
    subst hentries; rfl
  have hname : 0 ≤ name.1.length ∧ name.1.length ≤ 80 := ⟨Nat.zero_le _, name.2.2⟩
  have htool : optional (boundedText 0 80) (entries.get? "tool_name") =
      some (some ⟨name.1, hname⟩) := by
    subst hentries; exact congrArg (Option.map some) (boundedText_self ⟨name.1, hname⟩)
  have harguments : optional dictOf (entries.get? "tool_arguments") = some (some arguments) := by
    subst hentries; rfl
  have hreason : (entries.get? "reason_summary").bind (boundedText 1 500) = some reason := by
    subst hentries; exact boundedText_self reason
  have hexpected : (entries.get? "expected_evidence").bind (boundedText 1 500) = some expected := by
    subst hentries; exact boundedText_self expected
  have hshape : PlannerDecision.actionOf "tool" (some ⟨name.1, hname⟩) (some arguments) =
      some (.tool name arguments) := by
    rw [PlannerDecision.actionOf, if_pos rfl]
    exact dif_pos name.2.1
  have hjson : PlannerDecision.ofJson (.obj entries) =
      some ⟨goal, .tool name arguments, reason, expected⟩ := by
    simp only [PlannerDecision.ofJson, Option.bind_eq_bind, hstrict, hgoal, haction, htool,
      harguments, hreason, hexpected, hshape, Option.bind_some]
    rfl
  rw [PlannerDecision.modelValidate, hnormal, hjson, validated]

/-- **The dump of a decision is that decision.** -/
theorem modelValidate_plannerDump (d : PlannerDecision) :
    PlannerDecision.modelValidate d.modelDump = .ok d := by
  obtain ⟨goal, action, reason, expected⟩ := d
  cases action with
  | tool name arguments => exact modelValidate_toolEntries goal reason expected name arguments
  | final =>
      let entries : Dict Text Json := [("goal", .str goal.1), ("next_action", .str "final"),
        ("tool_name", .null), ("tool_arguments", .null), ("reason_summary", .str reason.1),
        ("expected_evidence", .str expected.1)]
      have hnormal : normalizePlannerPayload (.obj entries) = .obj entries := rfl
      have hstrict : strictEntries PlannerDecision.fieldNames (.obj entries) = some entries := rfl
      have hgoal : (entries.get? "goal").bind (boundedText 1 500) = some goal :=
        boundedText_self goal
      have haction : (entries.get? "next_action").bind Json.str? = some ("final" : Text) := rfl
      have htool : optional (boundedText 0 80) (entries.get? "tool_name") = some none := rfl
      have harguments : optional dictOf (entries.get? "tool_arguments") = some none := rfl
      have hreason : (entries.get? "reason_summary").bind (boundedText 1 500) = some reason :=
        boundedText_self reason
      have hexpected : (entries.get? "expected_evidence").bind (boundedText 1 500) =
          some expected := boundedText_self expected
      have hjson : PlannerDecision.ofJson (.obj entries) =
          some ⟨goal, .final, reason, expected⟩ := by
        simp only [PlannerDecision.ofJson, Option.bind_eq_bind, hstrict, hgoal, haction, htool,
          harguments, hreason, hexpected, Option.bind_some]
        rfl
      change PlannerDecision.modelValidate (.obj entries) = _
      rw [PlannerDecision.modelValidate, hnormal, hjson, validated]

/-- **The dump of a decision for a mandated tool is a planner decision for it**, with the
arguments that were read. -/
theorem modelValidate_required {α : Type} (name : Text) (hname : 1 ≤ name.length ∧ name.length ≤ 80)
    (dump : α → Json) (d : RequiredDecision α) (arguments : Dict Text Json)
    (hdump : dump d.toolArguments = .obj arguments) :
    PlannerDecision.modelValidate (d.modelDump name dump) =
      .ok ⟨d.goal, .tool ⟨name, hname⟩ arguments, d.reasonSummary, d.expectedEvidence⟩ := by
  have hentries : d.modelDump name dump =
      .obj (toolEntries d.goal d.reasonSummary d.expectedEvidence name arguments) := by
    rw [RequiredDecision.modelDump, hdump]
    rfl
  rw [hentries]
  exact modelValidate_toolEntries _ _ _ ⟨name, hname⟩ arguments

/-- A mandated decision's dump is read as that decision, when its arguments are. -/
theorem modelValidate_requiredDump {α : Type} {model name : Text} {input : Json → Option α}
    {dump : α → Json} (d : RequiredDecision α) {c : Char} {s : Text} (hname : name = c :: s)
    {arguments : Dict Text Json} (hdump : dump d.toolArguments = .obj arguments)
    (hinput : input (.obj arguments) = some d.toolArguments) :
    RequiredDecision.modelValidate model name input (d.modelDump name dump) = .ok d := by
  subst hname
  generalize hentries : toolEntries d.goal d.reasonSummary d.expectedEvidence (c :: s) arguments =
    entries
  have hmodel : d.modelDump (c :: s) dump = .obj entries := by
    rw [RequiredDecision.modelDump, hdump, ← hentries]
    rfl
  have hnormal : normalizeRequiredToolPayload (c :: s) (.obj entries) = .ok (.obj entries) := by
    subst hentries; rfl
  have hstrict : strictEntries PlannerDecision.fieldNames (.obj entries) = some entries := by
    subst hentries; rfl
  have hgoal : (entries.get? "goal").bind (boundedText 1 500) = some d.goal := by
    subst hentries; exact boundedText_self d.goal
  have haction : entries.get? "next_action" = some (.str "tool") := by subst hentries; rfl
  have htool : entries.get? "tool_name" = some (.str (c :: s)) := by subst hentries; rfl
  have harguments : (entries.get? "tool_arguments").bind input = some d.toolArguments := by
    subst hentries; exact hinput
  have hreason : (entries.get? "reason_summary").bind (boundedText 1 500) =
      some d.reasonSummary := by
    subst hentries; exact boundedText_self d.reasonSummary
  have hexpected : (entries.get? "expected_evidence").bind (boundedText 1 500) =
      some d.expectedEvidence := by
    subst hentries; exact boundedText_self d.expectedEvidence
  have hjson : RequiredDecision.ofJson (c :: s) input (.obj entries) = some d := by
    simp only [RequiredDecision.ofJson, Option.bind_eq_bind, hstrict, hgoal, haction, htool,
      harguments, hreason, hexpected, Option.bind_some, guard, if_true]
    rfl
  rw [hmodel, RequiredDecision.modelValidate, hnormal]
  change validated model _ (RequiredDecision.ofJson (c :: s) input (.obj entries)) = _
  rw [hjson, validated]

section
omit [Runtime] [Pydantic]

/-- Stripping white space once strips it all. -/
theorem Text.stripWhitespace_idempotent (s : Text) :
    s.stripWhitespace.stripWhitespace = s.stripWhitespace := by
  generalize hwhite : (fun c : Char => Text.isSpace c && !(28 ≤ c.toNat && c.toNat ≤ 31)) = white
  have hstrip : ∀ t : Text, t.stripWhitespace = List.rdropWhile white (t.dropWhile white) := by
    intro t
    rw [← hwhite]
    rfl
  have hkept : (List.rdropWhile white (s.dropWhile white)).dropWhile white =
      List.rdropWhile white (s.dropWhile white) := by
    rw [List.dropWhile_eq_self_iff]
    intro hl hc
    -- the first character that is left is the first after the leading white space
    have hpre := List.rdropWhile_prefix white (s.dropWhile white)
    have hl' : 0 < (s.dropWhile white).length := Nat.lt_of_lt_of_le hl hpre.length_le
    rw [hpre.getElem hl] at hc
    exact List.dropWhile_get_zero_not white s hl' hc
  rw [hstrip, hstrip s, hkept, List.rdropWhile_idempotent]

theorem strippedText_eq {low high : Nat} {v : Json} {x : BoundedText low high}
    (h : strippedText low high v = some x) : x.1.stripWhitespace = x.1 := by
  obtain ⟨s, -, hx⟩ := Option.bind_eq_some_iff.mp h
  rw [field_eq_some hx]
  exact Text.stripWhitespace_idempotent s

theorem strippedText_self {low high : Nat} {x : BoundedText low high}
    (h : x.1.stripWhitespace = x.1) : strippedText low high (.str x.1) = some x := by
  change field _ x.1.stripWhitespace = some x
  rw [h]
  exact field_self x

end

/-- Arguments of a retrieval that were read are read again from their dump. -/
theorem retrieveRunbooksInput_dump [LawfulPydantic] {value : Json} {i : RetrieveRunbooksInput}
    (h : RetrieveRunbooksInput.ofJson value = some i) :
    RetrieveRunbooksInput.ofJson i.modelDump = some i := by
  simp only [RetrieveRunbooksInput.ofJson, Option.bind_eq_bind, Option.bind_eq_some_iff] at h
  obtain ⟨read, -, query, ⟨v, -, hquery⟩, classification, hclassification, topK, -, h⟩ := h
  cases h
  let entries : Dict Text Json := [("query", .str query.1),
    ("classification", Json.ofText (classification.map (·.1))), ("top_k", .int topK.1)]
  have hstrict : strictEntries ["query", "classification", "top_k"] (.obj entries) =
      some entries := rfl
  have hquery' : (entries.get? "query").bind (strippedText 3 2000) = some query :=
    strippedText_self (strippedText_eq hquery)
  have hclass : optional (strippedText 0 100) (entries.get? "classification") =
      some classification := by
    change optional (strippedText 0 100) (some (Json.ofText (classification.map (·.1)))) = _
    cases classification with
    | none => rfl
    | some c =>
        obtain ⟨v, -, hc⟩ := optional_eq_some hclassification
        exact congrArg (Option.map some) (strippedText_self (strippedText_eq hc))
  have htop : withDefault ⟨4, by decide⟩ (boundedInt 1 8) (entries.get? "top_k") = some topK := by
    change (Pydantic.intOf (.int topK.1)).bind (field _) = _
    rw [LawfulPydantic.intOf_int]
    exact field_self topK
  change RetrieveRunbooksInput.ofJson (.obj entries) = _
  simp only [RetrieveRunbooksInput.ofJson, Option.bind_eq_bind, hstrict, hquery', hclass, htop,
    Option.bind_some]
  rfl

theorem getIncidentInput_dump [LawfulPydantic] (i : GetIncidentInput) :
    GetIncidentInput.ofJson i.modelDump = some i := by
  change ((Pydantic.intOf (.int i.incidentId.1)).bind (field _)).bind (fun n => some ⟨n⟩) = some i
  rw [LawfulPydantic.intOf_int]
  change (field _ i.incidentId.1).bind (fun n => some ⟨n⟩) = some i
  rw [field_self i.incidentId]
  rfl

/-- **Normalization never guesses.**  A decision is read of a payload only as the payload has
it, and what is read is read again from its dump, as the same decision and as a planner
decision. -/
structure NeverGuesses (payload : Dict Text Json) : Prop where
  tool : ∀ d name arguments, PlannerDecision.modelValidate (.obj payload) = .ok d →
    d.nextAction = .tool name arguments →
      OneOf payload "tool_name" "tool" (.str name.1) ∧
        OneOf payload "tool_arguments" "arguments" (.obj arguments)
  final : ∀ d, PlannerDecision.modelValidate (.obj payload) = .ok d → d.nextAction = .final →
    NoneOf payload ["tool_name", "tool"] (.str []) ∧
      NoneOf payload ["tool_arguments", "arguments"] (.obj [])
  incident : ∀ r, ResponseModel.requiredIncidentDecision.modelValidate (.obj payload) = .ok r →
    Mandated payload "get_incident"
  retrieval : ∀ r, ResponseModel.requiredRetrievalDecision.modelValidate (.obj payload) = .ok r →
    Mandated payload "retrieve_runbooks"
  idempotent : normalizePlannerPayload (normalizePlannerPayload (.obj payload)) =
    normalizePlannerPayload (.obj payload)
  again : ∀ model ∈ plannerModels, ∀ d, model.modelValidate (.obj payload) = .ok d →
    model.modelValidate (model.modelDump d) = .ok d
  incident_call : ∀ r : RequiredDecision GetIncidentInput,
    ResponseModel.requiredIncidentDecision.modelValidate (.obj payload) = .ok r →
    ∃ h, PlannerDecision.modelValidate (ResponseModel.requiredIncidentDecision.modelDump r) =
      .ok ⟨r.goal, .tool ⟨"get_incident", h⟩ [("incident_id", .int r.toolArguments.incidentId.1)],
        r.reasonSummary, r.expectedEvidence⟩
  retrieval_call : ∀ r : RequiredDecision RetrieveRunbooksInput,
    ResponseModel.requiredRetrievalDecision.modelValidate (.obj payload) = .ok r →
    ∃ h, PlannerDecision.modelValidate (ResponseModel.requiredRetrievalDecision.modelDump r) =
      .ok ⟨r.goal, .tool ⟨"retrieve_runbooks", h⟩ [("query", .str r.toolArguments.query.1),
        ("classification", Json.ofText (r.toolArguments.classification.map (·.1))),
        ("top_k", .int r.toolArguments.topK.1)], r.reasonSummary, r.expectedEvidence⟩

/-- The arguments of a decision for a mandated tool were read by the tool's input model. -/
theorem required_arguments {α : Type} {model toolName : Text} {input : Json → Option α}
    {payload : Dict Text Json} {r : RequiredDecision α}
    (h : RequiredDecision.modelValidate model toolName input (.obj payload) = .ok r) :
    ∃ v, input v = some r.toolArguments := by
  unfold RequiredDecision.modelValidate at h
  cases hn : normalizeRequiredToolPayload toolName (.obj payload) with
  | error e =>
      rw [hn] at h
      cases h
  | ok out =>
      rw [hn] at h
      have hread := validated_ok h
      cases out with
      | obj entries =>
          obtain ⟨-, -, -, v, -, hv⟩ := requiredDecision_fields hread
          exact ⟨v, hv⟩
      | _ => cases hread

theorem normalization_never_guesses [LawfulPydantic] (payload : Dict Text Json) :
    NeverGuesses payload where
  tool _ _ _ h hd := tool_of_valid h hd
  final _ h hd := final_of_valid h hd
  incident _ h := mandated_of_valid h
  retrieval _ h := mandated_of_valid h
  idempotent := congrArg Json.obj (normalizePlannerEntries_idempotent payload)
  again model hm d h := by
    cases model with
    | plannerDecision => exact modelValidate_plannerDump d
    | requiredIncidentDecision =>
        exact modelValidate_requiredDump d rfl rfl (getIncidentInput_dump _)
    | requiredRetrievalDecision =>
        obtain ⟨v, hv⟩ := required_arguments h
        exact modelValidate_requiredDump d rfl rfl (retrieveRunbooksInput_dump hv)
    | agentFinalResponse => exact absurd hm (by decide)
  incident_call r _ := ⟨by decide, modelValidate_required _ _ _ r _ rfl⟩
  retrieval_call r _ := ⟨by decide, modelValidate_required _ _ _ r _ rfl⟩

end

/-- A payload with aliases, under the reference encodings. -/
theorem normalization_never_guesses_aliases : NeverGuesses
    [("goal", .str "Load the incident."), ("next_action", .str "Tool-Call"),
      ("tool", .str "get_incident"), ("arguments", .obj [("incident_id", .int 1)]),
      ("reason_summary", .str "Evidence."), ("expected_evidence", .str "The incident.")] :=
  normalization_never_guesses _

end SupportPlatform

