import SupportPlatform.Exceptions
import SupportPlatform.JsonSchema
import SupportPlatform.Traversal

/-! # The grammar of the model server

`_ollama_grammar_schema` (`app/ai/providers/ollama.py`) makes of the schema of a response model
the part that Ollama compiles to a grammar: references are replaced by what they point to, and
only five keywords are kept.  What the grammar leaves out is validated locally afterwards, so
the grammar must let every valid answer through.

References are looked up under the text that follows `#/$defs/`.  A pointer whose token has
escapes denotes another name than the one that is written, so what is shown here is shown of
documents in which a token that is written like a definition denotes that definition.
-/
namespace SupportPlatform

/-- `_OLLAMA_GRAMMAR_KEYS`. -/
def ollamaGrammarKeys : List Text := ["type", "properties", "required", "items", "enum"]

namespace OllamaGrammar
open Schema Filter

/-- The definition that the reference of a node is replaced by. -/
def target? (definitions : Json) (node : Dict Text Json) : Option Json :=
  match Dict.get? node "$ref" with
  | some (.str reference) =>
      if ("#/$defs/" : Text).isPrefixOf reference then
        match definitions.get? (reference.drop ("#/$defs/" : Text).length) with
        | some (.obj target) => some (.obj target)
        | _ => none
      else none
  | _ => none

/-- What becomes of the value of a keyword that is kept. -/
def simplifyValue (simplify : Json → Option Json) (key : Text) : Json → Option Json
  | .obj properties =>
      if key = "properties" then
        (properties.mapM fun p => (simplify p.2).map fun s => (p.1, s)).map Json.obj
      else simplify (.obj properties)
  | value => simplify value

/-- The loop over the items of a node. -/
def simplifyItems (simplify : Json → Option Json) :
    Dict Text Json → List (Text × Json) → Option (Dict Text Json)
  | result, [] => some result
  | result, (key, value) :: items =>
      if key ∈ ollamaGrammarKeys then do
        let simplified ← simplifyValue simplify key value
        simplifyItems simplify (Dict.set result key simplified) items
      else simplifyItems simplify result items

/-- The result that the loop begins with: an enumeration in place of a constant. -/
def constEnum (simplify : Json → Option Json) (node : Dict Text Json) :
    Option (Dict Text Json) :=
  match Dict.get? node "const" with
  | some const => (simplify const).map fun s => [("enum", .arr [s])]
  | none => some []

/-- `simplify(node)`, as far as `fuel` calls deep. -/
def simplify (definitions : Json) : Nat → Json → Option Json
  | 0, _ => none
  | fuel + 1, .arr items => (items.mapM (simplify definitions fuel)).map Json.arr
  | fuel + 1, .obj node =>
      match target? definitions node with
      | some target => simplify definitions fuel target
      | none =>
          (constEnum (simplify definitions fuel) node).bind fun result =>
            (simplifyItems (simplify definitions fuel) result node).map Json.obj
  | _ + 1, node => some node

/-- `_ollama_grammar_schema(schema)`, as far as `fuel` calls deep. -/
def ollamaGrammarSchema (fuel : Nat) (schema : Dict Text Json) :
    Option (Except PyExc (Dict Text Json)) :=
  (simplify ((Dict.get? schema "$defs").getD (.obj [])) fuel (.obj schema)).map fun
    | .obj simplified => .ok simplified
    | _ => .error ⟨.providerResponseError, "Could not build an Ollama JSON grammar schema"⟩

/-! ## Documents that are read as they are written -/

/-- The definitions of a schema. -/
def definitionsOf (schema : Dict Text Json) : Dict Text Json :=
  match Dict.get? schema "$defs" with
  | some (.obj definitions) => definitions
  | _ => []

/-- A token that is written like a definition denotes it. -/
def Plain (R : Reading) (root : Json) : Prop :=
  ∀ t, R.PartOf root t → ∀ token, reference? t = some token →
    Dict.get? R.definitions token ≠ none → R.denoted token = token

/-- The keywords of a grammar, wherever it has a schema. -/
def OnlyGrammar (g : Json) : Prop :=
  ∀ t, Part t g → (∃ b, t = .bool b) ∨
    ∃ schema, t = .obj schema ∧ ∀ e ∈ schema, e.1 ∈ ollamaGrammarKeys

variable {R R' : Reading} {root s g : Json} {definitions : Json} {node : Dict Text Json}

theorem get?_definitionsOf (schema : Dict Text Json) (name : Text) :
    ((Dict.get? schema "$defs").getD (.obj [])).get? name =
      Dict.get? (definitionsOf schema) name := by
  unfold definitionsOf
  split
  · rename_i definitions h
    rw [h]
    rfl
  · rename_i h
    cases hd : Dict.get? schema "$defs" with
    | none => rfl
    | some d =>
        cases d with
        | obj definitions => exact absurd hd (h definitions)
        | _ => rfl

/-- What a reference is replaced by is what its token is written like. -/
theorem target?_eq_some {target : Json} (h : target? definitions node = some target) :
    ∃ token, reference? (.obj node) = some token ∧ definitions.get? token = some target := by
  unfold target? at h
  split at h
  · rename_i reference href
    split at h
    · rename_i hprefix
      split at h
      · rename_i entries hget
        cases h
        refine ⟨reference.drop pointer.length, ?_, hget⟩
        simp only [reference?, href, Option.bind_some, token?]
        exact if_pos hprefix
      · cases h
    · cases h
  · cases h

theorem exists_obj_of_target? {target : Json} (h : target? definitions node = some target) :
    ∃ entries, target = .obj entries := by
  unfold target? at h
  split at h
  · split at h
    · split at h
      · rename_i entries _
        cases h
        exact ⟨entries, rfl⟩
      · cases h
    · cases h
  · cases h

/-- In a document that is read as it is written, replacing a reference descends into it. -/
theorem descends_target (hdefs : ∀ name, definitions.get? name = Dict.get? R.definitions name)
    (hplain : Plain R root) (hs : R.PartOf root (.obj node)) {target : Json}
    (h : target? definitions node = some target) :
    ∃ token, reference? (.obj node) = some token ∧
      Dict.get? R.definitions (R.denoted token) = some target := by
  obtain ⟨token, href, hget⟩ := target?_eq_some h
  rw [hdefs] at hget
  refine ⟨token, href, ?_⟩
  rw [hplain _ hs token href (by rw [hget]; exact Option.some_ne_none target), hget]

/-! ## Loops -/

section
variable {simp simp' : Json → Option Json}

/-- What becomes of a value, from what becomes of its parts. -/
theorem simplifyValue_mono (h : ∀ v s, simp v = some s → simp' v = some s) {key : Text}
    {value simplified : Json} (hv : simplifyValue simp key value = some simplified) :
    simplifyValue simp' key value = some simplified := by
  cases value with
  | obj properties =>
      rw [simplifyValue] at hv ⊢
      split at hv
      · obtain ⟨result, hresult, rfl⟩ := Option.map_eq_some_iff.mp hv
        rw [if_pos ‹_›, mapM_of_forall₂ ((forall₂_of_mapM hresult).imp fun p q hq => ?_)]
        · rfl
        · obtain ⟨s, hs, rfl⟩ := Option.map_eq_some_iff.mp hq
          rw [h _ _ hs]
          rfl
      · rw [if_neg ‹_›]
        exact h _ _ hv
  | _ => exact h _ _ hv

theorem simplifyItems_mono (h : ∀ v s, simp v = some s → simp' v = some s)
    {items : List (Text × Json)} {result result' : Dict Text Json}
    (hi : simplifyItems simp result items = some result') :
    simplifyItems simp' result items = some result' := by
  induction items generalizing result with
  | nil => exact hi
  | cons item items ih =>
      rw [simplifyItems] at hi ⊢
      split at hi
      · obtain ⟨s, hs, hi⟩ := Option.bind_eq_some_iff.mp hi
        rw [if_pos ‹_›, simplifyValue_mono h hs]
        exact ih hi
      · rw [if_neg ‹_›]
        exact ih hi

theorem isSome_simplifyItems {items : List (Text × Json)} {result : Dict Text Json}
    (h : ∀ e ∈ items, e.1 ∈ ollamaGrammarKeys → (simplifyValue simp e.1 e.2).isSome) :
    (simplifyItems simp result items).isSome := by
  induction items generalizing result with
  | nil => rfl
  | cons item items ih =>
      obtain ⟨hitem, hitems⟩ := List.forall_mem_cons.mp h
      rw [simplifyItems]
      split
      · obtain ⟨s, hs⟩ := Option.isSome_iff_exists.mp (hitem ‹_›)
        rw [hs]
        exact ih hitems
      · exact ih hitems

/-- **What the loop collects**: what was there, and what becomes of the keywords it keeps. -/
theorem mem_simplifyItems {items : List (Text × Json)} {result result' : Dict Text Json}
    (h : simplifyItems simp result items = some result') :
    ∀ e ∈ result', e ∈ result ∨ ∃ value, (e.1, value) ∈ items ∧ e.1 ∈ ollamaGrammarKeys ∧
      simplifyValue simp e.1 value = some e.2 := by
  induction items generalizing result with
  | nil =>
      cases h
      exact fun e he => .inl he
  | cons item items ih =>
      intro e he
      have hlater : (∃ value, (e.1, value) ∈ items ∧ e.1 ∈ ollamaGrammarKeys ∧
          simplifyValue simp e.1 value = some e.2) → ∃ value, (e.1, value) ∈ item :: items ∧
          e.1 ∈ ollamaGrammarKeys ∧ simplifyValue simp e.1 value = some e.2 := by
        rintro ⟨value, hmem, hkept⟩
        exact ⟨value, List.mem_cons_of_mem item hmem, hkept⟩
      rw [simplifyItems] at h
      split at h
      · rename_i hkey
        obtain ⟨s, hs, h⟩ := Option.bind_eq_some_iff.mp h
        rcases ih h e he with hset | hitems
        · rcases Dict.mem_set hset with rfl | hold
          · exact .inr ⟨item.2, List.mem_cons_self, hkey, hs⟩
          · exact .inl hold
        · exact .inr (hlater hitems)
      · exact (ih h e he).imp_right hlater

end

/-! ## Termination -/

theorem simplify_scalar {v : Json} (h : IsScalar v) (fuel : Nat) :
    simplify definitions (fuel + 1) v = some v := by
  cases v with
  | arr => exact h.elim
  | obj => exact h.elim
  | _ => rfl

/-- An array of scalars stays as it is. -/
theorem simplify_scalars {vs : List Json} (h : ∀ v ∈ vs, IsScalar v) (fuel : Nat) :
    simplify definitions (fuel + 2) (.arr vs) = some (.arr vs) := by
  rw [simplify, mapM_of_forall₂ (List.forall₂_same.mpr fun v hv => simplify_scalar (h v hv) fuel)]
  rfl

/-- More fuel changes no result. -/
theorem simplify_mono (fuel : Nat) {s g : Json} (h : simplify definitions fuel s = some g) :
    simplify definitions (fuel + 1) s = some g := by
  induction fuel generalizing s g with
  | zero => cases h
  | succ fuel ih =>
      have hmono : ∀ v s, simplify definitions fuel v = some s →
          simplify definitions (fuel + 1) v = some s := fun v s hv => ih hv
      cases s with
      | arr items =>
          rw [simplify] at h ⊢
          obtain ⟨result, hresult, rfl⟩ := Option.map_eq_some_iff.mp h
          rw [mapM_of_forall₂ ((forall₂_of_mapM hresult).imp fun v s hv => ih hv)]
          rfl
      | obj node =>
          rw [simplify] at h ⊢
          cases htarget : target? definitions node with
          | some target =>
              rw [htarget] at h
              exact ih h
          | none =>
              rw [htarget] at h
              obtain ⟨start, hstart, h⟩ := Option.bind_eq_some_iff.mp h
              obtain ⟨result, hresult, rfl⟩ := Option.map_eq_some_iff.mp h
              refine Option.bind_eq_some_iff.mpr ⟨start, ?_, ?_⟩
              · unfold constEnum at hstart ⊢
                split at hstart
                · obtain ⟨s, hs, rfl⟩ := Option.map_eq_some_iff.mp hstart
                  exact Option.map_eq_some_iff.mpr ⟨s, ih hs, rfl⟩
                · exact hstart
              · rw [simplifyItems_mono hmono hresult]
                rfl
      | _ => exact h

theorem simplify_mono_le {fuel fuel' : Nat} (hle : fuel ≤ fuel') {s g : Json}
    (h : simplify definitions fuel s = some g) : simplify definitions fuel' s = some g :=
  Nat.le_induction h (fun _ _ ih => simplify_mono _ ih) fuel' hle

/-- Only the schemas under `properties` are simplified one by one. -/
theorem simplifyValue_of_ne {simp : Json → Option Json} {key : Text} (h : key ≠ "properties")
    (value : Json) : simplifyValue simp key value = simp value := by
  cases value with
  | obj properties => exact if_neg h
  | _ => rfl

/-- A keyword that is kept has an argument that can be simplified when its schemas can. -/
theorem eventually_simplifyValue {key : Text} {argument : Json} (hkey : key ∈ ollamaGrammarKeys)
    (harg : TakesArgument R key argument)
    (hsub : ∀ c ∈ subschemas key argument, ∀ᶠ n in atTop, (simplify definitions n c).isSome) :
    ∀ᶠ n in atTop, (simplifyValue (simplify definitions n) key argument).isSome := by
  have hscalars {vs : List Json} (h : ∀ v ∈ vs, IsScalar v) :
      ∀ᶠ n in atTop, (simplify definitions n (.arr vs)).isSome := by
    refine eventually_atTop.mpr ⟨2, fun n hn => ?_⟩
    obtain ⟨fuel, rfl⟩ := Nat.exists_eq_add_of_le' hn
    rw [simplify_scalars h]
    rfl
  have hnames (h : IsNames argument) :
      ∀ᶠ n in atTop, (simplify definitions n argument).isSome := by
    obtain ⟨names, rfl, hstr⟩ := h
    refine hscalars fun v hv => ?_
    obtain ⟨name, rfl⟩ := hstr v hv
    exact trivial
  simp only [ollamaGrammarKeys, List.mem_cons, List.not_mem_nil, or_false] at hkey
  rcases hkey with rfl | rfl | rfl | rfl | rfl
  case inl =>
    simp only [simplifyValue_of_ne (show ("type" : Text) ≠ "properties" by decide)]
    rcases harg.type rfl with ⟨name, rfl⟩ | h
    · refine eventually_atTop.mpr ⟨1, fun n hn => ?_⟩
      obtain ⟨fuel, rfl⟩ := Nat.exists_eq_add_of_le' hn
      rfl
    · exact hnames h
  case inr.inl =>
    obtain ⟨properties, rfl, -⟩ := harg.properties rfl
    have hall : ∀ᶠ n in atTop, ∀ p ∈ {p | p ∈ properties}, (simplify definitions n p.2).isSome :=
      (eventually_all_finite (List.finite_toSet properties)).mpr fun p hp =>
        hsub p.2 (List.mem_map.mpr ⟨p, hp, rfl⟩)
    filter_upwards [hall] with n hn
    rw [simplifyValue, if_pos rfl, Option.isSome_map]
    exact isSome_mapM fun p hp => by rw [Option.isSome_map]; exact hn p hp
  case inr.inr.inl =>
    simp only [simplifyValue_of_ne (show ("required" : Text) ≠ "properties" by decide)]
    exact hnames (harg.required rfl)
  case inr.inr.inr.inl =>
    simp only [simplifyValue_of_ne (show ("items" : Text) ≠ "properties" by decide)]
    exact hsub argument List.mem_cons_self
  case inr.inr.inr.inr =>
    simp only [simplifyValue_of_ne (show ("enum" : Text) ≠ "properties" by decide)]
    obtain ⟨values, rfl, h⟩ := harg.enum rfl
    exact hscalars h

/-- An object can be simplified when the schemas within it can. -/
theorem eventually_simplify_obj (hschema : IsSchema R (.obj node))
    (htarget : target? definitions node = none)
    (hsub : ∀ c ∈ children (.obj node), ∀ᶠ n in atTop, (simplify definitions n c).isSome) :
    ∀ᶠ n in atTop, (simplify definitions n (.obj node)).isSome := by
  have hconst : ∀ᶠ n in atTop, (constEnum (simplify definitions n) node).isSome := by
    unfold constEnum
    cases hget : Dict.get? node "const" with
    | none => exact .of_forall fun _ => rfl
    | some const =>
        have hscalar : IsScalar const := (hschema.2 _ (Dict.mem_of_get? hget)).const rfl
        refine eventually_atTop.mpr ⟨1, fun n hn => ?_⟩
        obtain ⟨fuel, rfl⟩ := Nat.exists_eq_add_of_le' hn
        simp only [simplify_scalar hscalar, Option.map_some, Option.isSome_some]
  have hitems : ∀ᶠ n in atTop, ∀ e ∈ {e | e ∈ node}, e.1 ∈ ollamaGrammarKeys →
      (simplifyValue (simplify definitions n) e.1 e.2).isSome := by
    refine (eventually_all_finite (List.finite_toSet node)).mpr fun e he => ?_
    by_cases hkey : e.1 ∈ ollamaGrammarKeys
    · have h := eventually_simplifyValue hkey (hschema.2 e he) fun c hc =>
        hsub c (List.mem_flatMap.mpr ⟨e, he, hc⟩)
      exact h.mono fun n hn _ => hn
    · exact .of_forall fun n hmem => absurd hmem hkey
  obtain ⟨depth, hdepth⟩ := eventually_atTop.mp (hconst.and hitems)
  refine eventually_atTop.mpr ⟨depth + 1, fun n hn => ?_⟩
  obtain ⟨fuel, rfl⟩ := Nat.exists_eq_add_of_le' (show 1 ≤ n by omega)
  obtain ⟨hstart, hloop⟩ := hdepth fuel (by omega)
  obtain ⟨start, hstart⟩ := Option.isSome_iff_exists.mp hstart
  rw [simplify, htarget]
  simp only [hstart, Option.bind_some, Option.isSome_map]
  exact isSome_simplifyItems hloop

/-- **The recursion ends** on every schema of an acyclic document. -/
theorem eventually_simplify (hdefs : ∀ name, definitions.get? name = Dict.get? R.definitions name)
    (hdoc : R.Document root) (hplain : Plain R root) (hacyclic : R.Acyclic)
    (hs : R.PartOf root s) : ∀ᶠ n in atTop, (simplify definitions n s).isSome := by
  induction hacyclic.acc s with
  | intro s _ ih =>
      have hchild : ∀ c ∈ children s, ∀ᶠ n in atTop, (simplify definitions n c).isSome :=
        fun c hc => ih c (.inl hc) (hs.child hc)
      cases s with
      | obj node =>
          cases htarget : target? definitions node with
          | none => exact eventually_simplify_obj (hdoc _ hs) htarget hchild
          | some target =>
              have hdescends := descends_target hdefs hplain hs htarget
              obtain ⟨depth, hdepth⟩ := eventually_atTop.mp
                (ih target (.inr hdescends) (hs.descend (.inr hdescends)))
              refine eventually_atTop.mpr ⟨depth + 1, fun n hn => ?_⟩
              obtain ⟨fuel, rfl⟩ := Nat.exists_eq_add_of_le' (show 1 ≤ n by omega)
              rw [simplify, htarget]
              exact hdepth fuel (by omega)
      | bool b =>
          refine eventually_atTop.mpr ⟨1, fun n hn => ?_⟩
          obtain ⟨fuel, rfl⟩ := Nat.exists_eq_add_of_le' hn
          rfl
      | _ => exact (hdoc _ hs).elim

/-! ## What becomes of a schema -/

/-- **What becomes of the argument of a keyword**, given what becomes of a schema. -/
inductive Simplifies (r : Json → Json → Prop) : Text → Json → Json → Prop
  | properties {schemas simplified : Dict Text Json}
      (h : List.Forall₂ (fun p q => q.1 = p.1 ∧ r p.2 q.2) schemas simplified) :
      Simplifies r "properties" (.obj schemas) (.obj simplified)
  | items {schema simplified : Json} (h : r schema simplified) :
      Simplifies r "items" schema simplified
  | kept {key : Text} (h : key ∈ (["type", "required", "enum"] : List Text)) (argument : Json) :
      Simplifies r key argument argument

theorem simplify_unique {fuel fuel' : Nat} {s g g' : Json}
    (h : simplify definitions fuel s = some g) (h' : simplify definitions fuel' s = some g') :
    g = g' := by
  have hmax := simplify_mono_le (le_max_left fuel fuel') h
  rw [simplify_mono_le (le_max_right fuel fuel') h'] at hmax
  exact (Option.some.inj hmax).symm

theorem simplifies_of_simplifyValue {fuel : Nat} {key : Text} {argument simplified : Json}
    (hkey : key ∈ ollamaGrammarKeys) (harg : TakesArgument R key argument)
    (h : simplifyValue (simplify definitions fuel) key argument = some simplified) :
    Simplifies (fun s g => simplify definitions fuel s = some g) key argument simplified := by
  have hscalars {vs : List Json} (hvs : ∀ v ∈ vs, IsScalar v)
      (h : simplify definitions fuel (.arr vs) = some simplified) : simplified = .arr vs :=
    simplify_unique h (simplify_scalars hvs 0)
  have hnames (hargument : IsNames argument)
      (h : simplify definitions fuel argument = some simplified) : simplified = argument := by
    obtain ⟨names, rfl, hstr⟩ := hargument
    refine hscalars (fun v hv => ?_) h
    obtain ⟨name, rfl⟩ := hstr v hv
    exact trivial
  simp only [ollamaGrammarKeys, List.mem_cons, List.not_mem_nil, or_false] at hkey
  rcases hkey with rfl | rfl | rfl | rfl | rfl
  case inl =>
    rw [simplifyValue_of_ne (by decide)] at h
    rcases harg.type rfl with ⟨name, rfl⟩ | hargument
    · rw [simplify_unique h (simplify_scalar (v := .str name) trivial 0)]
      exact .kept (by decide) _
    · rw [hnames hargument h]
      exact .kept (by decide) argument
  case inr.inl =>
    obtain ⟨properties, rfl, -⟩ := harg.properties rfl
    rw [simplifyValue, if_pos rfl] at h
    obtain ⟨result, hresult, rfl⟩ := Option.map_eq_some_iff.mp h
    refine .properties ((forall₂_of_mapM hresult).imp fun p q hq => ?_)
    obtain ⟨g, hg, rfl⟩ := Option.map_eq_some_iff.mp hq
    exact ⟨rfl, hg⟩
  case inr.inr.inl =>
    rw [simplifyValue_of_ne (by decide)] at h
    rw [hnames (harg.required rfl) h]
    exact .kept (by decide) argument
  case inr.inr.inr.inl =>
    rw [simplifyValue_of_ne (by decide)] at h
    exact .items h
  case inr.inr.inr.inr =>
    rw [simplifyValue_of_ne (by decide)] at h
    obtain ⟨values, rfl, hvalues⟩ := harg.enum rfl
    rw [hscalars hvalues h]
    exact .kept (by decide) _

/-- **An object becomes** an object, with an enumeration for its constant and with the keywords
that are kept. -/
theorem simplify_obj {fuel : Nat} {g : Json} (hschema : IsSchema R (.obj node))
    (htarget : target? definitions node = none)
    (h : simplify definitions (fuel + 1) (.obj node) = some g) :
    ∃ result, g = .obj result ∧ ∀ e ∈ result,
      (∃ const, Dict.get? node "const" = some const ∧
        e = (("enum" : Text), Json.arr [const])) ∨
      ∃ argument, (e.1, argument) ∈ node ∧ e.1 ∈ ollamaGrammarKeys ∧
        Simplifies (fun s g => simplify definitions fuel s = some g) e.1 argument e.2 := by
  rw [simplify, htarget] at h
  obtain ⟨start, hstart, h⟩ := Option.bind_eq_some_iff.mp h
  obtain ⟨result, hresult, rfl⟩ := Option.map_eq_some_iff.mp h
  refine ⟨result, rfl, fun e he => ?_⟩
  rcases mem_simplifyItems hresult e he with hmem | ⟨argument, hmem, hkey, hvalue⟩
  · -- the loop begins with what the constant becomes, which is itself
    left
    unfold constEnum at hstart
    split at hstart
    · rename_i const hget
      obtain ⟨g, hg, rfl⟩ := Option.map_eq_some_iff.mp hstart
      have hscalar : IsScalar const := (hschema.2 _ (Dict.mem_of_get? hget)).const rfl
      rw [simplify_unique hg (simplify_scalar hscalar 0)] at hmem
      exact ⟨const, hget, List.mem_singleton.mp hmem⟩
    · cases hstart
      cases hmem
  · exact .inr ⟨argument, hmem, hkey,
      simplifies_of_simplifyValue hkey (hschema.2 _ hmem) hvalue⟩

/-! ## The grammar -/

section
variable {r : Json → Json → Prop} {key : Text} {argument simplified : Json}

/-- The schemas in the argument of a keyword that is kept are what others become. -/
theorem Simplifies.subschemas (h : Simplifies r key argument simplified) :
    ∀ c' ∈ subschemas key simplified, ∃ c ∈ Schema.subschemas key argument, r c c' := by
  cases h with
  | properties h =>
      intro c' hc'
      obtain ⟨q, hq, rfl⟩ := List.mem_map.mp hc'
      obtain ⟨p, hp, -, hr⟩ := exists_of_forall₂_right h hq
      exact ⟨p.2, List.mem_map.mpr ⟨p, hp, rfl⟩, hr⟩
  | items h =>
      intro c' hc'
      rw [List.mem_singleton.mp hc']
      exact ⟨argument, List.mem_cons_self, h⟩
  | kept hkey =>
      intro c' hc'
      simp only [List.mem_cons, List.not_mem_nil, or_false] at hkey
      rcases hkey with rfl | rfl | rfl <;> cases hc'

/-- **A keyword that is kept asserts no more** when the schemas in it say no more. -/
theorem Simplifies.keyword {sub sub' : Json → Json → Bool} {schema schema' : Dict Text Json}
    {value : Json} (h : Simplifies r key argument simplified)
    (hsub : ∀ c ∈ Schema.subschemas key argument, ∀ c', r c c' → ∀ v, sub c v = true →
      sub' c' v = true)
    (hholds : keyword R sub schema key argument value = true) :
    Schema.keyword R' sub' schema' key simplified value = true := by
  cases h with
  | @properties schemas simplified h =>
      cases value with
      | obj fields =>
          have hall : ∀ p ∈ schemas, (Dict.get? fields p.1).all (sub p.2) = true :=
            List.all_eq_true.mp hholds
          refine List.all_eq_true.mpr fun q hq => ?_
          obtain ⟨p, hp, hname, hr⟩ := exists_of_forall₂_right h hq
          have hfield := hall p hp
          rw [hname]
          cases hget : Dict.get? fields p.1 with
          | none => rfl
          | some v =>
              rw [hget] at hfield
              exact hsub p.2 (List.mem_map.mpr ⟨p, hp, rfl⟩) q.2 hr v hfield
      | _ => rfl
  | items h =>
      cases value with
      | arr items =>
          have hall : ∀ v ∈ items, sub argument v = true := List.all_eq_true.mp hholds
          exact List.all_eq_true.mpr fun v hv => hsub argument List.mem_cons_self simplified h v
            (hall v hv)
      | _ => rfl
  | kept hkey =>
      simp only [List.mem_cons, List.not_mem_nil, or_false] at hkey
      rcases hkey with rfl | rfl | rfl <;> exact hholds

end

/-- **Nothing but the keywords of a grammar is left.** -/
theorem onlyGrammar_of_simplify (hdefs : ∀ name, definitions.get? name = Dict.get? R.definitions name)
    (hdoc : R.Document root) (hplain : Plain R root) {fuel : Nat} {s g : Json}
    (hs : R.PartOf root s) (h : simplify definitions fuel s = some g) : OnlyGrammar g := by
  induction fuel generalizing s g with
  | zero => cases h
  | succ fuel ih =>
      cases s with
      | bool b =>
          cases h
          refine forall_part_iff.mpr ⟨.inl ⟨b, rfl⟩, fun c hc => ?_⟩
          cases hc
      | obj node =>
          cases htarget : target? definitions node with
          | some target =>
              rw [simplify, htarget] at h
              exact ih (hs.descend (.inr (descends_target hdefs hplain hs htarget))) h
          | none =>
              obtain ⟨result, rfl, hresult⟩ := simplify_obj (hdoc _ hs) htarget h
              refine forall_part_iff.mpr ⟨.inr ⟨result, rfl, fun e he => ?_⟩, fun c hc => ?_⟩
              · rcases hresult e he with ⟨const, -, rfl⟩ | ⟨argument, -, hkey, -⟩
                · show ("enum" : Text) ∈ ollamaGrammarKeys
                  decide
                · exact hkey
              · obtain ⟨e, he, hc⟩ := List.mem_flatMap.mp hc
                rcases hresult e he with ⟨const, -, rfl⟩ | ⟨argument, hmem, -, hsimplifies⟩
                · cases hc
                · obtain ⟨c', hc', hsimplify⟩ := hsimplifies.subschemas c hc
                  exact ih (hs.child (List.mem_flatMap.mpr ⟨_, hmem, hc'⟩)) hsimplify
      | _ => exact (hdoc _ hs).elim

/-- An object with a reference asserts what it points to. -/
theorem accepts_reference {sub : Json → Json → Bool} {token : Text} {target value : Json}
    (hreference : reference? (.obj node) = some token)
    (hget : Dict.get? R.definitions (R.denoted token) = some target)
    (h : ∀ e ∈ node, keyword R sub node e.1 e.2 value = true) : sub target value = true := by
  obtain ⟨argument, hargument, htoken⟩ := Option.bind_eq_some_iff.mp hreference
  have hkeyword : (match (token? argument).bind fun token =>
      Dict.get? R.definitions (R.denoted token) with
    | some target => sub target value
    | none => true) = true := h _ (Dict.mem_of_get? hargument)
  rw [htoken, Option.bind_some, hget] at hkeyword
  exact hkeyword

theorem exists_obj_of_simplify {fuel : Nat} {g : Json}
    (h : simplify definitions fuel (.obj node) = some g) : ∃ grammar, g = .obj grammar := by
  induction fuel generalizing node with
  | zero => cases h
  | succ fuel ih =>
      rw [simplify] at h
      cases htarget : target? definitions node with
      | some target =>
          rw [htarget] at h
          obtain ⟨entries, rfl⟩ := exists_obj_of_target? htarget
          exact ih h
      | none =>
          rw [htarget] at h
          obtain ⟨start, -, h⟩ := Option.bind_eq_some_iff.mp h
          obtain ⟨result, -, rfl⟩ := Option.map_eq_some_iff.mp h
          exact ⟨result, rfl⟩

/-- **Nothing valid is shut out**: what a schema accepts at some depth, its grammar accepts from
there on. -/
theorem accepts_of_simplify (hdefs : ∀ name, definitions.get? name = Dict.get? R.definitions name)
    (hdoc : R.Document root) (hplain : Plain R root) {fuel : Nat} {s g : Json}
    (hs : R.PartOf root s) (h : simplify definitions fuel s = some g) {depth depth' : Nat}
    (hdepth : depth ≤ depth') {value : Json} (haccepts : accepts R depth s value = true) :
    accepts R' depth' g value = true := by
  induction fuel generalizing s g depth depth' value with
  | zero => cases h
  | succ fuel ih =>
      cases depth with
      | zero => cases haccepts
      | succ depth =>
          obtain ⟨depth', rfl⟩ := Nat.exists_eq_add_of_le' (show 1 ≤ depth' by omega)
          cases s with
          | bool b =>
              cases h
              exact haccepts
          | obj node =>
              have hall : ∀ e ∈ node,
                  keyword R (accepts R depth) node e.1 e.2 value = true :=
                List.all_eq_true.mp haccepts
              cases htarget : target? definitions node with
              | some target =>
                  -- what the reference points to is all that is left of the object
                  obtain ⟨token, hreference, hget⟩ := descends_target hdefs hplain hs htarget
                  have haccepted := accepts_reference hreference hget hall
                  rw [simplify, htarget] at h
                  exact ih (hs.descend (.inr ⟨token, hreference, hget⟩)) h (by omega) haccepted
              | none =>
                  obtain ⟨result, rfl, hresult⟩ := simplify_obj (hdoc _ hs) htarget h
                  refine List.all_eq_true.mpr fun e he => ?_
                  rcases hresult e he with ⟨const, hconst, rfl⟩ | ⟨argument, hmem, -, hsimplifies⟩
                  · have hsame : sameScalar const value = true :=
                      hall _ (Dict.mem_of_get? hconst)
                    show ([const].any (sameScalar · value)) = true
                    rw [List.any_cons, hsame, Bool.true_or]
                  · refine hsimplifies.keyword (fun c hc c' hsimplify v hv => ?_) (hall _ hmem)
                    exact ih (hs.child (List.mem_flatMap.mpr ⟨_, hmem, hc⟩)) hsimplify
                      (by omega) hv
          | _ => exact (hdoc _ hs).elim

/-! ## Two documents -/

/-- A schema with its pointers read as pointers. -/
def pointerReading (schema : Dict Text Json) : Reading :=
  ⟨definitionsOf schema, unescaped, fun _ _ _ => true⟩

/-- A definition, and a property that is named like a keyword and refers to it. -/
def severitySchema : Dict Text Json :=
  [("$defs", .obj [("Severity", .obj [("type", .str "string")])]),
    ("properties", .obj [("$ref", .obj [("$ref", .str "#/$defs/Severity")])])]

theorem definitions_severitySchema {name : Text} {definition : Json}
    (h : Dict.get? (pointerReading severitySchema).definitions name = some definition) :
    definition = .obj [("type", .str "string")] := by
  have hmem : definition ∈ Dict.values (definitionsOf severitySchema) :=
    Dict.mem_values_of_get? h
  simpa [severitySchema, definitionsOf, Dict.values, Dict.get?] using hmem

theorem part_severitySchema {t : Json}
    (h : (pointerReading severitySchema).PartOf (.obj severitySchema) t) :
    t = .obj severitySchema ∨ t = .obj [("$ref", .str "#/$defs/Severity")] ∨
      t = .obj [("type", .str "string")] := by
  rcases h with ht | ⟨name, definition, hget, ht⟩
  · cases ht with
    | self => exact .inl rfl
    | child hc ht =>
        have hproperty := List.mem_singleton.mp hc
        subst hproperty
        exact .inr (.inl (eq_of_part rfl ht))
  · rw [definitions_severitySchema hget] at ht
    exact .inr (.inr (eq_of_part rfl ht))

theorem document_severitySchema :
    (pointerReading severitySchema).Document (.obj severitySchema) := by
  intro t ht
  rcases part_severitySchema ht with rfl | rfl | rfl
  · refine ⟨by decide, fun e he => ?_⟩
    simp only [severitySchema, List.mem_cons, List.not_mem_nil, or_false] at he
    rcases he with rfl | rfl
    · exact .of_other (by decide)
    · exact .ofProperties _ (List.nodup_singleton _)
  · refine ⟨List.nodup_singleton _, fun e he => ?_⟩
    rw [List.mem_singleton.mp he]
    exact .ofRef "Severity" (by decide)
  · refine ⟨List.nodup_singleton _, fun e he => ?_⟩
    rw [List.mem_singleton.mp he]
    exact .ofType "string"

theorem plain_severitySchema : Plain (pointerReading severitySchema) (.obj severitySchema) := by
  intro t ht token htoken _
  rcases part_severitySchema ht with rfl | rfl | rfl
  · cases htoken
  · cases htoken
    rfl
  · cases htoken

/-- A reference with an escape, and a definition that is named as the token is written. -/
def escapedSchema : Dict Text Json :=
  [("$ref", .str "#/$defs/a~1b"),
    ("$defs", .obj [("a/b", .obj [("type", .str "string")]),
      ("a~1b", .obj [("type", .str "integer")])])]

theorem definitions_escapedSchema {name : Text} {definition : Json}
    (h : Dict.get? (pointerReading escapedSchema).definitions name = some definition) :
    definition = .obj [("type", .str "string")] ∨ definition = .obj [("type", .str "integer")] := by
  have hmem : definition ∈ Dict.values (definitionsOf escapedSchema) :=
    Dict.mem_values_of_get? h
  simpa [escapedSchema, definitionsOf, Dict.values, Dict.get?] using hmem

theorem document_escapedSchema : (pointerReading escapedSchema).Document (.obj escapedSchema) := by
  have htype : ∀ name, IsSchema (pointerReading escapedSchema) (.obj [("type", .str name)]) := by
    intro name
    refine ⟨List.nodup_singleton _, fun e he => ?_⟩
    rw [List.mem_singleton.mp he]
    exact .ofType name
  rintro t (ht | ⟨name, definition, hget, ht⟩)
  · rw [eq_of_part rfl ht]
    refine ⟨by decide, fun e he => ?_⟩
    simp only [escapedSchema, List.mem_cons, List.not_mem_nil, or_false] at he
    rcases he with rfl | rfl
    · exact .ofRef "a~1b" (by decide)
    · exact .of_other (by decide)
  · rcases definitions_escapedSchema hget with rfl | rfl
    · rw [eq_of_part rfl ht]
      exact htype _
    · rw [eq_of_part rfl ht]
      exact htype _

end OllamaGrammar

section
open OllamaGrammar Schema Filter

/-- **The grammar only weakens the schema**, where references are read as they are written:
it is built, it has only the keywords that can be compiled, and every valid answer is let
through. -/
theorem ollamaGrammarSchema_weakens (R : Reading) (schema : Dict Text Json)
    (hdefs : R.definitions = definitionsOf schema) (hdoc : R.Document (.obj schema))
    (hacyclic : R.Acyclic) (hplain : Plain R (.obj schema)) :
    ∃ grammar, (∃ depth, ∀ fuel ≥ depth,
        ollamaGrammarSchema fuel schema = some (.ok grammar)) ∧
      OnlyGrammar (.obj grammar) ∧
      ∀ value, Valid R (.obj schema) value → ∀ R', Valid R' (.obj grammar) value := by
  let definitions := (Dict.get? schema "$defs").getD (.obj [])
  have hnames : ∀ name, definitions.get? name = Dict.get? R.definitions name := by
    intro name
    rw [hdefs]
    exact get?_definitionsOf schema name
  have hroot : R.PartOf (.obj schema) (.obj schema) := .inl (.self _)
  obtain ⟨depth, hdepth⟩ := eventually_atTop.mp
    (eventually_simplify hnames hdoc hplain hacyclic hroot)
  obtain ⟨g, hg⟩ := Option.isSome_iff_exists.mp (hdepth depth le_rfl)
  obtain ⟨grammar, rfl⟩ := exists_obj_of_simplify hg
  refine ⟨grammar, ⟨depth, fun fuel hfuel => ?_⟩, ?_, fun value hvalid R' => ?_⟩
  · rw [ollamaGrammarSchema, simplify_mono_le hfuel hg]
    rfl
  · exact onlyGrammar_of_simplify hnames hdoc hplain hroot hg
  · obtain ⟨n, hn⟩ := eventually_atTop.mp hvalid
    refine eventually_atTop.mpr ⟨n, fun m hm => ?_⟩
    exact accepts_of_simplify hnames hdoc hplain hroot hg hm (hn n le_rfl)

theorem ollamaGrammarSchema_weakens_severity :
    ∃ grammar, (∃ depth, ∀ fuel ≥ depth,
        ollamaGrammarSchema fuel severitySchema = some (.ok grammar)) ∧
      OnlyGrammar (.obj grammar) ∧
      ∀ value, Valid (pointerReading severitySchema) (.obj severitySchema) value →
        ∀ R', Valid R' (.obj grammar) value :=
  ollamaGrammarSchema_weakens (pointerReading severitySchema) severitySchema rfl
    document_severitySchema
    (Reading.acyclic_of_flat fun name definition hget => by
      rw [definitions_severitySchema hget]
      exact ⟨rfl, rfl⟩)
    plain_severitySchema

/-- A string is valid under the schema and not under its grammar. -/
theorem escaped_token_misread :
    (pointerReading escapedSchema).Document (.obj escapedSchema) ∧
    (pointerReading escapedSchema).Acyclic ∧
    Valid (pointerReading escapedSchema) (.obj escapedSchema) (.str "x") ∧
    ∃ grammar, ollamaGrammarSchema 3 escapedSchema = some (.ok grammar) ∧
      ∀ R, ¬ Valid R (.obj grammar) (.str "x") := by
  refine ⟨document_escapedSchema, Reading.acyclic_of_flat fun name definition hget => ?_, ?_,
    [("type", .str "integer")], rfl, fun R hvalid => ?_⟩
  · rcases definitions_escapedSchema hget with rfl | rfl
    · exact ⟨rfl, rfl⟩
    · exact ⟨rfl, rfl⟩
  · refine eventually_atTop.mpr ⟨2, fun n hn => ?_⟩
    obtain ⟨depth, rfl⟩ := Nat.exists_eq_add_of_le' hn
    rfl
  · obtain ⟨n, hn⟩ := eventually_atTop.mp hvalid
    have haccepts := hn (n + 1) (by omega)
    cases haccepts

end

end SupportPlatform
