import SupportPlatform.Json

/-! # JSON Schema

What a schema says of a value.  A schema is itself a JSON value: `true`, `false`, or an object
whose entries are keywords, each of which asserts something.  A `$ref` asserts what the
definition says that it points to.

References may refer to schemas with references in them, so acceptance is defined to a depth:
`accepts n` follows at most `n` steps into a schema, and a value is `Valid` when it is accepted
at every depth from some on.  Where no definition refers back to itself every descent into a
schema ends (`Reading.Acyclic.acc`), which is what an induction on a document follows.
-/
namespace SupportPlatform
namespace Schema

/-- **How a document is read**: its definitions, the name that a token of a pointer denotes
once its escapes are undone, and what the keywords assert that have no rule here, such as the
bounds of numbers and lengths. -/
structure Reading where
  definitions : Dict Text Json
  denoted : Text → Text
  assertion : Text → Json → Json → Bool

/-- Undoing the escapes of a pointer's token. -/
def unescaped : Text → Text
  | '~' :: '1' :: rest => '/' :: unescaped rest
  | '~' :: '0' :: rest => '~' :: unescaped rest
  | c :: rest => c :: unescaped rest
  | [] => []

/-- The beginning of a pointer into the definitions. -/
def pointer : Text := "#/$defs/"

/-- The token of a reference into the definitions. -/
def token? : Json → Option Text
  | .str reference =>
      if pointer.isPrefixOf reference then some (reference.drop pointer.length) else none
  | _ => none

/-! ## Assertions -/

/-- Equality of two scalars, of numbers by what they are worth. -/
def sameScalar : Json → Json → Bool
  | .null, .null => true
  | .bool a, .bool b => a == b
  | .int a, .int b => a == b
  | .int a, .float (.finite b) => decide ((a : Rat) = b)
  | .float (.finite a), .int b => decide (a = (b : Rat))
  | .float a, .float b => decide (a = b)
  | .str a, .str b => decide (a = b)
  | _, _ => false

/-- The types of JSON Schema. -/
def hasType (name : Text) : Json → Bool
  | .null => decide (name = "null")
  | .bool _ => decide (name = "boolean")
  | .int _ => decide (name = "integer") || decide (name = "number")
  | .float (.finite q) => decide (name = "integer") && q.isInt || decide (name = "number")
  | .float _ => decide (name = "number")
  | .str _ => decide (name = "string")
  | .arr _ => decide (name = "array")
  | .obj _ => decide (name = "object")

/-- `type`: the name of a type, or an array of them. -/
def typeHolds (types value : Json) : Bool :=
  match types with
  | .str name => hasType name value
  | .arr names => names.any fun
      | .str name => hasType name value
      | _ => false
  | _ => false

/-- The names under `properties`. -/
def declared (schema : Dict Text Json) : List Text :=
  match Dict.get? schema "properties" with
  | some (.obj properties) => Dict.keys properties
  | _ => []

/-- **What a keyword asserts**, given what subschemas say. -/
def keyword (R : Reading) (sub : Json → Json → Bool) (schema : Dict Text Json) (key : Text)
    (argument value : Json) : Bool :=
  if key = "type" then typeHolds argument value
  else if key = "properties" then
    match argument, value with
    | .obj properties, .obj fields => properties.all fun p => (Dict.get? fields p.1).all (sub p.2)
    | _, _ => true
  else if key = "required" then
    match argument, value with
    | .arr names, .obj fields => names.all fun
        | .str name => Dict.has fields name
        | _ => true
    | _, _ => true
  else if key = "items" then
    match value with
    | .arr items => items.all (sub argument)
    | _ => true
  else if key = "enum" then
    match argument with
    | .arr values => values.any (sameScalar · value)
    | _ => true
  else if key = "const" then sameScalar argument value
  else if key = "$ref" then
    match (token? argument).bind fun token => Dict.get? R.definitions (R.denoted token) with
    | some target => sub target value
    | none => true
  else if key = "anyOf" then
    match argument with
    | .arr schemas => schemas.any (sub · value)
    | _ => true
  else if key = "allOf" then
    match argument with
    | .arr schemas => schemas.all (sub · value)
    | _ => true
  else if key = "oneOf" then
    match argument with
    | .arr schemas => decide (schemas.countP (sub · value) = 1)
    | _ => true
  else if key = "additionalProperties" then
    match value with
    | .obj fields => fields.all fun f => decide (f.1 ∈ declared schema) || sub argument f.2
    | _ => true
  else R.assertion key argument value

/-- **Acceptance** to a depth. -/
def accepts (R : Reading) : Nat → Json → Json → Bool
  | 0, _, _ => false
  | _ + 1, .bool b, _ => b
  | n + 1, .obj schema, value =>
      schema.all fun e => keyword R (accepts R n) schema e.1 e.2 value
  | _ + 1, _, _ => false

/-- **Validity**: acceptance at every depth from some on. -/
def Valid (R : Reading) (schema value : Json) : Prop :=
  ∀ᶠ n in Filter.atTop, accepts R n schema value = true

/-! ## The parts of a schema -/

/-- The schemas in the argument of a keyword. -/
def subschemas (key : Text) (argument : Json) : List Json :=
  if key = "properties" then
    match argument with
    | .obj properties => Dict.values properties
    | _ => []
  else if key ∈ (["items", "additionalProperties"] : List Text) then [argument]
  else if key ∈ (["anyOf", "allOf", "oneOf"] : List Text) then
    match argument with
    | .arr schemas => schemas
    | _ => []
  else []

/-- The schemas directly within a schema. -/
def children : Json → List Json
  | .obj schema => schema.flatMap fun e => subschemas e.1 e.2
  | _ => []

/-- The schemas within a schema, itself included. -/
inductive Part : Json → Json → Prop
  | self (s : Json) : Part s s
  | child {t c s : Json} (hc : c ∈ children s) (h : Part t c) : Part t s

/-- The token of the reference that a schema has. -/
def reference? : Json → Option Text
  | .obj schema => (Dict.get? schema "$ref").bind token?
  | _ => none

/-- The schemas of a document: those within the root and within the definitions. -/
def Reading.PartOf (R : Reading) (root t : Json) : Prop :=
  Part t root ∨ ∃ name definition, Dict.get? R.definitions name = some definition ∧
    Part t definition

/-- A definition refers to another. -/
def Reading.RefersTo (R : Reading) (a b : Text) : Prop :=
  ∃ definition, Dict.get? R.definitions a = some definition ∧
    ∃ t, Part t definition ∧ ∃ token, reference? t = some token ∧ R.denoted token = b

/-- **No cycles**: no definition refers back to itself, however indirectly. -/
def Reading.Acyclic (R : Reading) : Prop := ∀ a, ¬ Relation.TransGen R.RefersTo a a

/-- A scalar. -/
def IsScalar : Json → Prop
  | .arr _ | .obj _ => False
  | _ => True

/-- An array of strings. -/
def IsNames (argument : Json) : Prop :=
  ∃ names, argument = .arr names ∧ ∀ n ∈ names, ∃ name, n = .str name

/-- The argument that a keyword takes. -/
structure TakesArgument (R : Reading) (key : Text) (argument : Json) : Prop where
  type : key = "type" → (∃ name, argument = .str name) ∨ IsNames argument
  properties : key = "properties" →
    ∃ properties, argument = .obj properties ∧ (Dict.keys properties).Nodup
  required : key = "required" → IsNames argument
  enum : key = "enum" → ∃ values, argument = .arr values ∧ ∀ v ∈ values, IsScalar v
  const : key = "const" → IsScalar argument
  ref : key = "$ref" → ∃ token, argument = .str (pointer ++ token) ∧
    Dict.get? R.definitions (R.denoted token) ≠ none
  branches : key ∈ (["anyOf", "allOf", "oneOf"] : List Text) → ∃ schemas, argument = .arr schemas

/-- A schema by itself: a boolean, or an object of keywords with the arguments they take. -/
def IsSchema (R : Reading) : Json → Prop
  | .bool _ => True
  | .obj schema => (Dict.keys schema).Nodup ∧ ∀ e ∈ schema, TakesArgument R e.1 e.2
  | _ => False

/-- **A document**: all its schemas are. -/
def Reading.Document (R : Reading) (root : Json) : Prop := ∀ t, R.PartOf root t → IsSchema R t

/-! ## Induction on a document -/

variable {R : Reading} {s t c root : Json}

theorem sizeOf_subschemas {key : Text} {argument : Json} (h : c ∈ subschemas key argument) :
    sizeOf c ≤ sizeOf argument := by
  unfold subschemas at h
  split at h
  · split at h
    · rename_i properties
      obtain ⟨p, hp, rfl⟩ := List.mem_map.mp h
      have hmem := List.sizeOf_lt_of_mem hp
      have hpair : sizeOf p = 1 + sizeOf p.1 + sizeOf p.2 := by cases p; rfl
      rw [Json.obj.sizeOf_spec]
      omega
    · cases h
  split at h
  · rw [List.mem_singleton.mp h]
  split at h
  · split at h
    · have hmem := List.sizeOf_lt_of_mem h
      rw [Json.arr.sizeOf_spec]
      omega
    · cases h
  · cases h

theorem sizeOf_children (h : c ∈ children s) : sizeOf c < sizeOf s := by
  cases s with
  | obj schema =>
      obtain ⟨e, he, hc⟩ := List.mem_flatMap.mp h
      have hmem := List.sizeOf_lt_of_mem he
      have hpair : sizeOf e = 1 + sizeOf e.1 + sizeOf e.2 := by cases e; rfl
      have hsub := sizeOf_subschemas hc
      rw [Json.obj.sizeOf_spec]
      omega
  | _ => cases h

theorem Part.trans (h : Part t c) (h' : Part c s) : Part t s := by
  induction h' with
  | self => exact h
  | child hc _ ih => exact .child hc ih

/-- What holds of all parts holds of a schema and of all parts of its children. -/
theorem forall_part_iff {P : Json → Prop} :
    (∀ t, Part t s → P t) ↔ P s ∧ ∀ c ∈ children s, ∀ t, Part t c → P t := by
  constructor
  · exact fun h => ⟨h s (.self s), fun c hc t ht => h t (.child hc ht)⟩
  · rintro ⟨hs, hc⟩ t ht
    cases ht with
    | self => exact hs
    | child hmem hpart => exact hc _ hmem t hpart

theorem Reading.PartOf.child (h : R.PartOf root s) (hc : c ∈ children s) : R.PartOf root c :=
  h.imp (fun h => (Part.child hc (.self c)).trans h) fun ⟨name, definition, hget, hpart⟩ =>
    ⟨name, definition, hget, (Part.child hc (.self c)).trans hpart⟩

/-- A step into a schema: to a child, or to what its reference points to. -/
def Descends (R : Reading) (t s : Json) : Prop :=
  t ∈ children s ∨ ∃ token, reference? s = some token ∧
    Dict.get? R.definitions (R.denoted token) = some t

theorem Reading.PartOf.descend (h : R.PartOf root s) (ht : Descends R t s) : R.PartOf root t := by
  rcases ht with hc | ⟨token, -, hget⟩
  · exact h.child hc
  · exact .inr ⟨_, t, hget, .self t⟩

/-- A schema can be entered only finitely deep when that is so of all that it refers to. -/
theorem acc_of_references (h : ∀ t, Part t s → ∀ token, reference? t = some token →
    ∀ target, Dict.get? R.definitions (R.denoted token) = some target → Acc (Descends R) target) :
    Acc (Descends R) s := by
  induction hn : sizeOf s using Nat.strong_induction_on generalizing s with
  | _ n ih =>
      refine Acc.intro s fun t ht => ?_
      rcases ht with hc | ⟨token, htoken, hget⟩
      · have hlt := sizeOf_children hc
        exact ih (sizeOf t) (by omega) (fun u hu => h u (hu.trans (.child hc (.self t)))) rfl
      · exact h s (.self s) token htoken t hget

/-- **Without cycles every descent ends.** -/
theorem Reading.Acyclic.acc (h : R.Acyclic) (s : Json) : Acc (Descends R) s := by
  -- the definitions are finitely many, so following references among them ends
  have hnames : ∀ a, Acc (fun b a => R.RefersTo a b) a := by
    have hout : ∀ a, Dict.get? R.definitions a = none → Acc (fun b a => R.RefersTo a b) a := by
      intro a ha
      refine Acc.intro a fun b hb => ?_
      obtain ⟨definition, hget, -⟩ := hb
      rw [ha] at hget
      cases hget
    let below (x y : {a // a ∈ Dict.keys R.definitions}) : Prop :=
      Relation.TransGen R.RefersTo y.1 x.1
    have : IsTrans _ below := ⟨fun _ _ _ hxy hyz => Relation.TransGen.trans hyz hxy⟩
    have : Std.Irrefl below := ⟨fun x => h x.1⟩
    have : Finite {a // a ∈ Dict.keys R.definitions} := List.finite_toSet _
    have hwf : WellFounded below := Finite.wellFounded_of_trans_of_irrefl below
    intro a
    by_cases ha : a ∈ Dict.keys R.definitions
    · have hin : ∀ x : {a // a ∈ Dict.keys R.definitions}, Acc (fun b a => R.RefersTo a b) x.1 := by
        intro x
        induction x using hwf.induction with
        | _ x ih =>
            refine Acc.intro x.1 fun b hb => ?_
            by_cases hkey : b ∈ Dict.keys R.definitions
            · exact ih ⟨b, hkey⟩ (.single hb)
            · exact hout b (Dict.get?_eq_none.mpr hkey)
      exact hin ⟨a, ha⟩
    · exact hout a (Dict.get?_eq_none.mpr ha)
  have hdefinitions : ∀ a definition, Dict.get? R.definitions a = some definition →
      Acc (Descends R) definition := by
    intro a
    induction hnames a with
    | intro a _ ih =>
        intro definition hget
        refine acc_of_references fun t ht token htoken target htarget => ?_
        exact ih (R.denoted token) ⟨definition, hget, t, ht, token, htoken, rfl⟩ target htarget
  exact acc_of_references fun _ _ _ _ target htarget => hdefinitions _ target htarget

/-! ## Documents -/

/-- The arguments of the keywords that have no rule are free. -/
theorem TakesArgument.of_other {key : Text} {argument : Json}
    (h : key ∉ (["type", "properties", "required", "enum", "const", "$ref", "anyOf", "allOf",
      "oneOf"] : List Text)) : TakesArgument R key argument := by
  simp only [List.mem_cons, List.not_mem_nil, or_false, not_or] at h
  obtain ⟨htype, hproperties, hrequired, henum, hconst, href, hany, hall, hone⟩ := h
  refine ⟨fun h => absurd h htype, fun h => absurd h hproperties, fun h => absurd h hrequired,
    fun h => absurd h henum, fun h => absurd h hconst, fun h => absurd h href, fun h => ?_⟩
  simp only [List.mem_cons, List.not_mem_nil, or_false] at h
  rcases h with h | h | h
  · exact absurd h hany
  · exact absurd h hall
  · exact absurd h hone

theorem TakesArgument.ofType (name : Text) : TakesArgument R "type" (.str name) := by
  constructor
  case type => exact fun _ => .inl ⟨name, rfl⟩
  all_goals exact fun h => absurd h (by decide)

theorem TakesArgument.ofProperties (properties : Dict Text Json)
    (h : (Dict.keys properties).Nodup) : TakesArgument R "properties" (.obj properties) := by
  constructor
  case properties => exact fun _ => ⟨properties, rfl, h⟩
  all_goals exact fun h => absurd h (by decide)

theorem TakesArgument.ofRef (token : Text)
    (h : Dict.get? R.definitions (R.denoted token) ≠ none) :
    TakesArgument R "$ref" (.str (pointer ++ token)) := by
  constructor
  case ref => exact fun _ => ⟨token, rfl, h⟩
  all_goals exact fun h => absurd h (by decide)

theorem eq_of_part (hs : children s = []) (h : Part t s) : t = s := by
  cases h with
  | self => rfl
  | child hc =>
      rw [hs] at hc
      cases hc

/-- A document whose definitions have no references and no schemas in them. -/
theorem Reading.acyclic_of_flat
    (h : ∀ name definition, Dict.get? R.definitions name = some definition →
      children definition = [] ∧ reference? definition = none) : R.Acyclic := by
  have hnone : ∀ a b, ¬ R.RefersTo a b := by
    rintro a b ⟨definition, hget, t, ht, token, htoken, -⟩
    obtain ⟨hchildren, hreference⟩ := h a definition hget
    rw [eq_of_part hchildren ht, hreference] at htoken
    cases htoken
  intro a ha
  cases ha with
  | single h => exact hnone _ _ h
  | tail _ h => exact hnone _ _ h

end Schema
end SupportPlatform
