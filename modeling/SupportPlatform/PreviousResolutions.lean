import SupportPlatform.SanitizedValues
import SupportPlatform.EvidenceSummary
import SupportPlatform.Session

/-! # What earlier resolutions come with

`get_previous_resolutions` lists the newest resolutions of comparable incidents, each with its
actions and the sources it cites.  The query is right (`listed_previousResolutions`), but its rows
go through `sanitize_value`, and a cited source is a dictionary in a list in a dictionary in a
list in a dictionary: what it holds is at the fifth level, which is cut off.  So a result delivers
the cited sources as long as they hold nothing (`deliversResolutions_iff`).
-/
namespace SupportPlatform
open Program

section
variable [Runtime]

/-! ## What may be changed -/

/-- **The second value is the first one but for redaction and the bounds of texts.** -/
inductive Faithful : Json → Json → Prop
  | null : Faithful .null .null
  | bool (b : Bool) : Faithful (.bool b) (.bool b)
  | int (i : Int) : Faithful (.int i) (.int i)
  | float (f : Float64) : Faithful (.float f) (.float f)
  | str (s : Text) : Faithful (.str s) (.str (sanitizeText s))
  | arr {items items' : List Json} (hlength : items'.length = items.length)
      (hitems : ∀ p ∈ items.zip items', Faithful p.1 p.2) : Faithful (.arr items) (.arr items')
  | obj {entries entries' : Dict Text Json}
      (hkeys : Dict.keys entries' = (Dict.keys entries).map (·.take 120))
      (hvalues : ∀ p ∈ entries.zip entries',
        ¬ (sensitiveKey p.2.1 = true ∧ p.2.2 = .str "[redacted]") → Faithful p.1.2 p.2.2) :
      Faithful (.obj entries) (.obj entries')

/-- Sanitizing with so many levels left keeps the value. -/
def KeptWithin : Nat → Json → Prop
  | 0, .str s => sanitizeText s = "[depth-limited]"
  | 0, _ => False
  | n + 1, .arr items => items.length ≤ 50 ∧ ∀ v ∈ items, KeptWithin n v
  | n + 1, .obj entries => entries.length ≤ 50 ∧ ((Dict.keys entries).map (·.take 120)).Nodup ∧
      ∀ e ∈ entries, sensitiveKey (e.1.take 120) = true ∨ KeptWithin n e.2
  | _ + 1, _ => True

omit [Runtime] in
theorem forall_mem_zip_map {α β : Type} {f : α → β} {P : α × β → Prop} {l : List α} :
    (∀ p ∈ l.zip (l.map f), P p) ↔ ∀ a ∈ l, P (a, f a) := by
  induction l with
  | nil => simp
  | cons a l ih => rw [List.map_cons, List.zip_cons_cons, List.forall_mem_cons, List.forall_mem_cons, ih]

/-- **When sanitizing keeps a value.** -/
theorem faithful_sanitizeLevels {n : Nat} {v : Json} :
    Faithful v (sanitizeLevels n v) ↔ KeptWithin n v := by
  induction n generalizing v with
  | zero =>
      cases v with
      | str s =>
          rw [sanitizeLevels, KeptWithin]
          constructor
          · intro h
            generalize hw : Json.str ("[depth-limited]" : Text) = w at h
            cases h
            exact (Json.str.inj hw).symm
          · exact fun h => h ▸ .str s
      | _ => exact iff_of_false (fun h => by cases h) id
  | succ n ih =>
      cases v with
      | null => exact iff_of_true .null trivial
      | bool b => exact iff_of_true (.bool b) trivial
      | int i => exact iff_of_true (.int i) trivial
      | float f => exact iff_of_true (.float f) trivial
      | str s => exact iff_of_true (.str s) trivial
      | arr items =>
          rw [sanitizeLevels, KeptWithin]
          constructor
          · intro h
            cases h with
            | arr hlength hitems =>
                rw [List.length_map, List.length_take] at hlength
                have hfifty : items.length ≤ 50 := by omega
                rw [List.take_of_length_le hfifty, forall_mem_zip_map] at hitems
                exact ⟨hfifty, fun v hv => ih.mp (hitems v hv)⟩
          · rintro ⟨hfifty, h⟩
            rw [List.take_of_length_le hfifty]
            exact .arr (List.length_map _) (forall_mem_zip_map.mpr fun v hv => ih.mpr (h v hv))
      | obj entries =>
          have hkeys : ∀ l : Dict Text Json, Dict.keys (l.map fun e => (e.1.take 120,
              if sensitiveKey (e.1.take 120) then .str "[redacted]" else sanitizeLevels n e.2)) =
                (Dict.keys l).map (·.take 120) := fun l => by
            rw [Dict.keys, Dict.keys, List.map_map, List.map_map]
            rfl
          rw [sanitizeLevels, KeptWithin, sanitizeEntries]
          constructor
          · intro h
            cases h with
            | obj hsame hvalues =>
                have hlength := congrArg List.length hsame
                simp only [Dict.keys, List.length_map] at hlength
                have hle := Dict.length_ofList_le ((entries.take 50).map fun e => (e.1.take 120,
                  if sensitiveKey (e.1.take 120) then .str "[redacted]" else sanitizeLevels n e.2))
                rw [List.length_map, List.length_take] at hle
                have hfifty : entries.length ≤ 50 := by omega
                rw [List.take_of_length_le hfifty] at hsame hvalues hlength
                rw [Dict.ofList_of_length (by rw [hlength, List.length_map])] at hvalues
                rw [forall_mem_zip_map] at hvalues
                refine ⟨hfifty, hsame ▸ Dict.nodup_keys_ofList _, fun e he => ?_⟩
                by_cases hkey : sensitiveKey (e.1.take 120) = true
                · exact .inl hkey
                · have hvalue := hvalues e he fun h => hkey h.1
                  dsimp only at hvalue
                  rw [if_neg hkey] at hvalue
                  exact .inr (ih.mp hvalue)
          · rintro ⟨hfifty, hnodup, h⟩
            rw [List.take_of_length_le hfifty, Dict.ofList_of_nodup (hkeys entries ▸ hnodup)]
            refine .obj (hkeys entries) (forall_mem_zip_map.mpr fun e he hvalue => ?_)
            by_cases hkey : sensitiveKey (e.1.take 120) = true
            · exact absurd ⟨hkey, if_pos hkey⟩ hvalue
            · dsimp only
              rw [if_neg hkey]
              exact ih.mpr ((h e he).resolve_left hkey)

end

/-! ## The query -/

namespace Database

/-- A completed resolution of another incident of the same classification, with its incident,
whose execution was not rejected. -/
def ComparableTo (db : Database) (current : Incident) (row : Resolution × Incident) : Prop :=
  row.2.id = row.1.incidentId ∧ row.1.incidentId ≠ current.id ∧ row.1.status = .completed ∧
    row.2.classification = current.classification ∧
    ¬ ∃ x ∈ db.executions, x.incidentId = row.1.incidentId ∧ x.status = .rejected

instance (db : Database) (current : Incident) : DecidablePred (db.ComparableTo current) :=
  fun _ => inferInstanceAs (Decidable (_ ∧ _ ∧ _ ∧ _ ∧ _))

/-- Completed later, or as late with a higher identifier; no time at all counts as the latest. -/
def NotOlder (a b : Resolution) : Prop := match a.completedAt, b.completedAt with
  | none, none => b.id ≤ a.id
  | none, some _ => True
  | some _, none => False
  | some s, some t => t < s ∨ s = t ∧ b.id ≤ a.id

/-- **The first so many comparable resolutions**, the newest first. -/
def FirstComparable (db : Database) (current : Incident) (limit : Nat)
    (rows : List (Resolution × Incident)) : Prop :=
  ∃ all : List (Resolution × Incident),
    all.Perm ((db.resolutions ×ˢ db.incidents).filter (db.ComparableTo current)) ∧
    all.Pairwise (fun a b => NotOlder a.1 b.1) ∧ rows = all.take limit

/-- A filtered join is a filtered product. -/
theorem flatMap_filter_eq {α β : Type} {p : α → Bool} {q : α → β → Bool} (as : List α)
    (bs : List β) : ((as.filter p).flatMap fun a => (bs.filter (q a)).map fun b => (a, b)) =
      (as ×ˢ bs).filter fun row => p row.1 && q row.1 row.2 := by
  induction as with
  | nil => rfl
  | cons a as ih =>
      rw [List.product_cons, List.filter_append, ← ih, List.filter_map]
      by_cases ha : p a = true
      · rw [List.filter_cons_of_pos ha, List.flatMap_cons]
        congr 2
        exact List.filter_congr fun b _ => by simp [ha]
      · have hnone : bs.filter ((fun row : α × β => p row.1 && q row.1 row.2) ∘ Prod.mk a) = [] :=
          List.filter_eq_nil_iff.mpr fun b _ => by simp [ha]
        rw [List.filter_cons_of_neg ha, hnone, List.map_nil, List.nil_append]

theorem notOlder_total (a b : Resolution) : NotOlder a b ∨ NotOlder b a := by
  unfold NotOlder
  cases a.completedAt with
  | none =>
      cases b.completedAt with
      | none => exact le_total b.id a.id
      | some t => exact .inl trivial
  | some s =>
      cases b.completedAt with
      | none => exact .inr trivial
      | some t =>
          rcases lt_trichotomy t s with h | h | h
          · exact .inl (.inl h)
          · exact (le_total b.id a.id).imp (fun hid => .inr ⟨h.symm, hid⟩) fun hid => .inr ⟨h, hid⟩
          · exact .inr (.inl h)

theorem notOlder_trans {a b c : Resolution} (hab : NotOlder a b) (hbc : NotOlder b c) :
    NotOlder a c := by
  unfold NotOlder at *
  cases ha : a.completedAt with
  | none =>
      cases hc : c.completedAt with
      | none =>
          cases hb : b.completedAt with
          | none =>
              simp only [ha, hb, hc] at hab hbc ⊢
              exact hbc.trans hab
          | some t => simp only [hb, hc] at hbc
      | some u => trivial
  | some s =>
      cases hb : b.completedAt with
      | none => simp only [ha, hb] at hab
      | some t =>
          cases hc : c.completedAt with
          | none => simp only [hb, hc] at hbc
          | some u =>
              simp only [ha, hb, hc] at hab hbc ⊢
              rcases hab with hst | ⟨rfl, hab⟩
              · exact .inl (hbc.elim (fun htu => htu.trans hst) fun htu => htu.1 ▸ hst)
              · exact hbc.imp id fun htu => ⟨htu.1, htu.2.trans hab⟩

theorem firstComparable_previousResolutions (db : Database) (current : Incident) (limit : Nat) :
    db.FirstComparable current limit
      (db.previousResolutions current.id current.classification limit) := by
  refine ⟨_, (List.perm_insertionSort _ _).trans (List.Perm.of_eq ?_), ?_, rfl⟩
  · rw [flatMap_filter_eq]
    refine List.filter_congr fun row _ => Bool.eq_iff_iff.mpr ?_
    rw [Bool.and_eq_true, decide_eq_true_iff, decide_eq_true_iff, decide_eq_true_iff]
    simp only [ComparableTo, decide_eq_true_iff, List.any_eq_true]
    constructor
    · rintro ⟨⟨hother, hcompleted, hrejected⟩, hid, hclass⟩
      exact ⟨hid, hother, hcompleted, hclass, hrejected⟩
    · rintro ⟨hid, hother, hcompleted, hclass, hrejected⟩
      exact ⟨⟨hother, hcompleted, hrejected⟩, hid, hclass⟩
  · -- the order of the query is `NotOlder`
    have hnewer : ∀ a b : Resolution × Incident, (match a.1.completedAt, b.1.completedAt with
        | none, none => decide (b.1.id ≤ a.1.id)
        | none, some _ => true
        | some _, none => false
        | some s, some t => decide (t < s ∨ s = t ∧ b.1.id ≤ a.1.id)) = true ↔
          NotOlder a.1 b.1 := by
      intro a b
      unfold NotOlder
      cases a.1.completedAt <;> cases b.1.completedAt <;> simp
    refine (@List.pairwise_insertionSort _ _ _ ⟨fun a b => ?_⟩ ⟨fun a b c hab hbc => ?_⟩ _).imp
      fun {a b} h => (hnewer a b).mp h
    · exact (notOlder_total a.1 b.1).imp (hnewer a b).mpr (hnewer b a).mpr
    · exact (hnewer a c).mpr (notOlder_trans ((hnewer a b).mp hab) ((hnewer b c).mp hbc))

end Database

/-! ## The result -/

section
variable [Runtime]

/-- A resolution as the tool returns it. -/
def resolutionData (row : Resolution × Incident) : Json :=
  .obj [("incident_id", .int row.2.id),
    ("resolution_id", .int row.1.id),
    ("service", .str row.2.service),
    ("summary", boundJson row.1.summary 800),
    ("root_cause", boundJson row.1.rootCause 1000),
    ("recommended_actions", .arr (((row.1.recommendedActions.getD []).take 8).map .str)),
    ("confidence", Json.ofFloat row.1.confidence),
    ("cited_sources", .arr ((row.1.citedSources.getD []).take 8))]

/-- **An entry is that of the resolution**, with its actions and the sources it cites. -/
structure Carries (row : Resolution × Incident) (entry : Json) : Prop where
  incident : entry.get? "incident_id" = some (.int row.2.id)
  resolution : entry.get? "resolution_id" = some (.int row.1.id)
  actions : ∃ actions, entry.get? "recommended_actions" = some actions ∧
    Faithful (.arr (((row.1.recommendedActions.getD []).take 8).map .str)) actions
  sources : ∃ sources, entry.get? "cited_sources" = some sources ∧
    Faithful (.arr ((row.1.citedSources.getD []).take 8)) sources

/-- **The data delivers the resolutions**: the first comparable ones, each as it is. -/
def DeliversResolutions (db : Database) (current : Incident) (limit : Nat)
    (data : Dict Text Json) : Prop :=
  ∃ rows entries, db.FirstComparable current limit rows ∧
    data.get? "resolutions" = some (.arr entries) ∧ List.Forall₂ Carries rows entries

theorem sanitizeDict_resolutions {rows : List (Resolution × Incident)} (h : rows.length ≤ 50) :
    sanitizeDict [(("resolutions" : Text), .arr (rows.map resolutionData))] =
      [(("resolutions" : Text), .arr (rows.map fun row => sanitizeLevels 3 (resolutionData row)))] := by
  have heq : sanitizeDict [(("resolutions" : Text), .arr (rows.map resolutionData))] =
      [(("resolutions" : Text), sanitizeLevels 4 (.arr (rows.map resolutionData)))] := rfl
  rw [heq, sanitizeLevels, List.take_of_length_le (by rwa [List.length_map]), List.map_map]
  rfl

/-- What `sanitize_value` keeps of a cited source, where it is: it comes with one level left. -/
def CitedKept (row : Resolution × Incident) : Prop :=
  ∀ source ∈ (row.1.citedSources.getD []).take 8, KeptWithin 1 source

theorem sources_iff {row : Resolution × Incident} :
    (∃ sources, (sanitizeLevels 3 (resolutionData row)).get? "cited_sources" = some sources ∧
      Faithful (.arr ((row.1.citedSources.getD []).take 8)) sources) ↔ CitedKept row := by
  have hsources : Faithful (.arr ((row.1.citedSources.getD []).take 8))
      (sanitizeLevels 2 (.arr ((row.1.citedSources.getD []).take 8))) ↔ CitedKept row := by
    rw [faithful_sanitizeLevels, KeptWithin]
    exact and_iff_right ((List.length_take_le _ _).trans (by decide))
  constructor
  · rintro ⟨sources, hget, hfaithful⟩
    obtain rfl := Option.some.inj hget
    exact hsources.mp hfaithful
  · exact fun h => ⟨_, rfl, hsources.mpr h⟩

theorem carries_of_kept {row : Resolution × Incident} (h : CitedKept row) :
    Carries row (sanitizeLevels 3 (resolutionData row)) := by
  refine ⟨rfl, rfl, ⟨_, rfl, faithful_sanitizeLevels.mpr ⟨?_, fun v hv => ?_⟩⟩, sources_iff.mpr h⟩
  · rw [List.length_map]
    exact (List.length_take_le _ _).trans (by decide)
  · obtain ⟨action, -, rfl⟩ := List.mem_map.mp hv
    trivial

/-- The data of the rows of the query delivers the resolutions exactly if their sources are kept. -/
theorem delivers_rows_iff {db : Database} {current : Incident} {limit : Nat} (hlimit : limit ≤ 50)
    (hkeys : (db.resolutions.map (·.id)).Nodup) :
    DeliversResolutions db current limit (sanitizeDict [(("resolutions" : Text), .arr
      ((db.previousResolutions current.id current.classification limit).map resolutionData))]) ↔
      ∀ row ∈ db.previousResolutions current.id current.classification limit, CitedKept row := by
  have hfirst := db.firstComparable_previousResolutions current limit
  generalize db.previousResolutions current.id current.classification limit = rows at hfirst
  have hmem : ∀ {rows : List (Resolution × Incident)}, db.FirstComparable current limit rows →
      rows.length ≤ 50 ∧ ∀ row ∈ rows, row.1 ∈ db.resolutions := by
    rintro rows ⟨all, hperm, -, rfl⟩
    refine ⟨(List.length_take_le _ _).trans hlimit, fun row hrow => ?_⟩
    have hrow := List.mem_of_mem_filter (hperm.mem_iff.mp (List.mem_of_mem_take hrow))
    exact (List.mem_product.mp hrow).1
  obtain ⟨hlength, hrows⟩ := hmem hfirst
  rw [sanitizeDict_resolutions hlength]
  constructor
  · rintro ⟨rows', entries, hfirst', hget, hcarries⟩
    obtain rfl := Json.arr.inj (Option.some.inj hget)
    have hpairs := (List.forall₂_and_left _ _).mpr ⟨(hmem hfirst').2, hcarries⟩
    rw [List.forall₂_map_right_iff] at hpairs
    -- a row is known by the identifier of its resolution
    have hkept : List.Forall₂ (fun row _ => CitedKept row ∧ True) rows rows' := by
      refine ((List.forall₂_and_left _ _).mpr ⟨hrows, hpairs.flip⟩).imp fun row row' h => ?_
      obtain ⟨hrow, hrow', hcarries⟩ := h
      have hid : row'.1 = row.1 := List.inj_on_of_nodup_map hkeys hrow' hrow
        (Json.int.inj (Option.some.inj hcarries.resolution)).symm
      exact ⟨sources_iff.mp (hid ▸ hcarries.sources), trivial⟩
    exact ((List.forall₂_and_left _ _).mp hkept).1
  · intro hkept
    refine ⟨rows, _, hfirst, rfl, ?_⟩
    rw [List.forall₂_map_right_iff, List.forall₂_same]
    exact fun row hrow => carries_of_kept (hkept row hrow)

/-! ## A run of the executor -/

variable [Pydantic] {env : Environment} {a : Session}

/-- The program, run on a session, returns within `Q` if it returns. -/
abbrev Returns {α : Type} (env : Environment) (p : Py α) (Q : α → Session → Prop) (a : Session) :
    Prop :=
  Ends env (fun _ _ _ => True) p Q (fun _ _ => True) a

omit [Pydantic] in
theorem returns_raiseIf {condition : Prop} [Decidable condition] {e : PyExc}
    {Q : Unit → Session → Prop} (h : ¬ condition → Q () a) :
    Returns env (raiseIf condition e) Q a := by
  rw [raiseIf]
  by_cases hc : condition
  · rw [if_pos hc]
    trivial
  · rw [if_neg hc]
    exact h hc

theorem returns_toolOutput {summary : Text} {data : Dict Text Json}
    {refs : List (Option EvidenceReference)} {Q : ToolOutput → Session → Prop}
    (h : ∀ output : ToolOutput, output.data = data → Q output a) :
    Returns env (toolOutput summary data refs) Q a := by
  rw [toolOutput]
  split
  · trivial
  · split
    · exact h _ rfl
    · trivial

/-- What the tool returns is made of the rows of its query. -/
theorem returns_getPreviousResolutionsTool {validated : IncidentScopedListInput}
    {context : ToolContext} {Q : ToolOutput → Session → Prop}
    (h : ∀ current output b, a.db.incident? validated.incidentId.1 = some current →
      output.data = [(("resolutions" : Text), .arr ((a.db.previousResolutions
        validated.incidentId.1 current.classification validated.limit.1.toNat).map
          resolutionData))] → Q output b) :
    Returns env (getPreviousResolutionsTool validated context) Q a := by
  refine safe_bind.mpr (ends_withSession (safe_bind.mpr (safe_bind.mpr (ends_select ?_
    fun _ _ => trivial))))
  cases hcurrent : a.db.eval (.incident validated.incidentId.1) with
  | none => trivial
  | some current =>
      refine safe_ret.mpr (ends_select ?_ fun _ _ => trivial)
      exact returns_toolOutput fun output hdata => h current output _ hcurrent hdata

/-- The end of the executor: the data of the output is sanitized. -/
theorem returns_result {name : Text} {output : ToolOutput} {started : Rat}
    {Q : ToolResult → Session → Prop}
    (h : ∀ result b, result.data = sanitizeDict output.data → Q result b) :
    Returns env (do
      let elapsed ← perfCounterSince started
      raiseIf (maxToolResultBytes < (ToolExecutor.outputJson output).utf8Length)
        ⟨.toolExecutionError, "Tool result exceeds the size limit"⟩
      answer (ToolExecutor.toolResult name output (elapsed * 1000))) Q a := by
  generalize (ToolExecutor.outputJson output).utf8Length = size
  refine safe_bind.mpr (safe_map.mpr (ends_issue fun elapsed b _ _ => ?_))
  refine safe_bind.mpr (returns_raiseIf fun _ => ?_)
  exact safe_answer.mpr ⟨fun result hresult => h result b (toolResult_data hresult),
    fun _ _ => trivial⟩

/-- **A run of the executor** for the tool that succeeds. -/
theorem returns_execute {maxToolCalls : Nat} {request : ToolRequest} {context : ToolContext}
    {currentToolCalls : Nat} (hname : request.toolName.1 = "get_previous_resolutions") :
    Returns env (ToolExecutor.execute maxToolCalls request context currentToolCalls)
      (fun result _ => ∃ validated current,
        IncidentScopedListInput.ofJson (.obj request.arguments) = some validated ∧
        validated.incidentId.1 = context.incidentId ∧
        a.db.incident? context.incidentId = some current ∧
        result.data = sanitizeDict [(("resolutions" : Text), .arr ((a.db.previousResolutions
          context.incidentId current.classification validated.limit.1.toNat).map
            resolutionData))]) a := by
  refine safe_bind.mpr (returns_raiseIf fun _ => safe_bind.mpr (returns_raiseIf fun _ => ?_))
  rw [hname]
  change Returns env (ToolExecutor.runTool ⟨"get_previous_resolutions", IncidentScopedListInput,
    IncidentScopedListInput.ofJson, fun i => some i.incidentId.1, getPreviousResolutionsTool⟩
      request context) _ a
  rw [ToolExecutor.runTool]
  dsimp only
  cases hvalid : IncidentScopedListInput.ofJson (.obj request.arguments) with
  | none => trivial
  | some validated =>
      refine safe_bind.mpr (returns_raiseIf fun hincident => ?_)
      have hid : validated.incidentId.1 = context.incidentId := not_not.mp hincident
      refine safe_bind.mpr (ends_issue fun started b _ hs => ?_)
      obtain ⟨-, rfl⟩ := hs
      refine safe_bind.mpr (safe_bind.mpr (ends_issue fun (timedOut : Bool) b' _ hs => ?_))
      obtain rfl : b' = b := hs
      refine safe_bind.mpr (returns_raiseIf fun _ => safe_tryCatch.mpr ?_)
      -- an exception of the tool is raised again, as itself or another one
      refine (returns_getPreviousResolutionsTool fun current output t hcurrent hdata => ?_).mono
        (fun _ _ h => h) fun e t _ => ?_
      · refine returns_result fun result b' hresult =>
          ⟨validated, current, rfl, hid, hid ▸ hcurrent, ?_⟩
        rw [hresult, hdata, hid]
      · split
        · trivial
        · trivial

/-- **When earlier resolutions are delivered**: exactly as long as the cited sources that are listed
hold nothing that would have to be kept. -/
theorem deliversResolutions_iff {W : Type} [DecidableEq W] {w : W} {s s' : World W}
    {maxToolCalls : Nat} {request : ToolRequest} {context : ToolContext} {currentToolCalls : Nat}
    {result : ToolResult} (hkeys : (s.db.resolutions.map (·.id)).Nodup)
    (hname : request.toolName.1 = "get_previous_resolutions")
    (hrun : Exec (alone env w)
      (ToolExecutor.execute maxToolCalls request context currentToolCalls) s (.ok result) s') :
    ∃ validated current, IncidentScopedListInput.ofJson (.obj request.arguments) = some validated ∧
      s.db.incident? context.incidentId = some current ∧
      (DeliversResolutions s.db current validated.limit.1.toNat result.data ↔
        ∀ row ∈ s.db.previousResolutions current.id current.classification
          validated.limit.1.toNat, CitedKept row) := by
  obtain ⟨validated, current, hvalid, -, hcurrent, hdata⟩ :=
    (Ends.of_exec hrun (returns_execute hname)).1 result rfl
  refine ⟨validated, current, hvalid, hcurrent, ?_⟩
  have hid : current.id = context.incidentId := by simpa using List.find?_some hcurrent
  have hlimit : validated.limit.1.toNat ≤ 50 := by
    have hten := validated.limit.2.2
    omega
  rw [hdata]
  exact hid ▸ delivers_rows_iff hlimit hkeys

end

/-! ## A citation -/

/-- A call of the tool for incident 1. -/
def listPrevious : ToolRequest :=
  ⟨⟨"get_previous_resolutions", by decide⟩, [("incident_id", .int 1)]⟩

/-- What the server adds to the call. -/
def listContext : ToolContext := ⟨1, 8, some "timeout_error", 8, []⟩

/-- A run of the call that succeeds. -/
theorem exists_listing {s : World Bool}
    (h : (calmly.run true (plainAnswer true) (ToolExecutor.execute 8 listPrevious listContext 0)
      s).any (fun r => r.1.toOption.isSome) = true) :
    ∃ result s', Exec (alone Environment.calm true)
      (ToolExecutor.execute 8 listPrevious listContext 0) s (.ok result) s' := by
  obtain ⟨⟨out, s'⟩, hrun, hok⟩ := (Option.any_eq_true _ _).mp h
  cases out with
  | error e => cases hok
  | ok result => exact ⟨result, s', alone_of_run hrun⟩

/-- Ten earlier resolutions that cite nothing. -/
theorem deliversResolutions_iff_listed : ∃ result s',
    Exec (alone Environment.calm true) (ToolExecutor.execute 8 listPrevious listContext 0)
      resolvedHistory (.ok result) s' ∧
    ∃ validated current,
      IncidentScopedListInput.ofJson (.obj listPrevious.arguments) = some validated ∧
      resolvedHistory.db.incident? 1 = some current ∧
      (DeliversResolutions resolvedHistory.db current validated.limit.1.toNat result.data ↔
        ∀ row ∈ resolvedHistory.db.previousResolutions current.id current.classification
          validated.limit.1.toNat, CitedKept row) := by
  obtain ⟨result, s', hrun⟩ := exists_listing (s := resolvedHistory) (by decide +kernel)
  exact ⟨result, s', hrun, deliversResolutions_iff (by decide) rfl hrun⟩

/-- A cited source as the workflow stores it. -/
def citation : Json := .obj [("source_id", .str "restart"), ("chunk_id", .int 7)]

/-- Incident 2 was resolved with a citation before incident 1 was reported. -/
def citedHistory : World Bool :=
  { World.blank with db := { (World.blank : World Bool).db with
      incidents := elevenIncidents
      resolutions := [{ earlierResolution 2 with
        citedSources := some [citation] }] } }

/-- **The sources that are listed have lost their identifiers.** -/
theorem citation_lost : ∃ result s',
    Exec (alone Environment.calm true) (ToolExecutor.execute 8 listPrevious listContext 0)
      citedHistory (.ok result) s' ∧
    ∀ current, citedHistory.db.incident? 1 = some current →
      ¬ DeliversResolutions citedHistory.db current 5 result.data := by
  obtain ⟨result, s', hrun⟩ := exists_listing (s := citedHistory) (by decide +kernel)
  refine ⟨result, s', hrun, fun current hcurrent hdelivers => ?_⟩
  obtain ⟨validated, current', hvalid, -, hcurrent', hdata⟩ :=
    (Ends.of_exec hrun (returns_execute rfl)).1 result rfl
  obtain rfl := Option.some.inj (hcurrent.symm.trans hcurrent')
  obtain rfl := Option.some.inj hvalid
  obtain rfl := Option.some.inj hcurrent
  rw [hdata] at hdelivers
  have hkept := (delivers_rows_iff (by decide) (by decide)).mp hdelivers
  obtain ⟨row, hrow⟩ : ∃ row, citedHistory.db.previousResolutions 1 .timeoutError 5 = [row] ∧
      row.1.citedSources = some [citation] := ⟨_, rfl, rfl⟩
  have hcited := hkept row (hrow.1 ▸ List.mem_singleton_self row) citation
    (hrow.2 ▸ List.mem_singleton_self citation)
  rcases hcited.2.2 _ List.mem_cons_self with hsensitive | hcut
  · exact absurd hsensitive (by decide)
  · have hother : sanitizeText "restart" ≠ "[depth-limited]" := by decide +kernel
    exact hother hcut

end SupportPlatform
