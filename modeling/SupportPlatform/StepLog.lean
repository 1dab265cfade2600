import SupportPlatform.AgentLoop
import SupportPlatform.Isolation

/-! # The step log

The steps of an execution, its counters and the content of the resolution, as tables.  A
`LogLaw` is a property of the log that the planning loop keeps on its own; `LogInv` says that
it holds of every execution, together with the numbering and the counters, and `LogGrows` what
may happen to the tables between two calls of a worker.  Most changes are `Quiet`, and a step
that is recorded with the next number keeps all of it.
-/
namespace SupportPlatform
open Program World ControlledAgentWorkflow

/-! ## What a resolution says -/

/-- The columns of a resolution that a final response fills in. -/
def Resolution.content (r : Resolution) :
    Option Float64 × Option (List Json) × Option (List Text) × Option (List Text) × Option Bool ×
      Option Bool × Option (List Json) :=
  (r.confidence, r.citedSources, r.toolsUsed, r.limitations, r.escalationRequired,
    r.humanReviewRecommended, r.retrievedContext)

theorem Resolution.content_unedited {l e cur : Resolution} (h : e.content = l.content) :
    (l.merge e cur).content = cur.content := by
  simp only [content, Prod.mk.injEq] at h
  obtain ⟨h₁, h₂, h₃, h₄, h₅, h₆, h₇⟩ := h
  simp only [content, merge, h₁, h₂, h₃, h₄, h₅, h₆, h₇, put_unedited]

theorem Resolution.content_edited {l e cur : Resolution} (h : cur.content = l.content) :
    (l.merge e cur).content = e.content := by
  simp only [content, Prod.mk.injEq] at h
  obtain ⟨h₁, h₂, h₃, h₄, h₅, h₆, h₇⟩ := h
  simp only [content, merge, h₁, h₂, h₃, h₄, h₅, h₆, h₇, put_current]

/-! ## Laws of the log -/

section
variable [Runtime] [Pydantic]

/-- **A law of the log**: what holds of the log of an execution for an incident (`Good`), and of
what a worker has in memory of it (`Holds`).  It holds of an empty log, it is restored from a
log, and it is kept by each way to record a step. -/
structure LogLaw where
  /-- The workflows that the law is about. -/
  Allows : ControlledAgentWorkflow → Prop
  grounded : Prop
  Good : Int → List AgentStep → Prop
  Holds : Int → LoopState → Prop
  nil : ∀ i, Good i []
  restored : ∀ i steps results, Good i steps → restoreResults steps = .ok results →
    Holds i (initialState steps results)
  frame : ∀ i st repairCount lastError, Holds i st →
    Holds i { st with repairCount := repairCount, lastError := lastError }
  tool : ∀ wf event x st decision request result, Allows wf →
    Holds event.incidentId st → ToolCall wf event grounded st decision request result →
      Good event.incidentId
        (st.steps ++ [toolStepRecord x (st.steps.length + 1) decision request result]) ∧
      Holds event.incidentId (LoopState.record st
        (toolStepRecord x (st.steps.length + 1) decision request result) result
        (signature request.toolName.1 (.obj request.arguments)))
  rejected : ∀ wf i x st decision request outcome, Allows wf →
    Holds i st → Rejection wf st outcome →
      Good i (st.steps ++
        [rejectedStepRecord x (st.steps.length + 1) decision request outcome]) ∧
      Holds i { st with steps := st.steps ++
        [rejectedStepRecord x (st.steps.length + 1) decision request outcome] }
  final : ∀ wf i x st decision final, Allows wf →
    Holds i st → FinalCall wf st final →
      Good i (st.steps ++ [finalStepRecord x (st.steps.length + 1) decision final
        (evidenceReferences st.results)])
  context : ∀ i st context, grounded → Holds i st → retrievedContext st.results = .ok context →
    ∀ item ∈ context, ∃ p : ChunkPair, IsChunk p item ∧ p.Named

variable (law : LogLaw)

/-- **The executions and their logs**: every log is numbered from one without a gap, belongs to
an execution, is counted by it, and obeys the law. -/
structure StepsInv (db : Database) : Prop where
  executionIds : (db.executions.map (·.executionId)).Nodup
  incidentIds : (db.executions.map (·.incidentId)).Nodup
  numbered : ∀ x, (db.stepsOf x).map (·.stepNumber) = List.range' 1 (db.stepsOf x).length
  unclaimed : ∀ x, db.execution? x = none → db.stepsOf x = []
  counted : ∀ x row, db.execution? x = some row → row.stepCount = (db.stepsOf x).length ∧
    row.toolCallCount = succeededSteps (db.stepsOf x)
  good : ∀ x row, db.execution? x = some row → law.Good row.incidentId (db.stepsOf x)

/-- **The resolutions**: each has its own identifier, and the stored contexts consist of chunks
when the law is grounded. -/
structure ResolutionsInv (grounded : Prop) (db : Database) : Prop where
  ids : (db.resolutions.map (·.id)).Nodup
  bounded : ∀ r ∈ db.resolutions, r.id ≤ db.resolutions.length
  context : grounded → ∀ r ∈ db.resolutions, ContextHolds r

/-- The resolution of an incident is the same one, with the same content. -/
def ContentKept (i : Int) (db db' : Database) : Prop := ∀ l, db.resolutionOf i = some l →
  ∃ l', db'.resolutionOf i = some l' ∧ l'.id = l.id ∧ l'.content = l.content

/-- **What a worker relies on**: logs only grow, executions keep their incident, and while a log
does not grow the content of the resolution stays. -/
structure LogGrows (db db' : Database) : Prop where
  logs : ∀ x, db.stepsOf x <+: db'.stepsOf x
  rows : ∀ x row, db.execution? x = some row →
    ∃ row', db'.execution? x = some row' ∧ row'.incidentId = row.incidentId
  content : ∀ x row, db.execution? x = some row → db'.stepsOf x = db.stepsOf x →
    ContentKept row.incidentId db db'

section
omit [Runtime] [Pydantic]

theorem ContentKept.refl (i : Int) (db : Database) : ContentKept i db db :=
  fun l hl => ⟨l, hl, rfl, rfl⟩

theorem ContentKept.trans {i : Int} {a b c : Database} (h : ContentKept i a b)
    (h' : ContentKept i b c) : ContentKept i a c := by
  intro l hl
  obtain ⟨l', hl', hid, hcontent⟩ := h l hl
  obtain ⟨l'', hl'', hid', hcontent'⟩ := h' l' hl'
  exact ⟨l'', hl'', hid'.trans hid, hcontent'.trans hcontent⟩

theorem LogGrows.refl (db : Database) : LogGrows db db :=
  ⟨fun _ => List.prefix_rfl, fun _ row h => ⟨row, h, rfl⟩, fun _ _ _ _ => .refl _ _⟩

theorem LogGrows.trans {a b c : Database} (h : LogGrows a b) (h' : LogGrows b c) :
    LogGrows a c := by
  refine ⟨fun x => (h.logs x).trans (h'.logs x), fun x row hrow => ?_, fun x row hrow hsame => ?_⟩
  · obtain ⟨row', hrow', hi⟩ := h.rows x row hrow
    obtain ⟨row'', hrow'', hi'⟩ := h'.rows x row' hrow'
    exact ⟨row'', hrow'', hi'.trans hi⟩
  · -- a log between two equal ones is the same
    have hlen := (h.logs x).length_le
    have hlen' := (h'.logs x).length_le
    rw [hsame] at hlen'
    have hmid : b.stepsOf x = a.stepsOf x := ((h.logs x).eq_of_length_le hlen').symm
    obtain ⟨row', hrow', hi⟩ := h.rows x row hrow
    exact (h.content x row hrow hmid).trans
      (hi ▸ h'.content x row' hrow' (hsame.trans hmid.symm))

end

/-! ## Changes that record no step -/

/-- The change records no step: it leaves the counters and the contents alone. -/
def Change.Quiet : Change → Prop
  | .insertStep _ => False
  | .insertExecution r => r.stepCount = 0 ∧ r.toolCallCount = 0
  | .updateExecution l e => e.incidentId = l.incidentId ∧ e.stepCount = l.stepCount ∧
      e.toolCallCount = l.toolCallCount
  | .insertResolution r => r.retrievedContext = none
  | .updateResolution l e => e.incidentId = l.incidentId ∧ e.content = l.content
  | _ => True

namespace Database
variable {db : Database} {x : Uuid}

section
omit [Runtime] [Pydantic]

/-- The rows under an identifier after an update of the executions. -/
theorem execution?_apply_update (l e : Execution) (x : Uuid) :
    (db.apply (.updateExecution l e)).execution? x =
      (db.execution? x).map fun row => if row.executionId = l.executionId then l.merge e row
        else row := by
  have hkey : ((fun row : Execution => decide (row.executionId = x)) ∘
      fun row => if row.executionId = l.executionId then l.merge e row else row) =
        fun row => decide (row.executionId = x) := by
    funext row
    simp only [Function.comp_apply]
    split <;> rfl
  rw [execution?, apply, List.find?_map, hkey]
  rfl

theorem ids_update (l e : Execution) :
    (db.apply (.updateExecution l e)).executions.map (·.executionId) =
      db.executions.map (·.executionId) := by
  rw [apply, List.map_map]
  refine List.map_congr_left fun row _ => ?_
  simp only [Function.comp_apply]
  split <;> rfl

theorem incidentIds_update {l e : Execution} (h : e.incidentId = l.incidentId) :
    (db.apply (.updateExecution l e)).executions.map (·.incidentId) =
      db.executions.map (·.incidentId) := by
  rw [apply, List.map_map]
  refine List.map_congr_left fun row _ => ?_
  simp only [Function.comp_apply]
  split
  · rw [Execution.merge, h, put_unedited]
  · rfl

theorem execution?_id {row : Execution} (h : db.execution? x = some row) :
    row.executionId = x := by
  simpa using List.find?_some h

/-- The log of an execution after a step was inserted. -/
theorem stepsOf_insert (r : AgentStep) (x : Uuid) :
    (db.apply (.insertStep r)).stepsOf x =
      db.stepsOf x ++ if r.executionId = x then [r] else [] := by
  rw [stepsOf, apply, List.filter_append, List.filter_cons, List.filter_nil]
  by_cases h : r.executionId = x <;> simp [h, stepsOf]

/-- A new execution is found under its identifier. -/
theorem execution?_insert (r : Execution) (x : Uuid) :
    (db.apply (.insertExecution r)).execution? x =
      (db.execution? x).or (if r.executionId = x then some r else none) := by
  rw [execution?, apply, List.find?_append]
  by_cases h : r.executionId = x <;> simp [h, execution?]

theorem admits_execution {r : Execution} (h : db.admits (.insertExecution r) = true) :
    db.execution? r.executionId = none ∧ r.executionId ∉ db.executions.map (·.executionId) ∧
      r.incidentId ∉ db.executions.map (·.incidentId) := by
  have hall : ∀ row ∈ db.executions, row.executionId ≠ r.executionId ∧
      row.incidentId ≠ r.incidentId ∧ row.eventId ≠ r.eventId :=
    fun row hrow => of_decide_eq_true (List.all_eq_true.mp h row hrow)
  refine ⟨List.find?_eq_none.mpr fun row hrow => by simp [(hall row hrow).1], fun hmem => ?_,
    fun hmem => ?_⟩
  · obtain ⟨row, hrow, hid⟩ := List.mem_map.mp hmem
    exact (hall row hrow).1 hid
  · obtain ⟨row, hrow, hid⟩ := List.mem_map.mp hmem
    exact (hall row hrow).2.1 hid

end

end Database

variable {law}

theorem StepsInv.congr {db db' : Database} (h : StepsInv law db)
    (he : db'.executions = db.executions) (hs : db'.steps = db.steps) : StepsInv law db' := by
  have hof : ∀ x, db'.stepsOf x = db.stepsOf x := fun x => by
    rw [Database.stepsOf, hs, Database.stepsOf]
  have hrow : ∀ x, db'.execution? x = db.execution? x := fun x => by
    rw [Database.execution?, he, Database.execution?]
  refine ⟨he ▸ h.executionIds, he ▸ h.incidentIds, fun x => ?_, fun x hx => ?_, fun x row hx => ?_,
    fun x row hx => ?_⟩
  · rw [hof]
    exact h.numbered x
  · rw [hof]
    exact h.unclaimed x (hrow x ▸ hx)
  · rw [hof]
    exact h.counted x row (hrow x ▸ hx)
  · rw [hof]
    exact h.good x row (hrow x ▸ hx)

theorem StepsInv.insertExecution {db : Database} (h : StepsInv law db) {r : Execution}
    (hr : r.stepCount = 0 ∧ r.toolCallCount = 0)
    (hadmits : db.admits (.insertExecution r) = true) :
    StepsInv law (db.apply (.insertExecution r)) := by
  obtain ⟨hfresh, hid, hincident⟩ := Database.admits_execution hadmits
  have hnew : ∀ x row, (db.apply (.insertExecution r)).execution? x = some row →
      db.execution? x = some row ∨ x = r.executionId ∧ row = r := by
    intro x row hx
    rw [Database.execution?_insert] at hx
    rcases Option.or_eq_some_iff.mp hx with hx | ⟨-, hx⟩
    · exact .inl hx
    · split at hx
      · rename_i hxr
        exact .inr ⟨hxr.symm, (Option.some.inj hx).symm⟩
      · cases hx
  have hempty : db.stepsOf r.executionId = [] := h.unclaimed _ hfresh
  refine ⟨?_, ?_, h.numbered, fun x hx => ?_, fun x row hx => ?_, fun x row hx => ?_⟩
  · rw [Database.apply, List.map_append]
    exact List.nodup_append.mpr ⟨h.executionIds, List.nodup_singleton _, fun a ha b hb hab =>
      hid ((show a = r.executionId from hab.trans (List.mem_singleton.mp hb)) ▸ ha)⟩
  · rw [Database.apply, List.map_append]
    exact List.nodup_append.mpr ⟨h.incidentIds, List.nodup_singleton _, fun a ha b hb hab =>
      hincident ((show a = r.incidentId from hab.trans (List.mem_singleton.mp hb)) ▸ ha)⟩
  · rw [Database.execution?_insert, Option.or_eq_none_iff] at hx
    exact h.unclaimed x hx.1
  · rcases hnew x row hx with hx | ⟨rfl, rfl⟩
    · exact h.counted x row hx
    · show row.stepCount = (db.stepsOf row.executionId).length ∧ _ =
        succeededSteps (db.stepsOf row.executionId)
      rw [hempty]
      exact hr
  · rcases hnew x row hx with hx | ⟨rfl, rfl⟩
    · exact h.good x row hx
    · show law.Good row.incidentId (db.stepsOf row.executionId)
      rw [hempty]
      exact law.nil _

theorem StepsInv.updateExecution {db : Database} (h : StepsInv law db) {l e : Execution}
    (hi : e.incidentId = l.incidentId) (hs : e.stepCount = l.stepCount)
    (ht : e.toolCallCount = l.toolCallCount) :
    StepsInv law (db.apply (.updateExecution l e)) := by
  have hold : ∀ x row, (db.apply (.updateExecution l e)).execution? x = some row →
      ∃ old, db.execution? x = some old ∧ row.incidentId = old.incidentId ∧
        row.stepCount = old.stepCount ∧ row.toolCallCount = old.toolCallCount := by
    intro x row hx
    rw [Database.execution?_apply_update] at hx
    obtain ⟨old, hold, rfl⟩ := Option.map_eq_some_iff.mp hx
    refine ⟨old, hold, ?_⟩
    split
    · simp only [Execution.merge, hi, hs, ht, put_unedited, and_self]
    · exact ⟨rfl, rfl, rfl⟩
  refine ⟨?_, ?_, h.numbered, fun x hx => ?_, fun x row hx => ?_, fun x row hx => ?_⟩
  · rw [Database.ids_update]
    exact h.executionIds
  · rw [Database.incidentIds_update hi]
    exact h.incidentIds
  · rw [Database.execution?_apply_update, Option.map_eq_none_iff] at hx
    exact h.unclaimed x hx
  · obtain ⟨old, hold, -, hcount, hcalls⟩ := hold x row hx
    rw [hcount, hcalls]
    exact h.counted x old hold
  · obtain ⟨old, hold, hincident, -⟩ := hold x row hx
    rw [hincident]
    exact h.good x old hold

namespace Database

omit [Runtime] [Pydantic] in
/-- An update that leaves the incident of a resolution alone. -/
theorem resolutionOf_update {db : Database} {l e : Resolution} (h : e.incidentId = l.incidentId)
    (i : Int) :
    (db.apply (.updateResolution l e)).resolutionOf i =
      (db.resolutionOf i).map fun t => if t.id = l.id then l.merge e t else t := by
  have hkey : ((fun t : Resolution => decide (t.incidentId = i)) ∘
      fun t => if t.id = l.id then l.merge e t else t) = fun t => decide (t.incidentId = i) := by
    funext t
    by_cases ht : t.id = l.id
    · simp only [Function.comp_apply, if_pos ht, Resolution.merge, h, put_unedited]
    · simp only [Function.comp_apply, if_neg ht]
  rw [resolutionOf, apply, List.find?_map, hkey]
  rfl

omit [Runtime] [Pydantic] in
theorem resolutionIds_update {db : Database} (l e : Resolution) :
    (db.apply (.updateResolution l e)).resolutions.map (·.id) = db.resolutions.map (·.id) := by
  rw [apply, List.map_map]
  refine List.map_congr_left fun t _ => ?_
  simp only [Function.comp_apply]
  split <;> rfl

end Database

section
omit [Runtime] [Pydantic]

theorem ContextHolds.merge {l e cur : Resolution} (hcur : ContextHolds cur)
    (he : e.retrievedContext = l.retrievedContext ∨ ContextHolds e) :
    ContextHolds (l.merge e cur) := by
  have hmerge : (l.merge e cur).retrievedContext =
      put l.retrievedContext e.retrievedContext cur.retrievedContext := rfl
  unfold ContextHolds
  rw [hmerge]
  rcases put_eq_or l.retrievedContext e.retrievedContext cur.retrievedContext with h | ⟨hne, h⟩
  · rw [h]
    exact hcur
  · rw [h]
    exact he.resolve_left hne

theorem ResolutionsInv.update {grounded : Prop} {db : Database} (h : ResolutionsInv grounded db)
    {l e : Resolution}
    (he : grounded → e.retrievedContext = l.retrievedContext ∨ ContextHolds e) :
    ResolutionsInv grounded (db.apply (.updateResolution l e)) := by
  have hmem : ∀ t ∈ (db.apply (.updateResolution l e)).resolutions, ∃ old ∈ db.resolutions,
      t = if old.id = l.id then l.merge e old else old := by
    intro t ht
    obtain ⟨old, hold, rfl⟩ := List.mem_map.mp ht
    exact ⟨old, hold, rfl⟩
  refine ⟨?_, fun t ht => ?_, fun hg t ht => ?_⟩
  · rw [Database.resolutionIds_update]
    exact h.ids
  · obtain ⟨old, hold, rfl⟩ := hmem t ht
    have hlen : (db.apply (.updateResolution l e)).resolutions.length = db.resolutions.length :=
      List.length_map _
    rw [hlen]
    split <;> exact h.bounded old hold
  · obtain ⟨old, hold, rfl⟩ := hmem t ht
    split
    · exact (h.context hg old hold).merge (he hg)
    · exact h.context hg old hold

theorem ResolutionsInv.insert {grounded : Prop} {db : Database} (h : ResolutionsInv grounded db)
    {r : Resolution} (hr : r.retrievedContext = none) :
    ResolutionsInv grounded (db.apply (.insertResolution r)) := by
  refine ⟨?_, fun t ht => ?_, fun hg t ht => ?_⟩
  · rw [Database.apply, List.map_append]
    refine List.nodup_append.mpr ⟨h.ids, List.nodup_singleton _, fun a ha b hb hab => ?_⟩
    obtain ⟨old, hold, rfl⟩ := List.mem_map.mp ha
    have hid : old.id = db.resolutions.length + 1 := hab.trans (List.mem_singleton.mp hb)
    have := h.bounded old hold
    omega
  · have hlen : (db.apply (.insertResolution r)).resolutions.length = db.resolutions.length + 1 :=
      List.length_append
    rw [hlen]
    rcases List.mem_append.mp ht with ht | ht
    · have := h.bounded t ht
      push_cast
      omega
    · rw [List.mem_singleton.mp ht]
      push_cast
      exact le_rfl
  · rcases List.mem_append.mp ht with ht | ht
    · exact h.context hg t ht
    · rw [List.mem_singleton.mp ht, ContextHolds]
      show ∀ item ∈ r.retrievedContext.getD [], _
      rw [hr]
      exact List.forall_mem_nil _

end

/-- **The tables of the executions** obey the law. -/
structure LogInv (law : LogLaw) (db : Database) : Prop where
  steps : StepsInv law db
  resolutions : ResolutionsInv law.grounded db

omit [Runtime] [Pydantic] in
/-- Logs that are the same have grown. -/
theorem LogGrows.of_same {db db' : Database} (hs : db'.steps = db.steps)
    (hrows : ∀ x row, db.execution? x = some row →
      ∃ row', db'.execution? x = some row' ∧ row'.incidentId = row.incidentId)
    (hcontent : ∀ i, ContentKept i db db') : LogGrows db db' := by
  refine ⟨fun x => ?_, hrows, fun _ row _ _ => hcontent row.incidentId⟩
  have hsame : db'.stepsOf x = db.stepsOf x := congrArg (List.filter _) hs
  exact hsame ▸ List.prefix_rfl

/-- **A quiet change** keeps the law and lengthens no log. -/
theorem quiet_apply {db : Database} (h : LogInv law db) {c : Change} (hc : c.Quiet)
    (hadmits : db.admits c = true) :
    LogInv law (db.apply c) ∧ LogGrows db (db.apply c) := by
  have hsame : ∀ x row, db.execution? x = some row → ∃ row', db.execution? x = some row' ∧
      row'.incidentId = row.incidentId := fun x row hx => ⟨row, hx, rfl⟩
  cases c with
  | insertStep r => exact hc.elim
  | insertExecution r =>
      refine ⟨⟨h.steps.insertExecution hc hadmits, ⟨h.resolutions.ids, h.resolutions.bounded,
        h.resolutions.context⟩⟩, .of_same rfl (fun x row hx => ⟨row, ?_, rfl⟩)
          fun i => .refl i _⟩
      rw [Database.execution?_insert, hx, Option.some_or]
  | updateExecution l e =>
      refine ⟨⟨h.steps.updateExecution hc.1 hc.2.1 hc.2.2, ⟨h.resolutions.ids,
        h.resolutions.bounded, h.resolutions.context⟩⟩, .of_same rfl (fun x row hx => ?_)
          fun i => .refl i _⟩
      rw [Database.execution?_apply_update, hx]
      refine ⟨_, rfl, ?_⟩
      dsimp only
      split
      · rw [Execution.merge, hc.1, put_unedited]
      · rfl
  | insertResolution r =>
      refine ⟨⟨h.steps.congr rfl rfl, h.resolutions.insert hc⟩, .of_same rfl hsame
        fun i l hl => ⟨l, ?_, rfl, rfl⟩⟩
      have hfind : db.resolutions.find? (fun t => t.incidentId = i) = some l := hl
      rw [Database.resolutionOf, Database.apply, List.find?_append, hfind, Option.some_or]
  | updateResolution l e =>
      have hcontext : e.retrievedContext = l.retrievedContext := by
        have := hc.2
        simp only [Resolution.content, Prod.mk.injEq] at this
        exact this.2.2.2.2.2.2
      refine ⟨⟨h.steps.congr rfl rfl, h.resolutions.update fun _ => .inl hcontext⟩,
        .of_same rfl hsame fun i t ht => ?_⟩
      rw [Database.resolutionOf_update hc.1, ht]
      refine ⟨_, rfl, ?_⟩
      dsimp only
      split
      · exact ⟨rfl, Resolution.content_unedited hc.2⟩
      · exact ⟨rfl, rfl⟩
  | _ =>
      exact ⟨⟨h.steps.congr rfl rfl, ⟨h.resolutions.ids, h.resolutions.bounded,
        h.resolutions.context⟩⟩, .of_same rfl hsame fun i => .refl i _⟩

/-- **Quiet transactions** keep the law and lengthen no log. -/
theorem quiet_applyAll {db : Database} (h : LogInv law db) {cs : List Change}
    (hcs : ∀ c ∈ cs, c.Quiet) (hadmits : db.admitsAll cs = true) :
    LogInv law (db.applyAll cs) ∧ LogGrows db (db.applyAll cs) ∧
      (db.applyAll cs).steps = db.steps := by
  induction cs generalizing db with
  | nil => exact ⟨h, .refl db, rfl⟩
  | cons c cs ih =>
      rw [Database.admitsAll, Bool.and_eq_true] at hadmits
      have hquiet := hcs c List.mem_cons_self
      obtain ⟨hc, hgrows⟩ := quiet_apply h hquiet hadmits.1
      obtain ⟨hrest, hgrows', hsteps⟩ := ih hc (fun d hd => hcs d (List.mem_cons_of_mem c hd)) hadmits.2
      refine ⟨hrest, hgrows.trans hgrows', hsteps.trans ?_⟩
      cases c <;> first | rfl | exact hquiet.elim

/-! ## Transactions that record a step -/

/-- What a recorded step adds to the count of tool calls. -/
def AgentStep.calls (r : AgentStep) : Nat := if r.outcome = .succeeded then 1 else 0

section
omit [Pydantic]

theorem toolStepRecord_calls (x : Uuid) (n : Nat) (decision : PlannerDecision)
    (request : ToolRequest) (result : ToolResult) :
    (toolStepRecord x n decision request result).calls = 1 := if_pos rfl

theorem rejectedStepRecord_calls (x : Uuid) (n : Nat) (decision : PlannerDecision)
    (request : Option ToolRequest) {outcome : StepOutcome} (h : outcome ≠ .succeeded) :
    (rejectedStepRecord x n decision request outcome).calls = 0 := if_neg h

theorem finalStepRecord_calls (x : Uuid) (n : Nat) (decision : PlannerDecision)
    (final : AgentFinalResponse) (references : List EvidenceReference) :
    (finalStepRecord x n decision final references).calls = 0 :=
  if_neg (show StepOutcome.completed ≠ .succeeded by decide)

end

omit [Runtime] [Pydantic] in
theorem succeededSteps_concat (steps : List AgentStep) (r : AgentStep) :
    succeededSteps (steps ++ [r]) = succeededSteps steps + r.calls := by
  rw [succeededSteps, List.filter_append, List.length_append, succeededSteps, AgentStep.calls]
  by_cases h : r.outcome = .succeeded <;> simp [h]

/-- **A step with the next number**, and the execution that counts it, keep the law. -/
theorem StepsInv.record {db : Database} (h : StepsInv law db) {r : AgentStep}
    {l e cur : Execution} (hcur : db.execution? r.executionId = some cur)
    (hnumber : r.stepNumber = (db.stepsOf r.executionId).length + 1)
    (hgood : law.Good cur.incidentId (db.stepsOf r.executionId ++ [r]))
    (hl : l.executionId = r.executionId) (hincident : e.incidentId = l.incidentId)
    (hcount : (l.merge e cur).stepCount = r.stepNumber)
    (hcalls : (l.merge e cur).toolCallCount = cur.toolCallCount + r.calls) :
    StepsInv law ((db.apply (.insertStep r)).apply (.updateExecution l e)) := by
  have hof : ∀ x, ((db.apply (.insertStep r)).apply (.updateExecution l e)).stepsOf x =
      db.stepsOf x ++ if r.executionId = x then [r] else [] := Database.stepsOf_insert r
  have hrow : ∀ x row, ((db.apply (.insertStep r)).apply (.updateExecution l e)).execution? x =
      some row → (x = r.executionId ∧ row = l.merge e cur) ∨
        (x ≠ r.executionId ∧ db.execution? x = some row) := by
    intro x row hx
    rw [Database.execution?_apply_update] at hx
    obtain ⟨old, hold, rfl⟩ := Option.map_eq_some_iff.mp hx
    have hold' : db.execution? x = some old := hold
    have hid := Database.execution?_id hold'
    by_cases hxr : x = r.executionId
    · subst hxr
      obtain rfl := Option.some.inj (hold'.symm.trans hcur)
      exact .inl ⟨rfl, if_pos (hid.trans hl.symm)⟩
    · refine .inr ⟨hxr, ?_⟩
      rw [if_neg (fun heq => hxr (hid.symm.trans (heq.trans hl))), hold']
  have hkept : (l.merge e cur).incidentId = cur.incidentId := by
    rw [Execution.merge, hincident, put_unedited]
  refine ⟨?_, ?_, fun x => ?_, fun x hx => ?_, fun x row hx => ?_, fun x row hx => ?_⟩
  · rw [Database.ids_update]
    exact h.executionIds
  · rw [Database.incidentIds_update hincident]
    exact h.incidentIds
  · rw [hof]
    split
    · rename_i hxr
      subst hxr
      rw [List.map_append, h.numbered, List.length_append, List.length_singleton,
        List.range'_1_concat, List.map_singleton, hnumber, Nat.add_comm 1]
    · rw [List.append_nil]
      exact h.numbered x
  · rw [Database.execution?_apply_update, Option.map_eq_none_iff] at hx
    have hx' : db.execution? x = none := hx
    have hne : r.executionId ≠ x := fun heq => by
      rw [heq, hx'] at hcur
      cases hcur
    rw [hof, if_neg hne, List.append_nil]
    exact h.unclaimed x hx'
  · rw [hof]
    rcases hrow x row hx with ⟨rfl, rfl⟩ | ⟨hne, hx⟩
    · rw [if_pos rfl, succeededSteps_concat, List.length_append, List.length_singleton, hcount,
        hcalls, (h.counted _ cur hcur).2]
      exact ⟨hnumber, rfl⟩
    · rw [if_neg (Ne.symm hne), List.append_nil]
      exact h.counted x row hx
  · rw [hof]
    rcases hrow x row hx with ⟨rfl, rfl⟩ | ⟨hne, hx⟩
    · rw [if_pos rfl, hkept]
      exact hgood
    · rw [if_neg (Ne.symm hne), List.append_nil]
      exact h.good x row hx

/-- A log that gets a step has grown, and others keep the contents of their resolutions. -/
theorem LogGrows.of_record {db db' : Database} (h : StepsInv law db) {r : AgentStep}
    {cur : Execution} (hcur : db.execution? r.executionId = some cur)
    (hs : db'.steps = db.steps ++ [r])
    (hrows : ∀ x row, db.execution? x = some row →
      ∃ row', db'.execution? x = some row' ∧ row'.incidentId = row.incidentId)
    (hcontent : ∀ i, i ≠ cur.incidentId → ContentKept i db db') : LogGrows db db' := by
  have hof : ∀ x, db'.stepsOf x = db.stepsOf x ++ if r.executionId = x then [r] else [] := by
    intro x
    rw [← Database.stepsOf_insert, Database.stepsOf, Database.stepsOf, hs, Database.apply]
  refine ⟨fun x => hof x ▸ List.prefix_append _ _, hrows, fun x row hrow hsame => ?_⟩
  have hne : r.executionId ≠ x := by
    intro heq
    have hlen := congrArg List.length hsame
    rw [hof, if_pos heq, List.length_append, List.length_singleton] at hlen
    omega
  refine hcontent _ fun hi => hne ?_
  -- two executions of one incident are the same
  have hrow' := List.mem_of_find?_eq_some hrow
  have hcur' := List.mem_of_find?_eq_some hcur
  have heq := List.inj_on_of_nodup_map h.incidentIds hrow' hcur' hi
  subst heq
  exact (Database.execution?_id hcur).symm.trans (Database.execution?_id hrow)

end

end SupportPlatform

