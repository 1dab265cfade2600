import SupportPlatform.Lockstep
import SupportPlatform.ReferenceCodec
import SupportPlatform.Replay
import SupportPlatform.WorkflowCalls

/-! # Incident logs do not reach the agent

An incident is loaded as a whole row, its log included, by three of the statements that the
workflow issues: to claim an execution, and for the tools that read incidents.  None of
what follows depends on the log.  So two databases that differ in logs only cannot be told
apart by the calls of the workflow (`resolve_alike`), and its runs on them go in lockstep:
the same prompts, the same steps and the same resolutions, whatever the model answers, and
however often attempts crash and are made again.
-/
namespace SupportPlatform
open Program ControlledAgentWorkflow

/-! ## Without the logs -/

/-- The row without its log. -/
def Incident.withoutLog (i : Incident) : Incident := { i with log := [] }

/-- The tables without the logs. -/
def Database.withoutLogs (db : Database) : Database :=
  { db with incidents := db.incidents.map Incident.withoutLog }

/-- The state without the logs. -/
def World.withoutLogs {W : Type} (s : World W) : World W := { s with db := s.db.withoutLogs }

/-- What a SELECT returns, without the logs. -/
def Query.withoutLogs : (q : Query) → q.Result → q.Result
  | .incident _ => fun (row : Option Incident) => row.map Incident.withoutLog
  | .recentIncidents _ => fun (rows : List Incident) => rows.map Incident.withoutLog
  | .previousResolutions _ _ _ => fun (rows : List (Resolution × Incident)) =>
      rows.map (Prod.map id Incident.withoutLog)
  | _ => id

/-- An answer without the logs. -/
def answerWithoutLogs : (o : Op) → Resp o → Resp o
  | .select q => fun (r : Except PyExc q.Result) => r.map q.withoutLogs
  | _ => id

/-- The answers differ in logs only. -/
def SameButLogs (o : Op) (r r' : Resp o) : Prop := answerWithoutLogs o r = answerWithoutLogs o r'

namespace Incident

@[simp] theorem withoutLog_withoutLog (i : Incident) : i.withoutLog.withoutLog = i.withoutLog := rfl

/-- Rows that differ in their log. -/
theorem exists_log {i j : Incident} (h : i.withoutLog = j.withoutLog) :
    ∃ log, j = { i with log := log } := by
  rcases i with ⟨_, _, _, _, _, _, _, _, _, _⟩
  rcases j with ⟨_, _, _, log, _, _, _, _, _, _⟩
  simp only [withoutLog, Incident.mk.injEq] at h
  obtain ⟨rfl, rfl, rfl, -, rfl, rfl, rfl, rfl, rfl, rfl⟩ := h
  exact ⟨log, rfl⟩

end Incident

/-- Sorting what an order cannot tell apart. -/
theorem insertionSort_map {α β : Type} {r : α → α → Prop} {s : β → β → Prop} [DecidableRel r]
    [DecidableRel s] (f : α → β) (l : List α) (h : ∀ a b, r a b ↔ s (f a) (f b)) :
    (l.map f).insertionSort s = (l.insertionSort r).map f :=
  (List.map_insertionSort r s f l fun a _ b _ => h a b).symm

namespace Database
variable {db db' : Database}

theorem recentIncidents_withoutLogs (db : Database) (excluded : Int) :
    db.withoutLogs.recentIncidents excluded =
      (db.recentIncidents excluded).map Incident.withoutLog := by
  unfold recentIncidents
  rw [List.map_take]
  refine congrArg (List.take 100) ?_
  simp only [withoutLogs, List.filter_map]
  exact insertionSort_map _ _ fun _ _ => Iff.rfl

theorem previousResolutions_withoutLogs (db : Database) (incidentId : Int)
    (classification : IncidentClassification) (limit : Nat) :
    db.withoutLogs.previousResolutions incidentId classification limit =
      (db.previousResolutions incidentId classification limit).map
        (Prod.map id Incident.withoutLog) := by
  unfold previousResolutions
  dsimp only
  rw [List.map_take]
  refine congrArg (List.take limit) ?_
  refine Eq.trans (congrArg (List.insertionSort _) ?_)
    (insertionSort_map (Prod.map id Incident.withoutLog) _ fun _ _ => Iff.rfl)
  simp only [withoutLogs, List.filter_map, List.map_map, List.map_flatMap]
  rfl

/-- **Reading without the logs** is reading, without the logs. -/
theorem eval_withoutLogs (db : Database) (q : Query) :
    db.withoutLogs.eval q = q.withoutLogs (db.eval q) := by
  cases q with
  | incident id => exact List.find?_map
  | recentIncidents excluded => exact db.recentIncidents_withoutLogs excluded
  | previousResolutions incidentId classification limit =>
      exact db.previousResolutions_withoutLogs incidentId classification limit
  | _ => rfl

/-- Tables that differ in logs. -/
theorem exists_incidents (h : db.withoutLogs = db'.withoutLogs) :
    ∃ rows, db' = { db with incidents := rows } ∧
      db.incidents.map Incident.withoutLog = rows.map Incident.withoutLog := by
  rcases db with ⟨_, _, _, _, _, _, _⟩
  rcases db' with ⟨rows, _, _, _, _, _, _⟩
  simp only [withoutLogs, Database.mk.injEq] at h
  obtain ⟨hrows, rfl, rfl, rfl, rfl, rfl, rfl⟩ := h
  exact ⟨rows, rfl, hrows⟩

theorem admits_congr (h : db.withoutLogs = db'.withoutLogs) (c : Change) :
    db.admits c = db'.admits c := by
  obtain ⟨rows, rfl, hrows⟩ := exists_incidents h
  cases c with
  | insertIncident r =>
      have hall := congrArg (fun l : List Incident => l.all fun i => decide (i.id ≠ r.id)) hrows
      simp only [List.all_map] at hall
      exact hall
  | _ => rfl

theorem apply_congr (h : db.withoutLogs = db'.withoutLogs) (c : Change) :
    (db.apply c).withoutLogs = (db'.apply c).withoutLogs := by
  obtain ⟨rows, rfl, hrows⟩ := exists_incidents h
  cases c <;> simp [apply, withoutLogs, hrows]

theorem applyAll_congr (cs : List Change) : ∀ {db db' : Database},
    db.withoutLogs = db'.withoutLogs →
      (db.applyAll cs).withoutLogs = (db'.applyAll cs).withoutLogs := by
  induction cs with
  | nil => exact fun h => h
  | cons c cs ih => exact fun h => ih (apply_congr h c)

theorem admitsAll_congr (cs : List Change) : ∀ {db db' : Database},
    db.withoutLogs = db'.withoutLogs → db.admitsAll cs = db'.admitsAll cs := by
  induction cs with
  | nil => exact fun _ => rfl
  | cons c cs ih =>
      intro db db' h
      rw [admitsAll, admitsAll, admits_congr h c, ih (apply_congr h c)]

end Database

/-! ## States that differ in logs -/

section
variable {W : Type} [DecidableEq W] {w : W} {env : Environment} {s t : World W}

section
omit [DecidableEq W]

theorem World.exists_db (h : s.withoutLogs = t.withoutLogs) :
    ∃ db, t = { s with db := db } ∧ s.db.withoutLogs = db.withoutLogs := by
  rcases s with ⟨_, _, _, _, _, _, _, _⟩
  rcases t with ⟨db, _, _, _, _, _, _, _⟩
  simp only [World.withoutLogs, World.mk.injEq] at h
  obtain ⟨hdb, rfl, rfl, rfl, rfl, rfl, rfl, rfl⟩ := h
  exact ⟨db, rfl, hdb⟩

/-- States that differ in logs have the same steps, resolutions and executions. -/
theorem World.tables_eq (h : s.withoutLogs = t.withoutLogs) :
    s.db.steps = t.db.steps ∧ s.db.resolutions = t.db.resolutions ∧
      s.db.executions = t.db.executions := by
  obtain ⟨db, rfl, hdb⟩ := World.exists_db h
  obtain ⟨rows, rfl, -⟩ := Database.exists_incidents hdb
  exact ⟨rfl, rfl, rfl⟩

theorem accepts_congr (h : s.withoutLogs = t.withoutLogs) (cs : List Change) :
    Environment.Accepts s w cs ↔ Environment.Accepts t w cs := by
  obtain ⟨db, rfl, hdb⟩ := World.exists_db h
  unfold Environment.Accepts
  rw [Database.admitsAll_congr _ hdb]
  rfl

theorem refuses_congr (h : s.withoutLogs = t.withoutLogs) (cs : List Change) (e : PyExc) :
    env.Refuses s w cs e ↔ env.Refuses t w cs e := by
  obtain ⟨db, rfl, hdb⟩ := World.exists_db h
  unfold Environment.Refuses
  rw [Database.admitsAll_congr _ hdb]
  rfl

end

theorem forfeit_withoutLogs : (s.forfeit w).withoutLogs = s.withoutLogs.forfeit w := by
  have howing : s.withoutLogs.hist.owing w = s.hist.owing w := rfl
  unfold World.forfeit
  rw [howing]
  cases s.hist.owing w <;> rfl

theorem settle_congr (h : s.withoutLogs = t.withoutLogs) (txn : Transaction) (cs : List Change) :
    (s.settle w txn cs).withoutLogs = (t.settle w txn cs).withoutLogs := by
  obtain ⟨db, rfl, hdb⟩ := World.exists_db h
  simp only [World.settle, World.withoutLogs, World.rollback, Database.applyAll_congr _ hdb]

variable [Runtime] [Pydantic]

/-- **A call is answered alike** in states that differ in logs, and leaves such states. -/
theorem act_lockstep {o : Op} {r : Resp o} (h : s.withoutLogs = t.withoutLogs)
    (hr : permits env w s o r) :
    ∃ r', permits env w t o r' ∧ SameButLogs o r r' ∧
      (after w s o r).withoutLogs = (after w t o r').withoutLogs := by
  have hsame : permits env w t o r → (after w s o r).withoutLogs = (after w t o r).withoutLogs →
      ∃ r', permits env w t o r' ∧ SameButLogs o r r' ∧
        (after w s o r).withoutLogs = (after w t o r').withoutLogs :=
    fun hp ha => ⟨r, hp, rfl, ha⟩
  cases o with
  | select q =>
      have hq : q.withoutLogs (s.db.eval q) = q.withoutLogs (t.db.eval q) := by
        rw [← Database.eval_withoutLogs, ← Database.eval_withoutLogs]
        exact congrArg (fun u : World W => u.db.eval q) h
      cases r with
      | ok rows =>
          obtain rfl : rows = s.db.eval q := hr
          exact ⟨.ok (t.db.eval q), rfl, congrArg Except.ok hq, h⟩
      | error e => exact ⟨.error e, hr, rfl, h⟩
  | commit txn cs =>
      have hacc := accepts_congr (w := w) h cs
      have hset := settle_congr (w := w) h txn cs
      cases r with
      | committed =>
          refine hsame (hacc.mp hr) ?_
          obtain ⟨db, rfl, hdb⟩ := World.exists_db h
          simp only [after, World.settle, World.withoutLogs, World.rollback,
            Database.applyAll_congr _ hdb]
      | failed e applied =>
          refine hsame ?_ ?_
          · rcases hr with ⟨ha, hf, hc⟩ | ⟨ha, hf⟩
            · exact .inl ⟨ha, hf, hacc.mp hc⟩
            · exact .inr ⟨ha, (refuses_congr h cs e).mp hf⟩
          · cases applied with
            | true =>
                simp only [after]
                rw [forfeit_withoutLogs, forfeit_withoutLogs, hset]
            | false =>
                simp only [after]
                rw [forfeit_withoutLogs, forfeit_withoutLogs, h]
  | flush cs =>
      cases r with
      | ok a =>
          refine hsame ((accepts_congr h cs).mp hr) ?_
          obtain ⟨db, rfl, hdb⟩ := World.exists_db h
          simp only [after, World.withoutLogs, World.lock, hdb]
      | error e => exact hsame ((refuses_congr h cs e).mp hr) h
  | flushIncident row =>
      cases r with
      | ok id =>
          obtain ⟨db, rfl, hdb⟩ := World.exists_db h
          refine hsame hr ?_
          simp only [after, World.withoutLogs, hdb]
      | error e => exact hsame ((refuses_congr h _ e).mp hr) h
  | lockExecution i =>
      obtain ⟨db, rfl, hdb⟩ := World.exists_db h
      obtain ⟨rows, rfl, hrows⟩ := Database.exists_incidents hdb
      refine hsame hr ?_
      rcases r with e | _ | x
      · exact h
      · exact h
      · simp only [after, World.withoutLogs, World.lock, hdb]
  | getForDispatch id =>
      obtain ⟨db, rfl, hdb⟩ := World.exists_db h
      obtain ⟨rows, rfl, hrows⟩ := Database.exists_incidents hdb
      refine hsame hr ?_
      rcases r with e | _ | x
      · exact h
      · exact h
      · simp only [after, World.withoutLogs, World.lock, hdb]
  | refreshFeedback row =>
      obtain ⟨db, rfl, hdb⟩ := World.exists_db h
      obtain ⟨rows, rfl, hrows⟩ := Database.exists_incidents hdb
      exact hsame hr h
  | closeSession =>
      obtain ⟨db, rfl, hdb⟩ := World.exists_db h
      refine hsame hr ?_
      simp only [after, World.withoutLogs, World.rollback, hdb]
  | produce event topic =>
      obtain ⟨db, rfl, hdb⟩ := World.exists_db h
      refine hsame hr ?_
      rcases r with p | ⟨e, _ | p⟩ | ⟨n, _ | p⟩ | ⟨m, _ | p⟩ <;>
        simp only [after, World.withoutLogs, World.append, hdb]
  | poll =>
      obtain ⟨db, rfl, hdb⟩ := World.exists_db h
      refine hsame hr ?_
      rcases r with e | _ | _ | m <;> simp only [after, World.withoutLogs, hdb]
  | seek source offset =>
      obtain ⟨db, rfl, hdb⟩ := World.exists_db h
      refine hsame hr ?_
      rcases r with e | _ <;> simp only [after, World.withoutLogs, hdb]
  | commitOffset source offset =>
      obtain ⟨db, rfl, hdb⟩ := World.exists_db h
      refine hsame hr ?_
      rcases r with _ | ⟨e, _ | _⟩ <;> simp only [after, World.withoutLogs, hdb]
  | observe m outcome =>
      obtain ⟨db, rfl, hdb⟩ := World.exists_db h
      refine hsame hr ?_
      simp only [after]
      split
      · exact h
      · simp only [World.withoutLogs, hdb]
  | _ =>
      obtain ⟨db, rfl, hdb⟩ := World.exists_db h
      exact hsame hr h

end

/-! ## Programs that are blind to logs -/

/-- A call whose answers hold no log. -/
def Transparent (o : Op) : Prop := ∀ r r', SameButLogs o r r' → r = r'

/-- **The program is blind to logs**: it makes the same calls, with the same result, on answers
that differ in logs. -/
abbrev Blind {α : Type} (p : Py α) : Prop := p.Alike SameButLogs Eq p

theorem select_transparent {q : Query} (h : q.withoutLogs = id) : Transparent (.select q) := by
  intro r r' hr
  have hmap : ∀ r : Except PyExc q.Result, r.map q.withoutLogs = r := by
    intro r
    rw [h]
    cases r <;> rfl
  exact (hmap r).symm.trans (Eq.trans hr (hmap r'))

theorem transparent_housekeeping : Housekeeping Transparent where
  now _ _ h := h
  perfCounter _ _ _ h := h
  execution _ := select_transparent rfl
  steps _ := select_transparent rfl
  step _ _ := select_transparent rfl
  resolutionOf _ := select_transparent rfl
  flush _ _ _ h := h
  commit _ _ _ _ h := h
  closeSession _ _ h := h
  render _ _ _ _ h := h
  toolTimedOut _ _ h := h

theorem transparent_bookkeeping : Bookkeeping Transparent := transparent_housekeeping.bookkeeping

section
variable [Runtime] [Pydantic]

section
omit [Runtime] [Pydantic]

/-- What holds no log is blind to it. -/
theorem Blind.of_uses {α : Type} {p : Py α} {Q : α → Prop} (h : Uses Transparent p Q) : Blind p :=
  Alike.of_conforms h

theorem withSession_alike {α : Type} {R : α → α → Prop} {p q : Py α}
    (h : p.Alike SameButLogs R q) :
    (withSession p).Alike SameButLogs R (withSession q) :=
  h.andFinally (alike_ask fun _ _ _ => trivial)

theorem select_alike (q : Query) :
    (select q).Alike SameButLogs (fun a b => q.withoutLogs a = q.withoutLogs b) (select q) := by
  refine (alike_ask (R := SameButLogs (.select q)) fun _ _ h => h).bind fun r r' h => ?_
  refine alike_answer ?_
  rcases r with e | a <;> rcases r' with e' | b
  · exact Except.error.inj h
  · cases h
  · cases h
  · exact Except.ok.inj h

theorem requireIncident_alike (id : Int) :
    (requireIncident id).Alike SameButLogs (fun i j => i.withoutLog = j.withoutLog)
      (requireIncident id) := by
  refine (select_alike (.incident id)).bind fun row row' h => ?_
  rcases row with _ | i <;> rcases row' with _ | j
  · exact alike_raise _
  · cases h
  · cases h
  · exact alike_ret (Option.some.inj h)

end

/-! ## The tools -/

theorem getIncidentTool_blind (input : GetIncidentInput) (context : ToolContext) :
    Blind (getIncidentTool input context) := by
  refine (withSession_alike (requireIncident_alike _)).bind fun i j h => ?_
  obtain ⟨log, rfl⟩ := Incident.exists_log h
  exact Blind.of_uses (toolOutput_uses _ _ _)

omit [Runtime] [Pydantic] in
/-- Lists that agree under `f` are alike to what does not see past it. -/
theorem map_eq_of_map_eq {α β γ : Type} {f : α → β} {g : α → γ} {l l' : List α}
    (h : l.map f = l'.map f) (hg : ∀ a b, f a = f b → g a = g b) : l.map g = l'.map g := by
  induction l generalizing l' with
  | nil =>
      obtain rfl : l' = [] := List.map_eq_nil_iff.mp h.symm
      rfl
  | cons a l ih =>
      rcases l' with _ | ⟨b, l'⟩
      · cases h
      · simp only [List.map_cons, List.cons.injEq] at h ⊢
        exact ⟨hg a b h.1, ih h.2⟩

/-- A row beside something else, without its log. -/
abbrev pairWithoutLog {α : Type} : α × Incident → α × Incident := Prod.map id Incident.withoutLog

omit [Runtime] [Pydantic] in
theorem pairWithoutLog_eq {α : Type} {a b : α × Incident}
    (h : pairWithoutLog a = pairWithoutLog b) : ∃ log, b = (a.1, { a.2 with log := log }) := by
  rcases a with ⟨a, i⟩
  rcases b with ⟨b, j⟩
  obtain ⟨hab, hij⟩ := Prod.mk.inj h
  obtain rfl : a = b := hab
  obtain ⟨log, rfl⟩ := Incident.exists_log hij
  exact ⟨log, rfl⟩

omit [Pydantic] in
/-- The ranking of the candidates does not see their logs. -/
theorem ranked_withoutLogs {current current' : Incident} {candidates candidates' : List Incident}
    (hcurrent : current.withoutLog = current'.withoutLog)
    (h : candidates.map Incident.withoutLog = candidates'.map Incident.withoutLog) (limit : Nat) :
    ((((candidates.map fun item => (incidentSimilarity current item, item)).insertionSort
        fun a b => b.1 < a.1 ∨ a.1 = b.1 ∧ b.2.id ≤ a.2.id).take limit).filter
          fun row => 0 < row.1).map pairWithoutLog =
      ((((candidates'.map fun item => (incidentSimilarity current' item, item)).insertionSort
        fun a b => b.1 < a.1 ∨ a.1 = b.1 ∧ b.2.id ≤ a.2.id).take limit).filter
          fun row => 0 < row.1).map pairWithoutLog := by
  obtain ⟨log, rfl⟩ := Incident.exists_log hcurrent
  have hsort : ∀ rows : List (Nat × Incident),
      (((rows.insertionSort fun a b => b.1 < a.1 ∨ a.1 = b.1 ∧ b.2.id ≤ a.2.id).take limit).filter
          fun row => 0 < row.1).map pairWithoutLog =
        ((((rows.map pairWithoutLog).insertionSort
          fun a b => b.1 < a.1 ∨ a.1 = b.1 ∧ b.2.id ≤ a.2.id).take limit).filter
            fun row => 0 < row.1) := by
    intro rows
    rw [insertionSort_map (r := fun a b : Nat × Incident => b.1 < a.1 ∨ a.1 = b.1 ∧ b.2.id ≤ a.2.id)
      pairWithoutLog rows fun _ _ => Iff.rfl, ← List.map_take, List.filter_map]
    rfl
  rw [hsort, hsort, List.map_map, List.map_map]
  refine congrArg (fun rows : List (Nat × Incident) => ((rows.insertionSort
    fun a b => b.1 < a.1 ∨ a.1 = b.1 ∧ b.2.id ≤ a.2.id).take limit).filter fun row => 0 < row.1) ?_
  refine map_eq_of_map_eq h fun i j hij => ?_
  obtain ⟨log, rfl⟩ := Incident.exists_log hij
  rfl

theorem searchSimilarIncidentsTool_blind (input : IncidentScopedListInput)
    (context : ToolContext) : Blind (searchSimilarIncidentsTool input context) := by
  refine Alike.bind (R := fun a b : Incident × List Incident =>
    a.1.withoutLog = b.1.withoutLog ∧
      a.2.map Incident.withoutLog = b.2.map Incident.withoutLog)
    (withSession_alike ((requireIncident_alike _).bind fun i j hij =>
      (select_alike (.recentIncidents input.incidentId.1)).bind fun rows rows' hrows =>
        alike_ret ⟨hij, hrows⟩)) fun a b hab => ?_
  have hranked := ranked_withoutLogs hab.1 hab.2 input.limit.1.toNat
  dsimp only
  generalize hl : (((a.2.map fun item => (incidentSimilarity a.1 item, item)).insertionSort
    fun a b => b.1 < a.1 ∨ a.1 = b.1 ∧ b.2.id ≤ a.2.id).take input.limit.1.toNat).filter
      (fun row => 0 < row.1) = l at hranked ⊢
  generalize hl' : (((b.2.map fun item => (incidentSimilarity b.1 item, item)).insertionSort
    fun a b => b.1 < a.1 ∨ a.1 = b.1 ∧ b.2.id ≤ a.2.id).take input.limit.1.toNat).filter
      (fun row => 0 < row.1) = l' at hranked ⊢
  have hlen : l.length = l'.length := by simpa using congrArg List.length hranked
  rw [hlen, map_eq_of_map_eq hranked ?_, map_eq_of_map_eq hranked ?_]
  · exact Blind.of_uses (toolOutput_uses _ _ _)
  · intro a b hab
    obtain ⟨log, rfl⟩ := pairWithoutLog_eq hab
    rfl
  · intro a b hab
    obtain ⟨log, rfl⟩ := pairWithoutLog_eq hab
    rfl

theorem getPreviousResolutionsTool_blind (input : IncidentScopedListInput)
    (context : ToolContext) : Blind (getPreviousResolutionsTool input context) := by
  refine Alike.bind (R := fun a b : List (Resolution × Incident) =>
    a.map pairWithoutLog = b.map pairWithoutLog)
    (withSession_alike ((requireIncident_alike _).bind fun i j hij => ?_)) fun l l' hl => ?_
  · obtain ⟨log, rfl⟩ := Incident.exists_log hij
    exact select_alike (.previousResolutions input.incidentId.1 i.classification
      input.limit.1.toNat)
  · have hlen : l.length = l'.length := by simpa using congrArg List.length hl
    dsimp only
    rw [hlen, map_eq_of_map_eq hl ?_, map_eq_of_map_eq hl ?_]
    · exact Blind.of_uses (toolOutput_uses _ _ _)
    · intro a b hab
      obtain ⟨log, rfl⟩ := pairWithoutLog_eq hab
      rfl
    · intro a b hab
      obtain ⟨log, rfl⟩ := pairWithoutLog_eq hab
      rfl

/-- **Every registered tool** is blind to logs. -/
theorem tool_blind {tool : AgentTool} (ht : tool ∈ ToolRegistry.tools) (input : tool.Input)
    (context : ToolContext) : Blind (tool.execute input context) := by
  simp only [ToolRegistry.tools, List.mem_cons, List.not_mem_nil, or_false] at ht
  rcases ht with rfl | rfl | rfl | rfl | rfl | rfl
  · exact getIncidentTool_blind input context
  · refine Blind.of_uses (Q := fun _ => True) ((issue_uses fun _ _ h => h).bind fun _ _ => ?_)
    exact (answer_uses _).bind fun _ _ => toolOutput_uses _ _ _
  · exact searchSimilarIncidentsTool_blind input context
  · exact getPreviousResolutionsTool_blind input context
  · refine Blind.of_uses (Q := fun _ => True) ((withSession_uses transparent_bookkeeping
      (select_uses (select_transparent rfl))).bind fun row _ => ?_)
    dsimp only
    split
    · trivial
    · exact toolOutput_uses _ _ _
  · exact Blind.of_uses (toolOutput_uses _ _ _)

/-! ## The workflow -/

omit [Runtime] [Pydantic] in
theorem Blind.bind {α β : Type} {p : Py α} {f : α → Py β} (hp : Blind p) (hf : ∀ a, Blind (f a)) :
    Blind (p >>= f) := by
  refine Alike.bind hp fun a b hab => ?_
  subst hab
  exact hf a

theorem execute_blind (maxToolCalls : Nat) (request : ToolRequest) (context : ToolContext)
    (currentToolCalls : Nat) :
    Blind (ToolExecutor.execute maxToolCalls request context currentToolCalls) := by
  refine Blind.bind (.of_uses (raiseIf_uses _ _)) fun _ => ?_
  refine Blind.bind (.of_uses (raiseIf_uses _ _)) fun _ => ?_
  cases hget : ToolRegistry.get? request.toolName.1 with
  | none => exact alike_raise _
  | some tool =>
      dsimp only
      unfold ToolExecutor.runTool
      split
      · exact alike_raise _
      · rename_i arguments _
        have hcall : Blind (ToolExecutor.callTool tool.name (tool.execute arguments context)) := by
          refine Blind.bind (.of_uses (issue_uses fun _ _ h => h)) fun timedOut => ?_
          refine Blind.bind (.of_uses (raiseIf_uses _ _)) fun _ => ?_
          refine (tool_blind (List.mem_of_find?_eq_some hget) _ _).tryCatch fun e => ?_
          split <;> exact alike_raise _
        refine Blind.bind (.of_uses (raiseIf_uses _ _)) fun _ => ?_
        refine Blind.bind (.of_uses (issue_uses fun _ _ h => h)) fun started => ?_
        refine Blind.bind hcall fun output => ?_
        refine Blind.bind (.of_uses (perfCounterSince_uses transparent_bookkeeping _))
          fun elapsed => ?_
        generalize (ToolExecutor.outputJson output).utf8Length = size
        exact Blind.bind (.of_uses (raiseIf_uses _ _)) fun _ => .of_uses (answer_uses _)

variable {x : Uuid} (wf : ControlledAgentWorkflow) (event : IncidentCreatedEvent)

theorem toolTurn_blind (decision : PlannerDecision) (request : ToolRequest) (st : LoopState) :
    Blind (wf.toolTurn x event decision request st) := by
  have hreject : ∀ outcome lastError exhausted, Blind (wf.reject x decision (some request) outcome
      lastError exhausted st) := fun _ _ _ =>
    .of_uses (reject_uses transparent_bookkeeping wf _ _ _ _ _ _)
  have hrun : Blind (wf.runRequest event request st) := by
    refine Alike.tryCatch (Blind.bind (execute_blind _ _ _ _) fun _ => alike_ret rfl) fun e => ?_
    split
    · dsimp only
      split
      · exact alike_raise _
      · exact alike_ret rfl
    · exact alike_raise _
  unfold toolTurn
  split
  · exact hreject _ _ _
  · refine Blind.bind (.of_uses (setStatus_uses transparent_bookkeeping _)) fun _ => ?_
    refine Blind.bind hrun fun out => ?_
    cases out with
    | error exc =>
        refine Blind.bind (hreject _ _ _) fun st' => ?_
        exact Blind.bind (.of_uses (setStatus_uses transparent_bookkeeping _))
          fun _ => alike_ret rfl
    | ok result =>
        exact Blind.bind (.of_uses (persistToolStep_uses transparent_bookkeeping
          (transparent_housekeeping.flush _)))
          fun _ => alike_ret rfl

theorem round_blind (started : Rat) (st : LoopState) : Blind (wf.round x event started st) := by
  refine Blind.bind (.of_uses (checkBudgets_uses transparent_bookkeeping wf _ _)) fun _ => ?_
  refine Blind.bind (.of_uses (nextDecision_uses transparent_bookkeeping wf
    (fun _ _ _ _ h => h) (fun _ _ => transparent_housekeeping.render _ _) _ _)) fun out => ?_
  obtain ⟨st', decision⟩ := out
  cases decision with
  | none => exact alike_ret rfl
  | some decision =>
      dsimp only
      split
      · exact Blind.bind (toolTurn_blind wf event _ _ _) fun _ => alike_ret rfl
      · exact .of_uses (finalTurn_uses transparent_bookkeeping wf (fun _ _ _ _ h => h)
          (transparent_housekeeping.render _ _)
          fun _ _ _ _ _ _ => transparent_housekeeping.commit _ _)

theorem loop_blind (started : Rat) : ∀ (fuel : Nat) (st : LoopState),
    Blind (wf.loop x event started fuel st)
  | 0, _ => alike_raise _
  | fuel + 1, st => by
      refine Blind.bind (round_blind wf event started st) fun out => ?_
      cases out with
      | none => exact alike_ret rfl
      | some st' => exact loop_blind started fuel st'

omit [Runtime] [Pydantic] in
theorem claim_blind : Blind (wf.claim event) := by
  have hwith : ∀ (time : Timestamp) {change : Change}, change.Plain →
      Blind (wf.claimWith event time change) := fun time _ hplain =>
    .of_uses (claimWith_uses transparent_bookkeeping wf event time hplain)
  refine Blind.bind (.of_uses (now_uses transparent_bookkeeping)) fun time => ?_
  refine withSession_alike ((select_alike (.incident event.incidentId)).bind fun row row' h => ?_)
  rcases row with _ | i <;> rcases row' with _ | j
  · exact alike_raise _
  · cases h
  · cases h
  · have hlock : Blind (lockExecution event.incidentId) := .of_uses
      ((issue_uses fun _ _ h => h).bind fun _ _ => answer_uses _)
    refine Blind.bind hlock fun row => ?_
    cases row with
    | none =>
        refine Blind.bind (.of_uses (issue_uses fun _ _ h => h)) fun executionId => ?_
        refine Blind.bind (.of_uses (now_uses transparent_bookkeeping)) fun created => ?_
        exact Blind.bind (hwith time (by trivial)) fun _ => alike_ret rfl
    | some execution =>
        dsimp only
        split
        · exact alike_ret rfl
        · split
          · exact alike_ret rfl
          · exact Blind.bind (hwith time (by trivial)) fun _ => alike_ret rfl

/-- **The workflow is blind to logs.** -/
theorem resolve_blind : Blind (wf.resolve event) := by
  refine Blind.bind (claim_blind wf event) fun out => ?_
  obtain ⟨executionId, terminal⟩ := out
  cases terminal with
  | some outcome => exact alike_ret rfl
  | none =>
      refine Blind.bind (.of_uses (issue_uses fun _ _ h => h)) fun started => ?_
      refine Alike.tryCatch ?_ fun e =>
        Blind.of_uses (onFailure_uses transparent_bookkeeping wf e)
      refine Blind.bind (.of_uses (loadSteps_uses transparent_bookkeeping)) fun steps => ?_
      refine Blind.bind (.of_uses (answer_uses _)) fun results => ?_
      exact loop_blind wf event started _ _

/-! ## Runs -/

/-- The model server and the retriever answer by these functions. -/
def AnsweredBy (provider : Text → ResponseModel → ChatReply)
    (retriever : Text → Nat → Option Text → Except PyExc (List RetrievedChunk)) :
    (o : Op) → Resp o → Prop
  | .chat prompt model, r => r = provider prompt model
  | .retrieve query limit category, r => r = retriever query limit category
  | _, _ => True

omit [Runtime] [Pydantic] in
theorem AnsweredBy.congr {provider : Text → ResponseModel → ChatReply}
    {retriever : Text → Nat → Option Text → Except PyExc (List RetrievedChunk)} {o : Op}
    {r r' : Resp o} (h : SameButLogs o r r') (hr : AnsweredBy provider retriever o r) :
    AnsweredBy provider retriever o r' := by
  cases o with
  | chat prompt model => exact Eq.trans (Eq.symm h) hr
  | retrieve query limit category => exact Eq.trans (Eq.symm h) hr
  | _ => trivial

variable {W : Type} [DecidableEq W]

/-- The prompt of a call, and the response it asks for. -/
def promptOf : Op → Option (Text × ResponseModel)
  | .chat prompt model => some (prompt, model)
  | _ => none

/-- The prompts of a run in order, with who sent them. -/
def prompts (ls : List (Pool.Label Resp W)) : List (W × Text × ResponseModel) :=
  ls.filterMap fun l => match l with
    | .act w o _ => (promptOf o).map fun prompt => (w, prompt)
    | .crash _ => none

omit [Runtime] [Pydantic] [DecidableEq W] in
theorem prompts_eq {ls ls' : List (Pool.Label Resp W)}
    (h : List.Forall₂ (Pool.Label.Alike SameButLogs) ls ls') : prompts ls = prompts ls' := by
  induction h with
  | nil => rfl
  | cons hl _ ih =>
      unfold prompts at ih ⊢
      cases hl <;> rw [List.filterMap_cons, List.filterMap_cons, ih]

omit [Runtime] [Pydantic] in
theorem crash_withoutLogs (w : W) (s : World W) :
    (s.crash w).withoutLogs = s.withoutLogs.crash w := by
  have hforfeit := forfeit_withoutLogs (w := w) (s := s.rollback w)
  show { ((s.rollback w).forfeit w).withoutLogs with
    position := Function.update s.position w fun _ => none } = _
  rw [hforfeit]
  rfl

/-- **Incident logs cannot influence the agent.**  From two states that differ in incident
logs only, with the same model server and the same retriever: for every run of attempts at
events, however they are interleaved, crash and are made again, there is a run from the
other state with the same calls in the same order, answered alike; so it has the same
prompts, and it leaves the same steps, the same resolutions and the same executions. -/
theorem logs_do_not_matter (env : Environment) (provider : Text → ResponseModel → ChatReply)
    (retriever : Text → Nat → Option Text → Except PyExc (List RetrievedChunk))
    (wf : W → ControlledAgentWorkflow) (event : W → IncidentCreatedEvent) {s t : World W}
    (h : s.withoutLogs = t.withoutLogs)
    {p : Pool Resp PyExc ResolutionWorkflowOutcome W (World W)} {ls : List (Pool.Label Resp W)}
    (hrun : Pool.Run ((platform env).restrict fun _ o _ r => AnsweredBy provider retriever o r)
      ⟨s, fun w => some ((wf w).resolve (event w))⟩ ls p) :
    ∃ ls' q, Pool.Run
        ((platform env).restrict fun _ o _ r => AnsweredBy provider retriever o r)
        ⟨t, fun w => some ((wf w).resolve (event w))⟩ ls' q ∧
      List.Forall₂ (Pool.Label.Alike SameButLogs) ls ls' ∧ prompts ls = prompts ls' ∧
      p.world.db.steps = q.world.db.steps ∧ p.world.db.resolutions = q.world.db.resolutions ∧
      p.world.db.executions = q.world.db.executions := by
  have hact : ∀ w o (s : World W) r s' t, s.withoutLogs = t.withoutLogs →
      ((platform env).restrict fun _ o _ r => AnsweredBy provider retriever o r).act w o s r s' →
      ∃ r' t', ((platform env).restrict fun _ o _ r => AnsweredBy provider retriever o r).act
        w o t r' t' ∧ SameButLogs o r r' ∧ s'.withoutLogs = t'.withoutLogs := by
    rintro w o s r s' t hst ⟨hanswered, hperm, rfl⟩
    obtain ⟨r', hperm', hr, hafter⟩ := act_lockstep hst hperm
    exact ⟨r', _, ⟨hanswered.congr hr, hperm', rfl⟩, hr, hafter⟩
  have habort : ∀ w (s t : World W), s.withoutLogs = t.withoutLogs →
      (s.crash w).withoutLogs = (t.crash w).withoutLogs := by
    intro w s t hst
    rw [crash_withoutLogs, crash_withoutLogs, hst]
  have hstart : Pool.Alike (ε := PyExc) SameButLogs Eq (fun s t : World W => s.withoutLogs = t.withoutLogs)
      ⟨s, fun w => some ((wf w).resolve (event w))⟩ ⟨t, fun w => some ((wf w).resolve (event w))⟩ :=
    ⟨h, fun w => .some (resolve_blind (wf w) (event w))⟩
  obtain ⟨ls', q, hrun', hls, hq⟩ := hrun.lockstep hact habort hstart
  exact ⟨ls', q, hrun', hls, prompts_eq hls, World.tables_eq hq.world⟩

end

/-! ## A run -/

deriving instance DecidableEq for ChatReply

instance (provider : Text → ResponseModel → ChatReply)
    (retriever : Text → Nat → Option Text → Except PyExc (List RetrievedChunk)) :
    (o : Op) → DecidablePred (AnsweredBy provider retriever o)
  | .chat prompt model => fun (r : ChatReply) =>
      inferInstanceAs (Decidable (r = provider prompt model))
  | .retrieve query limit category => fun (r : Except PyExc (List RetrievedChunk)) =>
      inferInstanceAs (Decidable (r = retriever query limit category))
  | .now | .perfCounter _ | .uuid4 | .select _ | .lockExecution _ | .getForDispatch _
  | .flushIncident _ | .flush _ | .commit _ _ | .refreshFeedback _ | .closeSession
  | .ensureTopic _ | .produce _ _ | .subscribe _ | .stopRequested | .poll | .seek _ _
  | .commitOffset _ _ | .observe _ _ | .render _ _ | .toolTimedOut => fun _ => isTrue trivial

/-- A workflow with a prompt of nothing but its values. -/
def plainWorkflow : ControlledAgentWorkflow where
  limits := ⟨4, 3, 1, 4, 60, 2, 1⟩
  providerName := "ollama"
  modelName := "llama"
  embeddingProvider := "ollama"
  embeddingModel := "nomic"
  retrieverTopK := 4
  plannerPrompt := ⟨"planner", "1", List.flatten (["tool_catalog", "limits", "incident_event",
    "step_history", "last_error"].map fun name : String => PromptTemplate.placeholder name)⟩
  resolverPrompt := ⟨"resolver", "1", []⟩
  toolCatalog := .arr []

theorem timeoutEvent_service : 1 ≤ ("api" : Text).length ∧ ("api" : Text).length ≤ 100 := by decide

/-- The event of incident 1. -/
def timeoutEvent : IncidentCreatedEvent where
  eventId := 7
  occurredAt := 0
  incidentId := 1
  service := "api"
  classification := .timeoutError
  severity := .high
  occurredAt_mem := Timestamp.epoch_inCalendar
  incidentId_pos := Int.one_pos
  service_length := timeoutEvent_service

/-- Incident 1 with a log. -/
def incidentWithLog (log : Text) : World Bool :=
  { World.blank with db := { (World.blank : World Bool).db with
      incidents := [⟨1, "api", "boom", log, none, .high, .timeoutError, "Slow.", [], 0⟩] } }

/-- The same prompts on two logs, in a run of an attempt that crashes after it has asked the
model and an attempt that resumes it and finds the model unreachable. -/
theorem logs_do_not_matter_resumed :
    ∃ (p q : Pool Resp PyExc ResolutionWorkflowOutcome Bool (World Bool))
      (ls ls' : List (Pool.Label Resp Bool)),
      Pool.Run ((platform Environment.calm).restrict fun _ o _ r =>
          AnsweredBy (fun _ _ => .unreachable []) (fun _ _ _ => .ok []) o r)
        ⟨incidentWithLog "secret", fun _ => some (plainWorkflow.resolve timeoutEvent)⟩ ls p ∧
      Pool.Run ((platform Environment.calm).restrict fun _ o _ r =>
          AnsweredBy (fun _ _ => .unreachable []) (fun _ _ _ => .ok []) o r)
        ⟨incidentWithLog [], fun _ => some (plainWorkflow.resolve timeoutEvent)⟩ ls' q ∧
      p.world.db.executions.map (·.modelCallCount) = [2] ∧
      q.world.db.executions.map (·.modelCallCount) = [2] ∧ prompts ls = prompts ls' := by
  obtain ⟨p, hp, hP⟩ := exists_run_within Environment.calm
    (fun _ o _ r => AnsweredBy (fun _ _ => .unreachable []) (fun _ _ _ => .ok []) o r)
    (fun _ => plainWorkflow.resolve timeoutEvent) (incidentWithLog "secret")
    (fun p => p.world.db.executions.map (·.modelCallCount) = [2])
    [plain true 26, .crash true, plain false 28] (by decide +kernel)
  have hcalls := of_decide_eq_true hP
  obtain ⟨ls, hrun⟩ := hp.exists_run
  obtain ⟨ls', q, hrun', -, hprompts, -, -, hexecutions⟩ := logs_do_not_matter Environment.calm
    (fun _ _ => .unreachable []) (fun _ _ _ => .ok []) (fun _ => plainWorkflow)
    (fun _ => timeoutEvent) (s := incidentWithLog "secret") (t := incidentWithLog []) rfl hrun
  exact ⟨p, q, ls, ls', hrun, hrun', hcalls, hexecutions ▸ hcalls, hprompts⟩

end SupportPlatform

