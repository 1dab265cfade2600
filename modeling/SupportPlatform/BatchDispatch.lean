import SupportPlatform.EventTransport
import SupportPlatform.OutboxLedger
import SupportPlatform.Session

/-! # One pass over a batch

`dispatch_pending` lists the rows that are due and attempts them one by one, until an attempt
is deferred.  An attempt is deferred when the broker refuses the event, and also when the
stored payload is no event, so an invalid payload ends the pass like an unavailable broker
does: the rows behind it wait for another pass.

A pass is read off its calls (`MadeCall`), with a broker that acknowledges every publish.
-/


namespace SupportPlatform
open Program World

/-! ## The calls of a pass -/

/-- A call and its answer. -/
abbrev MadeCall := (o : Op) × Resp o

namespace MadeCall

/-- The event and the topic of an acknowledged publish. -/
def publication : MadeCall → Option (IncidentCreatedEvent × Text)
  | ⟨.produce event topic, r⟩ => match r with
      | .acknowledged _ => some (event, topic)
      | _ => none
  | _ => none

/-- The event that is asked for, to attempt it. -/
def attempt : MadeCall → Option Uuid
  | ⟨.getForDispatch eventId, _⟩ => some eventId
  | _ => none

end MadeCall

/-- What was published, in order. -/
def published (calls : List MadeCall) : List (IncidentCreatedEvent × Text) :=
  calls.filterMap MadeCall.publication

/-- Which events were attempted, in order. -/
def attempted (calls : List MadeCall) : List Uuid := calls.filterMap MadeCall.attempt

theorem published_append (calls : List MadeCall) (c : MadeCall) :
    published (calls ++ [c]) = published calls ++ c.publication.toList := by
  cases h : c.publication <;> simp [published, h]

theorem attempted_append (calls : List MadeCall) (c : MadeCall) :
    attempted (calls ++ [c]) = attempted calls ++ c.attempt.toList := by
  cases h : c.attempt <;> simp [attempted, h]

/-- A broker that has every topic and acknowledges every publish. -/
def acknowledging : (o : Op) → Resp o → Bool
  | .ensureTopic _, r => match r with
      | .ok _ => true
      | .error _ => false
  | .produce _ _, r => match r with
      | .acknowledged _ => true
      | _ => false
  | _, _ => true

/-! ## Batches -/

namespace OutboxEvent
variable [Pydantic]

/-- The event that the payload of a row holds. -/
def event? (r : OutboxEvent) : Option IncidentCreatedEvent :=
  (IncidentCreatedEvent.modelValidate r.payload).toOption

/-- Whether the payload is a valid event. -/
def valid (r : OutboxEvent) : Bool := r.event?.isSome

/-- What is published of a row. -/
def publication? (r : OutboxEvent) : Option (IncidentCreatedEvent × Text) :=
  r.event?.map fun event => (event, r.topic)

end OutboxEvent

/-- The order in which rows are attempted. -/
def OutboxEvent.Before (r r' : OutboxEvent) : Prop :=
  r.createdAt < r'.createdAt ∨ r.createdAt = r'.createdAt ∧ r.eventId ≤ r'.eventId

instance : DecidableRel OutboxEvent.Before := fun r r' =>
  inferInstanceAs (Decidable (r.createdAt < r'.createdAt ∨
    r.createdAt = r'.createdAt ∧ r.eventId ≤ r'.eventId))

/-- The rows that are due, oldest first, as many as a pass takes. -/
def Database.dueRows (db : Database) (now : Timestamp) (limit : Nat) : List OutboxEvent :=
  ((db.outbox.filter fun r => r.publishedAt = none ∧ r.nextAttemptAt ≤ now).insertionSort
    OutboxEvent.Before).take limit

namespace Database
variable {db : Database} {time : Timestamp} {limit : Nat}

/-- A pass lists the rows that are due. -/
theorem pendingIds_eq_map : db.pendingIds time limit = (db.dueRows time limit).map (·.eventId) := by
  simp only [pendingIds, dueRows, List.map_take]
  rfl

theorem dueRows_sorted : (db.dueRows time limit).Pairwise OutboxEvent.Before := by
  refine List.Pairwise.sublist (List.take_sublist _ _) ?_
  have htotal : ∀ a b : OutboxEvent, a.Before b ∨ b.Before a := by
    intro a b
    have hids : a.eventId ≤ b.eventId ∨ b.eventId ≤ a.eventId :=
      BitVec.le_total _ _
    rcases lt_trichotomy a.createdAt b.createdAt with h | h | h
    · exact .inl (.inl h)
    · exact hids.imp (fun hle => .inr ⟨h, hle⟩) fun hle => .inr ⟨h.symm, hle⟩
    · exact .inr (.inl h)
  have htrans : ∀ a b c : OutboxEvent, a.Before b → b.Before c → a.Before c := by
    intro a b c hab hbc
    rcases hab with h | ⟨h, hle⟩
    · rcases hbc with h' | ⟨h', -⟩
      · exact .inl (lt_trans h h')
      · exact .inl (h' ▸ h)
    · rcases hbc with h' | ⟨h', hle'⟩
      · exact .inl (h ▸ h')
      · exact .inr ⟨h.trans h', BitVec.le_trans hle hle'⟩
  have : Std.Total OutboxEvent.Before := ⟨htotal⟩
  have : IsTrans OutboxEvent OutboxEvent.Before := ⟨htrans⟩
  exact List.pairwise_insertionSort OutboxEvent.Before _

theorem nodup_dueRows (hn : (db.outbox.map (·.eventId)).Nodup) :
    ((db.dueRows time limit).map (·.eventId)).Nodup := by
  refine List.Nodup.sublist ((List.take_sublist _ _).map _) ?_
  refine ((List.perm_insertionSort OutboxEvent.Before _).map _).nodup_iff.mpr ?_
  exact hn.sublist (List.filter_sublist.map _)

theorem mem_of_mem_dueRows {r : OutboxEvent} (h : r ∈ db.dueRows time limit) :
    r ∈ db.outbox ∧ r.publishedAt = none ∧ r.nextAttemptAt ≤ time := by
  have := List.mem_of_mem_take h
  rw [List.mem_insertionSort, List.mem_filter] at this
  exact ⟨this.1, of_decide_eq_true this.2⟩

end Database

/-! ## A pass on its own -/

section
variable [Runtime] [Pydantic] {W : Type} [DecidableEq W] {env : Environment} {w : W}

/-- The calls of `w` while nobody else works and the broker acknowledges, written down. -/
def recorded (env : Environment) (w : W) (o : Op) (s : World W × List MadeCall) (r : Resp o)
    (t : World W × List MadeCall) : Prop :=
  alone env w o s.1 r t.1 ∧ acknowledging o r = true ∧ t.2 = s.2 ++ [⟨o, r⟩]

/-- **How a recorded run ends**: with `Q` of its result or `X` of its exception. -/
abbrev EndsRecorded {α : Type} (env : Environment) (w : W) (p : Py α)
    (Q : α → World W × List MadeCall → Prop) (X : PyExc → World W × List MadeCall → Prop)
    (s : World W × List MadeCall) : Prop :=
  p.Safe (Discipline.solo (fun _ => True) : Discipline (System.solo (recorded env w))) () Q X s

/-- The process is between two sessions, nothing is locked, and these rows wait. -/
structure Waiting (w : W) (rows : List OutboxEvent) (s : World W) : Prop where
  staged : s.staged w = []
  free : ∀ id, s.Free w (.outbox id)
  rows : ∀ r ∈ rows, s.db.outbox? r.eventId = some r ∧ r.publishedAt = none

/-- Two states with the same tables, locks and unsent changes. -/
structure SameTables (s t : World W) : Prop where
  db : t.db = s.db
  locks : t.locks = s.locks
  staged : t.staged = s.staged

variable {s : World W} {calls : List MadeCall} {record : OutboxEvent}
  {X : PyExc → World W × List MadeCall → Prop}

theorem ends_recorded {o : Op} {Q : Resp o → World W × List MadeCall → Prop}
    (h : ∀ r, permits env w s o r → acknowledging o r = true →
      Q r (after w s o r, calls ++ [⟨o, r⟩])) :
    EndsRecorded env w (issue o) Q X (s, calls) := by
  rintro - rfl - r ⟨t, calls'⟩ ⟨⟨hp, rfl⟩, hack, rfl⟩
  exact ⟨⟨trivial, trivial⟩, h r hp hack⟩

/-- **A publish is acknowledged**, and leaves the tables as they are. -/
theorem publish_recorded (event : IncidentCreatedEvent) (topic : Text) :
    EndsRecorded env w (publish event topic)
      (fun _ t => SameTables s t.1 ∧ published t.2 = published calls ++ [(event, topic)] ∧
        attempted t.2 = attempted calls)
      X (s, calls) := by
  refine safe_bind.mpr (ends_recorded fun r _ hack => ?_)
  cases r with
  | error e => cases hack
  | ok _ =>
      refine safe_bind.mpr (safe_answer.mpr ⟨fun _ _ => ?_, nofun⟩)
      refine safe_bind.mpr (ends_recorded fun r _ hack => ?_)
      cases r with
      | acknowledged p =>
          refine ⟨⟨rfl, rfl, rfl⟩, ?_, ?_⟩
          · rw [published_append, published_append]
            simp [MadeCall.publication]
          · rw [attempted_append, attempted_append]
            simp [MadeCall.attempt]
      | _ => cases hack

/-- The commit of an attempt takes effect, unless the error text cannot be stored. -/
theorem commit_recorded {edited : OutboxEvent} (henv : env.dbFaults = false)
    (hstaged : s.staged w = []) (hfree : ∀ id, s.Free w (.outbox id)) :
    EndsRecorded env w (commit .dispatch [.updateOutbox record edited])
      (fun _ t => t.1.db = s.db.apply (.updateOutbox record edited) ∧ t.1.staged w = [] ∧
        (∀ id, t.1.Free w (.outbox id)) ∧ published t.2 = published calls ∧
        attempted t.2 = attempted calls)
      (fun _ t => (Change.updateOutbox record edited).storable = false ∧ t.1.db = s.db ∧
        published t.2 = published calls ∧ attempted t.2 = attempted calls) (s, calls) := by
  have hnofault : ∀ e, ¬ env.Fault e := fun e h => by simp [henv, Environment.Fault] at h
  have hcalls : ∀ r : Resp (.commit .dispatch [.updateOutbox record edited]),
      published (calls ++ [⟨.commit .dispatch [.updateOutbox record edited], r⟩]) =
        published calls ∧
      attempted (calls ++ [⟨.commit .dispatch [.updateOutbox record edited], r⟩]) =
        attempted calls := fun r =>
    ⟨(published_append _ _).trans (List.append_nil _),
      (attempted_append _ _).trans (List.append_nil _)⟩
  refine safe_bind.mpr (ends_recorded fun r hp _ => ?_)
  rcases r with _ | ⟨e, _ | _⟩
  · refine ⟨?_, ?_, fun k => ?_, hcalls _⟩
    · simp [after, settle, hstaged]
    · simp [after, settle, World.rollback]
    · rcases hfree k with hk | hk <;> simp [after, settle, World.rollback, Free, hk]
  · rcases hp with ⟨h, -⟩ | ⟨-, h⟩
    · cases h
    · refine ⟨?_, by simp [after], hcalls _⟩
      rcases h with h | ⟨⟨c, hc, hunstorable⟩, -⟩ | ⟨-, h, -⟩
      · exact absurd h (hnofault e)
      · rw [List.mem_singleton] at hc
        subst hc
        simpa using hunstorable
      · exact absurd (by simp [hstaged, Database.admitsAll, Database.admits]) h
  · rcases hp with ⟨-, h, -⟩ | ⟨h, -⟩
    · exact absurd h (hnofault e)
    · cases h

/-! ## One row -/

/-- What an attempt on a row leaves: these publications, and the other rows as they were. -/
structure Tried (record : OutboxEvent) (events : List (IncidentCreatedEvent × Text))
    (s : World W) (calls : List MadeCall) (t : World W × List MadeCall) : Prop where
  published : published t.2 = published calls ++ events
  attempted : attempted t.2 = attempted calls ++ [record.eventId]
  others : ∀ id, id ≠ record.eventId → t.1.db.outbox? id = s.db.outbox? id

omit [Runtime] [Pydantic] in
theorem free_rollback {k : RowKey} (h : s.Free w k) : (s.rollback w).Free w k := by
  rcases h with h | h <;> by_cases hk : s.locks k = some w <;> simp [World.rollback, Free, h]

/-- An attempt takes its row under lock and goes on with it. -/
theorem dispatchEvent_recorded (henv : env.dbFaults = false)
    (hrow : s.db.outbox? record.eventId = some record) (hpend : record.publishedAt = none)
    (hfree : ∀ id, s.Free w (.outbox id)) {Q : DispatchOutcome → World W × List MadeCall → Prop}
    (h : EndsRecorded env w
      (do match ← OutboxDispatcher.attemptPublish record with
          | some exc => OutboxDispatcher.deferEvent record exc
          | none => OutboxDispatcher.markPublished record)
      (fun out t => Q out (t.1.rollback w, t.2 ++ [⟨.closeSession, ()⟩]))
      (fun e t => X e (t.1.rollback w, t.2 ++ [⟨.closeSession, ()⟩]))
      (s.lock w [.outbox record.eventId],
        calls ++ [⟨.getForDispatch record.eventId, .ok (some record)⟩])) :
    EndsRecorded env w (OutboxDispatcher.dispatchEvent record.eventId) Q X (s, calls) := by
  refine safe_andFinally (Safe.mono
    (Q := fun out t => Q out (t.1.rollback w, t.2 ++ [⟨.closeSession, ()⟩]))
    (X := fun e t => X e (t.1.rollback w, t.2 ++ [⟨.closeSession, ()⟩])) ?_
    (fun out t ht => ends_recorded fun _ _ _ => ht) fun e t ht => ends_recorded fun _ _ _ => ht)
  refine safe_bind.mpr (ends_recorded fun r hp _ => ?_)
  have hfound : s.dispatchable w record.eventId = some record :=
    dispatchable_eq_some.mpr ⟨hrow, hpend, hfree _⟩
  rcases r with e | found
  · exact absurd (show env.Fault e from hp) fun h => by simp [henv, Environment.Fault] at h
  · obtain rfl : found = some record := (show found = _ from hp).trans hfound
    exact safe_bind.mpr (safe_answer.mpr ⟨fun found hf => by cases hf; exact h, nofun⟩)

omit [Runtime] [Pydantic] [DecidableEq W] in
/-- What the update of a row leaves of the others. -/
theorem others_update {edited : OutboxEvent} {t : World W}
    (h : t.db = s.db.apply (.updateOutbox record edited)) (id : Uuid) (hne : id ≠ record.eventId) :
    t.db.outbox? id = s.db.outbox? id := by
  have hk : RowKey.outbox id ∉ (Change.updateOutbox record edited).keys := by
    simp only [Change.keys]
    split <;> simp [hne]
  rw [h]
  exact s.db.apply_same hk

omit [DecidableEq W] [Runtime] [Pydantic] in
theorem outbox?_updated {edited : OutboxEvent} {t : World W}
    (hrow : s.db.outbox? record.eventId = some record)
    (h : t.db = s.db.apply (.updateOutbox record edited)) (hid : edited.eventId = record.eventId) :
    t.db.outbox? record.eventId = some edited := by
  rw [h, Database.outbox?_update hrow, OutboxEvent.merge_loaded hid]

/-- **A row with a valid payload** is published and marked. -/
theorem dispatchEvent_valid (henv : env.dbFaults = false) {rows : List OutboxEvent}
    (h : Waiting w (record :: rows) s) (hnew : record.eventId ∉ rows.map (·.eventId))
    {event : IncidentCreatedEvent}
    (hval : IncidentCreatedEvent.modelValidate record.payload = .ok event) :
    EndsRecorded env w (OutboxDispatcher.dispatchEvent record.eventId)
      (fun out t => out = .published ∧ Waiting w rows t.1 ∧ t.1.Published record.eventId ∧
        Tried record [(event, record.topic)] s calls t)
      (fun _ _ => False) (s, calls) := by
  obtain ⟨hrow, hpend⟩ := h.rows record List.mem_cons_self
  refine dispatchEvent_recorded henv hrow hpend h.free ?_
  refine safe_bind.mpr (safe_tryCatch.mpr (safe_bind.mpr (safe_answer.mpr ⟨fun e he => ?_, ?_⟩)))
  · obtain rfl : event = e := Except.ok.inj (hval.symm.trans he)
    refine safe_bind.mpr ((publish_recorded event record.topic).mono ?_ fun _ _ hx => hx)
    rintro - ⟨t, calls'⟩ ⟨ht, hpub, hatt⟩
    refine safe_bind.mpr (ends_recorded fun time _ _ => ?_)
    have hlocked : ∀ id, t.Free w (.outbox id) := fun id => by
      rw [Free, ht.locks]
      simp only [World.lock]
      split
      · exact .inr rfl
      · exact h.free id
    refine safe_bind.mpr ((commit_recorded henv ((congrFun ht.staged w).trans h.staged)
      hlocked).mono ?_ ?_)
    · rintro - ⟨u, calls''⟩ ⟨hdb, -, hfree, hpub', hatt'⟩
      have hdb' : u.db = s.db.apply _ := hdb.trans (by rw [show t.db = s.db from ht.db])
      refine ⟨rfl, ⟨by simp [World.rollback], fun id => free_rollback (hfree id),
        fun r hr => ?_⟩, ?_, ?_, ?_, ?_⟩
      · have hne : r.eventId ≠ record.eventId := fun he =>
          hnew (List.mem_map.mpr ⟨r, hr, he⟩)
        obtain ⟨hr', hp'⟩ := h.rows r (List.mem_cons_of_mem _ hr)
        exact ⟨(others_update hdb' _ hne).trans hr', hp'⟩
      · exact ⟨_, outbox?_updated (t := u) hrow hdb' rfl, Option.some_ne_none (time : Timestamp)⟩
      · rw [published_append, hpub', published_append, hpub, published_append]
        simp [MadeCall.publication]
      · rw [attempted_append, hatt', attempted_append, hatt, attempted_append]
        simp [MadeCall.attempt]
      · exact fun id hne => others_update hdb' id hne
    · rintro e ⟨u, calls''⟩ ⟨hunstorable, -⟩
      exact absurd hunstorable (by simp [Change.storable, Change.columns, Columns.storable])
  · intro e he
    rw [hval] at he
    cases he

/-- **A row with an invalid payload** is not published, and does not come out as published:
the attempt is deferred, or the exception leaves it. -/
theorem dispatchEvent_invalid (henv : env.dbFaults = false) {rows : List OutboxEvent}
    (h : Waiting w (record :: rows) s) {exc : PyExc}
    (hval : IncidentCreatedEvent.modelValidate record.payload = .error exc) :
    EndsRecorded env w (OutboxDispatcher.dispatchEvent record.eventId)
      (fun out t => out = .deferred ∧ Tried record [] s calls t)
      (fun _ t => Tried record [] s calls t) (s, calls) := by
  obtain ⟨hrow, hpend⟩ := h.rows record List.mem_cons_self
  refine dispatchEvent_recorded henv hrow hpend h.free ?_
  refine safe_bind.mpr (safe_tryCatch.mpr (safe_bind.mpr (safe_answer.mpr ⟨?_, fun e _ => ?_⟩)))
  · intro event he
    rw [hval] at he
    cases he
  split
  · refine safe_bind.mpr (ends_recorded fun time _ _ => ?_)
    have hlocked : ∀ id, (s.lock w [.outbox record.eventId]).Free w (.outbox id) := fun id => by
      simp only [Free, World.lock]
      split
      · exact .inr rfl
      · exact h.free id
    refine safe_bind.mpr ((commit_recorded (s := s.lock w [.outbox record.eventId]) henv h.staged
      hlocked).mono ?_ ?_)
    · rintro - ⟨u, calls'⟩ ⟨hdb, -, -, hpub, hatt⟩
      refine ⟨rfl, ?_, ?_, fun id hne => others_update hdb id hne⟩
      · rw [published_append, hpub, published_append, published_append]
        simp [MadeCall.publication]
      · rw [attempted_append, hatt, attempted_append, attempted_append]
        simp [MadeCall.attempt]
    · rintro e ⟨u, calls'⟩ ⟨-, hdb, hpub, hatt⟩
      refine ⟨?_, ?_, fun id _ => congrArg (Database.outbox? · id) hdb⟩
      · rw [published_append, hpub, published_append, published_append]
        simp [MadeCall.publication]
      · rw [attempted_append, hatt, attempted_append, attempted_append]
        simp [MadeCall.attempt]
  · refine ⟨?_, ?_, fun _ _ => rfl⟩
    · rw [published_append, published_append]
      simp [MadeCall.publication]
    · rw [attempted_append, attempted_append]
      simp [MadeCall.attempt]

/-! ## The batch -/

/-- The rows that a pass gets to publish: those before the first with an invalid payload. -/
def front (rows : List OutboxEvent) : List OutboxEvent := rows.takeWhile OutboxEvent.valid

/-- What a pass over these rows leaves. -/
structure Passed (rows : List OutboxEvent) (s : World W) (calls : List MadeCall)
    (t : World W × List MadeCall) : Prop where
  published : published t.2 = published calls ++ (front rows).filterMap OutboxEvent.publication?
  attempted : attempted t.2 =
    attempted calls ++ (rows.take ((front rows).length + 1)).map (·.eventId)
  marked : ∀ r ∈ front rows, t.1.Published r.eventId
  others : ∀ id, id ∉ rows.map (·.eventId) → t.1.db.outbox? id = s.db.outbox? id

/-- **A pass stops behind the first row with an invalid payload.** -/
theorem dispatchAll_passed (henv : env.dbFaults = false) {rows : List OutboxEvent} (n : Nat)
    (hn : (rows.map (·.eventId)).Nodup) (h : Waiting w rows s) :
    EndsRecorded env w (OutboxDispatcher.dispatchAll (rows.map (·.eventId)) n)
      (fun _ => Passed rows s calls) (fun _ => Passed rows s calls) (s, calls) := by
  induction rows generalizing n s calls with
  | nil => exact ⟨by simp [front], by simp, nofun, fun _ _ => rfl⟩
  | cons record rows ih =>
      obtain ⟨hnew, hn⟩ := List.nodup_cons.mp hn
      cases hval : IncidentCreatedEvent.modelValidate record.payload with
      | ok event =>
          have hvalid : record.valid = true := by
            simp [OutboxEvent.valid, OutboxEvent.event?, hval, Except.toOption]
          refine safe_bind.mpr ((dispatchEvent_valid henv h hnew hval).mono ?_
            fun _ _ hx => hx.elim)
          rintro - ⟨t, calls'⟩ ⟨rfl, ht, hmarked, htried⟩
          -- what the pass does to the rest, in terms of where the pass began
          have hrest : ∀ u, Passed rows t calls' u → Passed (record :: rows) s calls u := by
            intro u hu
            have hfront : front (record :: rows) = record :: front rows :=
              List.takeWhile_cons_of_pos hvalid
            refine ⟨?_, ?_, fun r hr => ?_, fun id hid => ?_⟩
            · rw [hu.published, htried.published, hfront, List.append_assoc]
              simp [OutboxEvent.publication?, OutboxEvent.event?, hval, Except.toOption]
            · rw [hu.attempted, htried.attempted, hfront, List.append_assoc]
              simp
            · rw [hfront] at hr
              rcases List.mem_cons.mp hr with rfl | hr
              · obtain ⟨row, hrow, hpub⟩ := hmarked
                exact ⟨row, (hu.others _ hnew).trans hrow, hpub⟩
              · exact hu.marked r hr
            · rw [List.map_cons, List.mem_cons, not_or] at hid
              exact (hu.others id hid.2).trans (htried.others id hid.1)
          exact (ih (n + 1) hn ht).mono (fun _ u hu => hrest u hu) fun _ u hu => hrest u hu
      | error exc =>
          have hfront : front (record :: rows) = [] := by
            refine List.takeWhile_cons_of_neg ?_
            simp [OutboxEvent.valid, OutboxEvent.event?, hval, Except.toOption]
          have hstop : ∀ u, Tried record [] s calls u → Passed (record :: rows) s calls u := by
            intro u hu
            refine ⟨by simpa [hfront] using hu.published, by simpa [hfront] using hu.attempted,
              by simp [hfront], fun id hid => hu.others id ?_⟩
            rw [List.map_cons, List.mem_cons, not_or] at hid
            exact hid.1
          refine safe_bind.mpr ((dispatchEvent_invalid henv h hval).mono ?_
            fun _ u hu => hstop u hu)
          rintro - u ⟨rfl, hu⟩
          exact hstop u hu

/-- **A pass** of `dispatch_pending` on its own: its calls, how it ends, and what it leaves. -/
def IsPass (env : Environment) (w : W) (batchSize : Nat) (s : World W) (calls : List MadeCall)
    (out : Except PyExc Nat) (t : World W) : Prop :=
  Exec (recorded env w) (OutboxDispatcher.dispatchPending batchSize) (s, []) out (t, calls)

/-- Every valid row of the batch is published, in order, and marked. -/
structure PublishesValid (rows : List OutboxEvent) (calls : List MadeCall) (t : World W) :
    Prop where
  published : published calls = rows.filterMap OutboxEvent.publication?
  marked : ∀ r ∈ rows, r.valid = true → t.Published r.eventId

omit [Runtime] [Pydantic] in
/-- The first call of a run. -/
theorem exec_call {α S : Type} {act : (o : Op) → S → Resp o → S → Prop} {o : Op}
    {k : Resp o → Py α} {a b : S} {out : Except PyExc α} (h : Exec act (.call o k) a out b) :
    ∃ r c, act o a r c ∧ Exec act (k r) c out b := by
  cases h with
  | call ha hk => exact ⟨_, _, ha, hk⟩

/-- What is written down stays written down. -/
theorem prefix_of_exec {α : Type} {p : Py α} {a b : World W × List MadeCall}
    {out : Except PyExc α} (h : Exec (recorded env w) p a out b) : a.2 <+: b.2 := by
  induction h with
  | ret => exact List.prefix_rfl
  | raise => exact List.prefix_rfl
  | call ha _ ih =>
      rw [ha.2.2] at ih
      exact (List.prefix_append _ _).trans ih

/-- **What a pass does to its batch.** -/
theorem passed_of_isPass (henv : env.dbFaults = false)
    (hn : (s.db.outbox.map (·.eventId)).Nodup) (hstaged : s.staged w = [])
    (hfree : ∀ id, s.Free w (.outbox id)) {batchSize : Nat} {time : Timestamp}
    {out : Except PyExc Nat} {t : World W} (h : IsPass env w batchSize s calls out t)
    (htime : calls.head? = some ⟨.now, time⟩) :
    Passed (s.db.dueRows time batchSize) s [] (t, calls) := by
  obtain ⟨r, ⟨u, calls₁⟩, ⟨⟨-, hu⟩, -, hcalls⟩, hk⟩ := exec_call h
  have hu : u = s := hu
  have hcalls : calls₁ = [⟨.now, r⟩] := hcalls
  rw [hu, hcalls] at hk
  obtain rfl : r = time := by
    obtain ⟨rest, hrest⟩ := prefix_of_exec hk
    dsimp only at hrest
    rw [← hrest] at htime
    cases htime
    rfl
  replace hk : Exec (recorded env w) (withSession (select (.pendingIds r batchSize)) >>=
      fun eventIds => OutboxDispatcher.dispatchAll eventIds 0) (s, [⟨.now, r⟩]) out (t, calls) := hk
  have hends : EndsRecorded env w (withSession (select (.pendingIds r batchSize)) >>=
      fun eventIds => OutboxDispatcher.dispatchAll eventIds 0)
      (fun _ => Passed (s.db.dueRows r batchSize) s [])
      (fun _ => Passed (s.db.dueRows r batchSize) s []) (s, [⟨.now, r⟩]) := by
    refine safe_bind.mpr (safe_andFinally (Safe.mono (Q := fun ids u => u.1 = s ∧
      ids = (s.db.dueRows r batchSize).map (·.eventId) ∧ published u.2 = [] ∧ attempted u.2 = [])
      (X := fun _ _ => False) ?_ ?_ fun _ _ hx => hx.elim))
    · refine safe_bind.mpr (ends_recorded fun rows hp _ => ?_)
      rcases rows with e | ids
      · exact absurd (show env.Fault e from hp) fun h => by simp [henv, Environment.Fault] at h
      · refine safe_answer.mpr ⟨fun ids' hids => ?_, nofun⟩
        cases hids
        exact ⟨rfl, (show ids = _ from hp).trans Database.pendingIds_eq_map, rfl, rfl⟩
    · rintro ids ⟨u, calls'⟩ ⟨hu, hids, hpub, hatt⟩
      dsimp only at hu hpub hatt
      subst hu
      subst hids
      refine ends_recorded fun _ _ _ => ?_
      have hwaiting : Waiting w (u.db.dueRows r batchSize) (u.rollback w) := by
        refine ⟨by simp [World.rollback], fun id => free_rollback (hfree id), fun row hrow => ?_⟩
        obtain ⟨hmem, hpend, -⟩ := Database.mem_of_mem_dueRows hrow
        exact ⟨Database.outbox?_of_mem hn hmem, hpend⟩
      have hrest : ∀ v, Passed (u.db.dueRows r batchSize) (u.rollback w)
          (calls' ++ [⟨.closeSession, ()⟩]) v → Passed (u.db.dueRows r batchSize) u [] v := by
        intro v hv
        refine ⟨?_, ?_, hv.marked, hv.others⟩
        · rw [hv.published, published_append, hpub]
          rfl
        · rw [hv.attempted, attempted_append, hatt]
          rfl
      exact (dispatchAll_passed henv 0 (Database.nodup_dueRows hn) hwaiting).mono
        (fun _ v hv => hrest v hv) fun _ v hv => hrest v hv
  have hout := Exec.of_safe hk trivial hends
  cases out with
  | ok n => exact hout.1 n rfl
  | error e => exact hout.2 e rfl

/-! ## What a pass publishes -/

section
omit [Runtime]

/-- The pass publishes every valid row exactly when none stands behind an invalid one. -/
theorem front_publications_iff {rows : List OutboxEvent} :
    (front rows).filterMap OutboxEvent.publication? = rows.filterMap OutboxEvent.publication? ↔
      rows.Pairwise fun r r' => r'.valid = true → r.valid = true := by
  have hnone : ∀ r : OutboxEvent, r.publication? = none ↔ r.valid ≠ true := by
    intro r
    cases h : r.event? <;> simp [OutboxEvent.publication?, OutboxEvent.valid, h]
  induction rows with
  | nil => simp [front]
  | cons r rows ih =>
      rw [List.pairwise_cons]
      by_cases hr : r.valid = true
      · obtain ⟨x, hx⟩ : ∃ x, r.publication? = some x :=
          Option.ne_none_iff_exists'.mp fun h => (hnone r).mp h hr
        have hfront : front (r :: rows) = r :: front rows := List.takeWhile_cons_of_pos hr
        rw [hfront, List.filterMap_cons_some hx, List.filterMap_cons_some hx]
        simp [ih, hr]
      · have hfront : front (r :: rows) = [] := List.takeWhile_cons_of_neg hr
        rw [hfront, List.filterMap_cons_none ((hnone r).mpr hr), List.filterMap_nil, eq_comm,
          List.filterMap_eq_nil_iff]
        constructor
        · intro h
          have hall : ∀ r' ∈ rows, r'.valid ≠ true := fun r' hr' => (hnone r').mp (h r' hr')
          exact ⟨fun r' hr' hvalid => absurd hvalid (hall r' hr'),
            List.pairwise_of_forall_mem_list fun _ _ b hb hvalid => absurd hvalid (hall b hb)⟩
        · exact fun h r' hr' => (hnone r').mpr fun hvalid => hr (h.1 r' hr' hvalid)

/-- Where no valid row stands behind an invalid one, the pass comes to all of them. -/
theorem mem_front {rows : List OutboxEvent}
    (h : rows.Pairwise fun r r' => r'.valid = true → r.valid = true) :
    ∀ r ∈ rows, r.valid = true → r ∈ front rows := by
  induction rows with
  | nil => nofun
  | cons r rows ih =>
      rw [List.pairwise_cons] at h
      intro r' hr' hvalid
      by_cases hr : r.valid = true
      · rw [show front (r :: rows) = r :: front rows from List.takeWhile_cons_of_pos hr]
        rcases List.mem_cons.mp hr' with rfl | hr'
        · exact List.mem_cons_self
        · exact List.mem_cons_of_mem _ (ih h.2 r' hr' hvalid)
      · rcases List.mem_cons.mp hr' with rfl | hr'
        · exact absurd hvalid hr
        · exact absurd (h.1 r' hr' hvalid) hr

/-- The pass comes to every row exactly when at most the last one is invalid. -/
theorem length_le_front_iff {rows : List OutboxEvent} :
    rows.length ≤ (front rows).length + 1 ↔ ∀ r ∈ rows.dropLast, r.valid = true := by
  induction rows with
  | nil => simp
  | cons r rows ih =>
      by_cases hr : r.valid = true
      · rw [show front (r :: rows) = r :: front rows from List.takeWhile_cons_of_pos hr]
        cases rows with
        | nil => simp
        | cons r' rows =>
            rw [List.dropLast_cons_of_ne_nil (by simp), List.forall_mem_cons, ← ih]
            simp only [List.length_cons] at *
            constructor
            · exact fun h => ⟨hr, by omega⟩
            · exact fun h => by omega
      · rw [show front (r :: rows) = [] from List.takeWhile_cons_of_neg hr]
        cases rows with
        | nil => simp
        | cons r' rows =>
            rw [List.dropLast_cons_of_ne_nil (by simp), List.forall_mem_cons]
            constructor
            · intro h
              simp only [List.length_cons, List.length_nil] at h
              omega
            · exact fun h => absurd h.1 hr

/-- Where at most the last row is invalid, no valid row stands behind an invalid one. -/
theorem pairwise_of_dropLast {rows : List OutboxEvent}
    (h : ∀ r ∈ rows.dropLast, r.valid = true) :
    rows.Pairwise fun r r' => r'.valid = true → r.valid = true := by
  induction rows with
  | nil => exact .nil
  | cons r rows ih =>
      cases rows with
      | nil => exact List.pairwise_singleton _ _
      | cons r' rows =>
          rw [List.dropLast_cons_of_ne_nil (by simp), List.forall_mem_cons] at h
          exact List.pairwise_cons.mpr ⟨fun _ _ _ => h.1, ih h.2⟩

end

/-- **What stands behind an invalid row waits.**  A pass attempts its batch in the order of
creation, with a broker that acknowledges every publish.  It publishes every row with a valid
payload exactly when none of them stands behind a row with an invalid one; and it does so and
attempts the whole batch exactly when every row but the last is valid. -/
theorem pass_publishes_iff (henv : env.dbFaults = false)
    (hn : (s.db.outbox.map (·.eventId)).Nodup) (hstaged : s.staged w = [])
    (hfree : ∀ id, s.Free w (.outbox id)) {batchSize : Nat} {time : Timestamp}
    {out : Except PyExc Nat} {t : World W} (h : IsPass env w batchSize s calls out t)
    (htime : calls.head? = some ⟨.now, time⟩) :
    (s.db.dueRows time batchSize).Pairwise OutboxEvent.Before ∧
    (PublishesValid (s.db.dueRows time batchSize) calls t ↔
      (s.db.dueRows time batchSize).Pairwise fun r r' => r'.valid = true → r.valid = true) ∧
    (PublishesValid (s.db.dueRows time batchSize) calls t ∧
        attempted calls = (s.db.dueRows time batchSize).map (·.eventId) ↔
      ∀ r ∈ (s.db.dueRows time batchSize).dropLast, r.valid = true) := by
  have hpassed := passed_of_isPass henv hn hstaged hfree h htime
  refine ⟨Database.dueRows_sorted, ?_⟩
  generalize s.db.dueRows time batchSize = rows at hpassed
  have hpub : PublishesValid rows calls t ↔
      rows.Pairwise fun r r' => r'.valid = true → r.valid = true := by
    constructor
    · intro hall
      exact front_publications_iff.mp (hpassed.published.symm.trans hall.published)
    · intro hbehind
      exact ⟨hpassed.published.trans (front_publications_iff.mpr hbehind),
        fun r hr hvalid => hpassed.marked r (mem_front hbehind r hr hvalid)⟩
  have hatt : attempted calls = rows.map (·.eventId) ↔
      ∀ r ∈ rows.dropLast, r.valid = true := by
    rw [← length_le_front_iff, hpassed.attempted]
    constructor
    · intro heq
      have hlen := congrArg List.length heq
      simp only [attempted, List.filterMap_nil, List.nil_append, List.length_map,
        List.length_take] at hlen
      omega
    · intro hle
      rw [List.take_of_length_le hle]
      rfl
  exact ⟨hpub, fun h => hatt.mp h.2, fun h => ⟨hpub.mpr (pairwise_of_dropLast h), hatt.mpr h⟩⟩

end

/-! ## Passes -/

/-- A row created at `time` that waits for its publication. -/
def waitingRow (eventId : Uuid) (payload : Json) (time : Timestamp) : OutboxEvent where
  eventId := eventId
  incidentId := 3
  eventType := incidentCreatedEventType
  topic := "incidents"
  payload := payload
  attempts := 0
  nextAttemptAt := 0
  lastError := none
  publishedAt := none
  createdAt := time

/-- A state in which these rows wait. -/
def waitingState (rows : List OutboxEvent) : World Unit :=
  { (World.blank : World Unit) with db := { (World.blank : World Unit).db with outbox := rows } }

/-- The runs of a pass, with plain answers. -/
def recordedRunnable : Runnable Resp Unit (World Unit × List MadeCall) where
  permits w s o r := decide (permits Environment.calm w s.1 o r) && acknowledging o r
  after w s o r := (after w s.1 o r, s.2 ++ [⟨o, r⟩])
  abort _ s := s

theorem isPass_of_run {batchSize : Nat} {s t : World Unit} {calls : List MadeCall}
    {out : Except PyExc Nat}
    (h : recordedRunnable.run () (fun o s => plainAnswer () o s.1)
      (OutboxDispatcher.dispatchPending batchSize) (s, []) = some (out, t, calls)) :
    IsPass Environment.calm () batchSize s calls out t := by
  have hrun := Runnable.exec_of_run h
  refine Exec.simulate (f := id) (fun o a r b hab => ?_) hrun
  obtain ⟨hperm, rfl⟩ := hab
  obtain ⟨hpermits, hack⟩ := Bool.and_eq_true_iff.mp hperm
  exact ⟨⟨of_decide_eq_true hpermits, rfl⟩, hack, rfl⟩

/-- A pass with plain answers whose outcome and calls have a decidable property. -/
theorem exists_pass (batchSize : Nat) (s : World Unit)
    (P : Except PyExc Nat → World Unit → List MadeCall → Bool)
    (h : (recordedRunnable.run () (fun o s => plainAnswer () o s.1)
      (OutboxDispatcher.dispatchPending batchSize) (s, [])).any
        (fun end_ => P end_.1 end_.2.1 end_.2.2) = true) :
    ∃ out t calls, IsPass Environment.calm () batchSize s calls out t ∧ P out t calls = true := by
  obtain ⟨⟨out, t, calls⟩, hrun, hP⟩ := (Option.any_eq_true _ _).mp h
  exact ⟨out, t, calls, isPass_of_run hrun, hP⟩

/-- The time at which the pass begins. -/
def beginning? : List MadeCall → Option Timestamp
  | ⟨.now, r⟩ :: _ => some r
  | _ => none

theorem head?_of_beginning? {time : Timestamp} {calls : List MadeCall}
    (h : beginning? calls = some time) : calls.head? = some ⟨.now, time⟩ := by
  unfold beginning? at h
  split at h
  · cases h
    rfl
  · cases h

/-- A row whose payload is no event, and a row created after it whose payload is one. -/
def brokenRow : OutboxEvent := waitingRow 1 .null 0
def soundRow : OutboxEvent := waitingRow 7 offsetEvent.modelDump 1

/-- The batch of a pass when the sound row stands in front. -/
theorem pass_publishes_sound :
    ∃ out t calls, IsPass Environment.calm () 10
        (waitingState [waitingRow 7 offsetEvent.modelDump 0, waitingRow 1 .null 1]) calls out t ∧
      PublishesValid [waitingRow 7 offsetEvent.modelDump 0, waitingRow 1 .null 1] calls t ∧
      attempted calls = [7, 1] := by
  obtain ⟨out, t, calls, hpass, hP⟩ := exists_pass 10
    (waitingState [waitingRow 7 offsetEvent.modelDump 0, waitingRow 1 .null 1])
    (fun _ _ calls => decide (beginning? calls = some 0)) (by decide +kernel)
  have hiff := pass_publishes_iff rfl (by decide) rfl (fun _ => .inl rfl) hpass
    (head?_of_beginning? (of_decide_eq_true hP))
  have hrows : (waitingState [waitingRow 7 offsetEvent.modelDump 0,
      waitingRow 1 .null 1]).db.dueRows 0 10 =
        [waitingRow 7 offsetEvent.modelDump 0, waitingRow 1 .null 1] := by decide +kernel
  rw [hrows] at hiff
  exact ⟨out, t, calls, hpass, hiff.2.2.mpr (by decide +kernel)⟩

/-- **A valid row waits behind an invalid one**, though the broker acknowledges every
publish. -/
theorem invalid_row_stops_pass :
    ∃ out t calls, IsPass Environment.calm () 10 (waitingState [brokenRow, soundRow]) calls out t ∧
      calls.head? = some ⟨.now, (0 : Timestamp)⟩ ∧
      (waitingState [brokenRow, soundRow]).db.dueRows 0 10 = [brokenRow, soundRow] ∧
      soundRow.valid = true ∧ ¬ PublishesValid [brokenRow, soundRow] calls t := by
  obtain ⟨out, t, calls, hpass, hP⟩ := exists_pass 10 (waitingState [brokenRow, soundRow])
    (fun _ _ calls => decide (beginning? calls = some 0 ∧ published calls = []))
    (by decide +kernel)
  obtain ⟨hbegins, hnone⟩ := of_decide_eq_true hP
  refine ⟨out, t, calls, hpass, head?_of_beginning? hbegins, by decide +kernel, by decide +kernel,
    fun hall => ?_⟩
  have hpublications : [brokenRow, soundRow].filterMap OutboxEvent.publication? ≠ [] := by
    decide +kernel
  exact hpublications (hall.published.symm.trans hnone)

end SupportPlatform

