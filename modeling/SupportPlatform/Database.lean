import SupportPlatform.Records

/-! # The database

The tables as lists of rows in the order of their insertion, the statements that read
them, and the changes a transaction makes.

A `Change` is one INSERT or UPDATE.  `Database.apply` carries it out; `admits` are the
unique constraints it can violate, `storable` what PostgreSQL refuses to store, and
`keys` the rows and unique keys it keeps locked until its transaction ends.
-/
namespace SupportPlatform

/-- The tables. -/
structure Database where
  incidents : List Incident
  outbox : List OutboxEvent
  processed : List ProcessedEvent
  executions : List Execution
  steps : List AgentStep
  resolutions : List Resolution
  feedback : List Feedback

/-- What a transaction can hold a lock on: a row, or the value of a unique key. -/
inductive RowKey
  | outbox (eventId : Uuid)
  | processed (eventId : Uuid)
  | execution (executionId : Uuid)
  | executionIncident (incidentId : Int)
  | executionEvent (eventId : Uuid)
  | step (executionId : Uuid) (stepNumber : Nat)
  | resolution (incidentId : Int)
  deriving DecidableEq

/-- One INSERT, or one UPDATE of an object that was loaded and edited.  The database
numbers a resolution and a feedback entry when it inserts them. -/
inductive Change
  | insertIncident (row : Incident)
  | insertOutbox (row : OutboxEvent)
  | updateOutbox (loaded edited : OutboxEvent)
  | insertProcessed (row : ProcessedEvent)
  | insertExecution (row : Execution)
  | updateExecution (loaded edited : Execution)
  | insertStep (row : AgentStep)
  | insertResolution (row : Resolution)
  | updateResolution (loaded edited : Resolution)
  | insertFeedback (row : Feedback)
  deriving DecidableEq

/-! ## What PostgreSQL stores -/

/-- A text column takes every text without a NUL. -/
def Text.storable (s : Text) : Bool := !s.elem (Char.ofNat 0)

namespace Text

theorem storable_iff {s : Text} : s.storable = true ↔ Char.ofNat 0 ∉ s := by
  simp [storable, List.contains_eq_mem]

theorem storable_append {s t : Text} (hs : s.storable = true) (ht : t.storable = true) :
    (s ++ t).storable = true := by
  rw [storable_iff] at *
  exact fun h => (List.mem_append.mp h).elim hs ht

theorem storable_take {s : Text} (hs : s.storable = true) (n : Nat) :
    Text.storable (s.take n) = true := by
  rw [storable_iff] at *
  exact fun h => hs (List.mem_of_mem_take h)

/-- What `replace` makes of a text consists of the text and the replacement. -/
theorem storable_replace {s new : Text} (hs : s.storable = true) (hnew : new.storable = true)
    (old : Text) : (s.replace old new).storable = true := by
  have hfrom : ∀ (s : Text) (skip : Nat), s.storable = true →
      (replaceFrom old new skip s).storable = true := by
    intro s
    induction s with
    | nil => intro skip _; cases skip <;> rfl
    | cons c s ih =>
        intro skip hcs
        rw [storable_iff, List.mem_cons, not_or] at hcs
        have htail : Text.storable s = true := storable_iff.mpr hcs.2
        cases skip with
        | succ skip => exact ih skip htail
        | zero =>
            rw [replaceFrom]
            split
            · exact storable_append hnew (ih _ htail)
            · rw [storable_iff, List.mem_cons, not_or]
              exact ⟨hcs.1, storable_iff.mp (ih 0 htail)⟩
  exact hfrom s 0 hs

theorem storable_join {separator : Text} (hs : separator.storable = true) :
    ∀ {parts : List Text}, (∀ t ∈ parts, Text.storable t = true) →
      (join separator parts).storable = true
  | [], _ => rfl
  | [_], h => h _ List.mem_cons_self
  | s :: _ :: _, h => storable_append (storable_append (h s List.mem_cons_self) hs)
      (storable_join hs fun u hu => h u (List.mem_cons_of_mem s hu))

theorem storable_reprList {entries : List Text} (h : ∀ t ∈ entries, Text.storable t = true) :
    (reprList entries).storable = true :=
  storable_append (storable_append (by decide) (storable_join (by decide) h)) (by decide)

theorem storable_ofDigits {digits : List Char} (h : ∀ c ∈ digits, ∃ n, c = Nat.digitChar n) :
    Text.storable digits = true := by
  have hdigit : ∀ n, Nat.digitChar n ≠ Char.ofNat 0 := by
    intro n
    rcases Nat.lt_or_ge n 16 with h | h
    · exact (by decide : ∀ k < 16, Nat.digitChar k ≠ Char.ofNat 0) n h
    · have hstar : Nat.digitChar n = '*' := by
        unfold Nat.digitChar
        repeat rw [if_neg (by omega)]
      rw [hstar]
      decide
  rw [storable_iff]
  intro hmem
  obtain ⟨n, hn⟩ := h _ hmem
  exact hdigit n hn.symm

theorem mem_toDigits {base n : Nat} {c : Char} (h : c ∈ Nat.toDigits base n) :
    ∃ k, c = Nat.digitChar k := by
  have hcore : ∀ (fuel n : Nat) (cs : List Char), c ∈ Nat.toDigitsCore base fuel n cs →
      c ∈ cs ∨ ∃ k, c = Nat.digitChar k := by
    intro fuel
    induction fuel with
    | zero => exact fun n cs h => .inl h
    | succ fuel ih =>
        intro n cs h
        rw [Nat.toDigitsCore] at h
        have hcons : c ∈ Nat.digitChar (n % base) :: cs → c ∈ cs ∨ ∃ k, c = Nat.digitChar k :=
          fun h => (List.mem_cons.mp h).elim (fun h => .inr ⟨_, h⟩) .inl
        split at h
        · exact hcons h
        · exact (ih _ _ h).elim hcons .inr
  exact (hcore _ n [] h).elim (fun h => nomatch h) id

theorem storable_hex (width n : Nat) : (hex width n).storable = true := by
  refine storable_append ?_ (storable_ofDigits fun c hc => mem_toDigits hc)
  rw [storable_iff]
  exact fun h => absurd (List.eq_of_mem_replicate h) (by decide)

/-- **What `repr` prints can be stored**, as it escapes what cannot. -/
theorem storable_repr [Runtime] (s : Text) : (repr s).storable = true := by
  have hquote : ∀ q c : Char, q = singleQuote ∨ q = doubleQuote →
      (reprChar q c).storable = true := by
    intro q c hq
    have hzero : q ≠ Char.ofNat 0 ∧ ascii (Char.ofNat 0) = true := by
      rcases hq with rfl | rfl <;> decide
    have hself : c ≠ Char.ofNat 0 → Text.storable [c] = true := fun h =>
      storable_iff.mpr fun hm => h (List.mem_singleton.mp hm).symm
    unfold reprChar
    by_cases h : (c == q || c == '\\') = true
    · rw [if_pos h]
      have hc : c ≠ Char.ofNat 0 := by
        rcases Bool.or_eq_true_iff.mp h with h | h
        · exact eq_of_beq h ▸ hzero.1
        · exact eq_of_beq h ▸ by decide
      exact storable_append (s := ['\\']) (by decide) (hself hc)
    rw [if_neg h]
    split
    · decide
    split
    · decide
    split
    · decide
    split
    · split
      · rename_i hc
        refine hself fun h => ?_
        subst h
        exact absurd hc (by decide)
      · exact storable_append (by decide) (storable_hex 2 _)
    split
    · rename_i ha _
      refine hself fun h => ?_
      subst h
      exact ha hzero.2
    split
    · exact storable_append (by decide) (storable_hex 2 _)
    split
    · exact storable_append (by decide) (storable_hex 4 _)
    · exact storable_append (by decide) (storable_hex 8 _)
  have hbody : ∀ q : Char, q = singleQuote ∨ q = doubleQuote →
      Text.storable (q :: s.flatMap (reprChar q) ++ [q]) = true := by
    intro q hq
    have hq' : Text.storable [q] = true := by rcases hq with rfl | rfl <;> decide
    refine storable_append (storable_append (s := [q]) hq' ?_) hq'
    rw [storable_iff]
    intro hm
    obtain ⟨c, -, hc⟩ := List.mem_flatMap.mp hm
    exact storable_iff.mp (hquote q c hq) hc
  unfold repr
  split
  · exact hbody doubleQuote (.inr rfl)
  · exact hbody singleQuote (.inl rfl)

theorem storable_ofInt (i : Int) : (ofInt i).storable = true := by
  cases i with
  | ofNat n => exact storable_ofDigits fun c hc => mem_toDigits hc
  | negSucc n =>
      exact storable_append (s := ['-']) (by decide) (storable_ofDigits fun c hc => mem_toDigits hc)

end Text

mutual
/-- A JSON column takes every value without a non-finite number. -/
def Json.storable : Json → Bool
  | .float (.finite _) => true
  | .float _ => false
  | .arr items => storableItems items
  | .obj entries => storableEntries entries
  | _ => true

def Json.storableItems : List Json → Bool
  | [] => true
  | v :: items => v.storable && Json.storableItems items

def Json.storableEntries : List (Text × Json) → Bool
  | [] => true
  | (_, v) :: entries => v.storable && Json.storableEntries entries
end

/-- The text and the JSON columns of a row, as far as anything but the settings and the
code's own literals goes into them. -/
structure Columns where
  texts : List Text
  jsons : List Json

/-- Whether PostgreSQL takes all of them. -/
def Columns.storable (c : Columns) : Bool := c.texts.all Text.storable && c.jsons.all Json.storable

namespace Change

/-- What the change writes to text and JSON columns. -/
def columns : Change → Columns
  | insertIncident r => ⟨[r.service, r.error, r.log, r.probableCause], []⟩
  | insertOutbox r => ⟨[r.topic], [r.payload]⟩
  | updateOutbox _ e => ⟨e.lastError.toList, []⟩
  | insertProcessed r => ⟨[], [r.processingResult]⟩
  | insertExecution _ => ⟨[], []⟩
  | updateExecution _ e => ⟨e.errorType.toList ++ e.errorMessageSafe.toList, e.providerUsage.toList⟩
  | insertStep r =>
      ⟨r.toolName.toList ++ [r.reasonSummary, r.expectedEvidence],
        r.sanitizedArguments.toList ++ r.resultSummary.toList ++ r.evidenceReferences⟩
  | insertResolution _ => ⟨[], []⟩
  | updateResolution _ e =>
      ⟨e.summary.toList ++ e.rootCause.toList ++ e.evidenceSummary.toList ++ e.errorMessage.toList,
        e.citedSources.getD [] ++ e.retrievedContext.getD []⟩
  | insertFeedback r => ⟨r.comment.toList ++ [r.reviewer], []⟩

/-- Whether PostgreSQL takes what the change writes. -/
def storable (c : Change) : Bool := c.columns.storable

/-- The locks the change takes.  An UPDATE without a net change is not sent, and the
identifier of a new incident is nobody else's. -/
def keys : Change → List RowKey
  | insertIncident _ => []
  | insertOutbox r => [.outbox r.eventId]
  | updateOutbox l e => if e = l then [] else [.outbox l.eventId]
  | insertProcessed r => [.processed r.eventId]
  | insertExecution r =>
      [.execution r.executionId, .executionIncident r.incidentId, .executionEvent r.eventId]
  | updateExecution l e => if e = l then [] else [.execution l.executionId]
  | insertStep r => [.step r.executionId r.stepNumber]
  | insertResolution r => [.resolution r.incidentId]
  | updateResolution l e => if e = l then [] else [.resolution l.incidentId]
  | insertFeedback _ => []

end Change

namespace Database

/-! ## Statements -/

/-- `session.get(IncidentRecord, id)`. -/
def incident? (db : Database) (id : Int) : Option Incident := db.incidents.find? (·.id = id)

/-- `session.get(ProcessedEventRecord, event_id)`. -/
def processed? (db : Database) (eventId : Uuid) : Option ProcessedEvent :=
  db.processed.find? (·.eventId = eventId)

/-- The outbox row of an event. -/
def outbox? (db : Database) (eventId : Uuid) : Option OutboxEvent :=
  db.outbox.find? (·.eventId = eventId)

/-- The execution with a given identifier. -/
def execution? (db : Database) (executionId : Uuid) : Option Execution :=
  db.executions.find? (·.executionId = executionId)

/-- The execution of an incident. -/
def executionOf (db : Database) (incidentId : Int) : Option Execution :=
  db.executions.find? (·.incidentId = incidentId)

/-- The resolution of an incident. -/
def resolutionOf (db : Database) (incidentId : Int) : Option Resolution :=
  db.resolutions.find? (·.incidentId = incidentId)

/-- The steps of an execution in the order of their insertion. -/
def stepsOf (db : Database) (executionId : Uuid) : List AgentStep :=
  db.steps.filter (·.executionId = executionId)

/-- The step of an execution with a given number. -/
def step? (db : Database) (executionId : Uuid) (stepNumber : Nat) : Option AgentStep :=
  (db.stepsOf executionId).find? (·.stepNumber = stepNumber)

/-- The steps of an execution, `ORDER BY step_number`. -/
def loadSteps (db : Database) (executionId : Uuid) : List AgentStep :=
  (db.stepsOf executionId).insertionSort fun a b => a.stepNumber ≤ b.stepNumber

/-- The pending outbox rows that are due, oldest first. -/
def pendingIds (db : Database) (now : Timestamp) (limit : Nat) : List Uuid :=
  let due := db.outbox.filter fun r => r.publishedAt = none ∧ r.nextAttemptAt ≤ now
  let ordered := due.insertionSort fun a b =>
    a.createdAt < b.createdAt ∨ a.createdAt = b.createdAt ∧ a.eventId ≤ b.eventId
  (ordered.map (·.eventId)).take limit

/-- The hundred newest incidents but one. -/
def recentIncidents (db : Database) (excluded : Int) : List Incident :=
  ((db.incidents.filter (·.id ≠ excluded)).insertionSort fun a b =>
    b.createdAt < a.createdAt ∨ a.createdAt = b.createdAt ∧ b.id ≤ a.id).take 100

/-- The completed resolutions of other incidents of a classification whose execution was
not rejected, with their incidents, the newest first.  A NULL `completed_at` sorts first. -/
def previousResolutions (db : Database) (incidentId : Int)
    (classification : IncidentClassification) (limit : Nat) : List (Resolution × Incident) :=
  let eligible := db.resolutions.filter fun r =>
    r.incidentId ≠ incidentId ∧ r.status = .completed ∧
      ¬ db.executions.any fun x => x.incidentId = r.incidentId ∧ x.status = .rejected
  let joined := eligible.flatMap fun r =>
    (db.incidents.filter fun i => i.id = r.incidentId ∧ i.classification = classification).map
      fun i => (r, i)
  let newer (a b : Resolution) : Bool := match a.completedAt, b.completedAt with
    | none, none => decide (b.id ≤ a.id)
    | none, some _ => true
    | some _, none => false
    | some s, some t => decide (t < s ∨ s = t ∧ b.id ≤ a.id)
  (joined.insertionSort fun a b => newer a.1 b.1).take limit

end Database

/-- A SELECT that takes no lock. -/
inductive Query
  | processed (eventId : Uuid)
  | incident (id : Int)
  | execution (executionId : Uuid)
  | executionOf (incidentId : Int)
  | resolutionOf (incidentId : Int)
  | steps (executionId : Uuid)
  | step (executionId : Uuid) (stepNumber : Nat)
  | recentIncidents (excluded : Int)
  | previousResolutions (incidentId : Int) (classification : IncidentClassification) (limit : Nat)
  | pendingIds (now : Timestamp) (limit : Nat)

/-- What it returns. -/
def Query.Result : Query → Type
  | processed _ => Option ProcessedEvent
  | incident _ => Option Incident
  | execution _ => Option Execution
  | executionOf _ => Option Execution
  | resolutionOf _ => Option Resolution
  | steps _ => List AgentStep
  | step _ _ => Option AgentStep
  | recentIncidents _ => List Incident
  | previousResolutions _ _ _ => List (Resolution × Incident)
  | pendingIds _ _ => List Uuid

instance : (q : Query) → DecidableEq q.Result
  | .processed _ => inferInstanceAs (DecidableEq (Option ProcessedEvent))
  | .incident _ => inferInstanceAs (DecidableEq (Option Incident))
  | .execution _ | .executionOf _ => inferInstanceAs (DecidableEq (Option Execution))
  | .resolutionOf _ => inferInstanceAs (DecidableEq (Option Resolution))
  | .steps _ => inferInstanceAs (DecidableEq (List AgentStep))
  | .step _ _ => inferInstanceAs (DecidableEq (Option AgentStep))
  | .recentIncidents _ => inferInstanceAs (DecidableEq (List Incident))
  | .previousResolutions _ _ _ => inferInstanceAs (DecidableEq (List (Resolution × Incident)))
  | .pendingIds _ _ => inferInstanceAs (DecidableEq (List Uuid))

namespace Database

/-- The rows that a SELECT finds. -/
def eval (db : Database) : (q : Query) → q.Result
  | .processed eventId => db.processed? eventId
  | .incident id => db.incident? id
  | .execution executionId => db.execution? executionId
  | .executionOf incidentId => db.executionOf incidentId
  | .resolutionOf incidentId => db.resolutionOf incidentId
  | .steps executionId => db.loadSteps executionId
  | .step executionId stepNumber => db.step? executionId stepNumber
  | .recentIncidents excluded => db.recentIncidents excluded
  | .previousResolutions incidentId classification limit =>
      db.previousResolutions incidentId classification limit
  | .pendingIds now limit => db.pendingIds now limit

/-! ## Changes -/

/-- The unique constraints that the change must meet. -/
def admits (db : Database) : Change → Bool
  | .insertIncident r => db.incidents.all fun i => i.id ≠ r.id
  | .insertOutbox r => db.outbox.all fun o => o.eventId ≠ r.eventId
  | .insertProcessed r => db.processed.all fun p => p.eventId ≠ r.eventId
  | .insertExecution r => db.executions.all fun x =>
      x.executionId ≠ r.executionId ∧ x.incidentId ≠ r.incidentId ∧ x.eventId ≠ r.eventId
  | .insertStep r => db.steps.all fun t =>
      ¬ (t.executionId = r.executionId ∧ t.stepNumber = r.stepNumber)
  | .insertResolution r => db.resolutions.all fun t => t.incidentId ≠ r.incidentId
  | _ => true

/-- The tables after a change. -/
def apply (db : Database) : Change → Database
  | .insertIncident r => { db with incidents := db.incidents ++ [r] }
  | .insertOutbox r => { db with outbox := db.outbox ++ [r] }
  | .updateOutbox l e =>
      { db with outbox := db.outbox.map fun r => if r.eventId = l.eventId then l.merge e r else r }
  | .insertProcessed r => { db with processed := db.processed ++ [r] }
  | .insertExecution r => { db with executions := db.executions ++ [r] }
  | .updateExecution l e =>
      { db with executions :=
          db.executions.map fun x => if x.executionId = l.executionId then l.merge e x else x }
  | .insertStep r => { db with steps := db.steps ++ [r] }
  | .insertResolution r =>
      { db with resolutions := db.resolutions ++ [{ r with id := db.resolutions.length + 1 }] }
  | .updateResolution l e =>
      { db with resolutions :=
          db.resolutions.map fun t => if t.id = l.id then l.merge e t else t }
  | .insertFeedback r =>
      { db with feedback := db.feedback ++ [{ r with id := db.feedback.length + 1 }] }

/-- The tables after the changes of a transaction. -/
def applyAll (db : Database) (cs : List Change) : Database := cs.foldl apply db

/-- Whether every change of a transaction meets the unique constraints when its turn comes. -/
def admitsAll (db : Database) : List Change → Bool
  | [] => true
  | c :: cs => db.admits c && (db.apply c).admitsAll cs

@[simp] theorem applyAll_nil (db : Database) : db.applyAll [] = db := rfl

@[simp] theorem applyAll_cons (db : Database) (c : Change) (cs : List Change) :
    db.applyAll (c :: cs) = (db.apply c).applyAll cs := rfl

@[simp] theorem applyAll_append (db : Database) (cs ds : List Change) :
    db.applyAll (cs ++ ds) = (db.applyAll cs).applyAll ds := List.foldl_append

end Database

end SupportPlatform
