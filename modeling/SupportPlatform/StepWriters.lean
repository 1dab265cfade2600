import SupportPlatform.StepLog

/-! # Many workers on one step log

Any number of workers resolve any events at once, crash and resume.  The steps of an execution
are numbered by each worker from what it has in memory, and the counters of the execution are
read, incremented and written back.  What makes this exact is that a step is inserted under
its number before the execution is read: only the worker whose memory is the whole log can
insert the next number, and while it holds that number nobody can lengthen the log.

`stepLog` is the discipline under which the law of the log holds in every reachable state.
-/
namespace SupportPlatform
open Program World ControlledAgentWorkflow

section
variable [Runtime] [Pydantic] {law : LogLaw} {W : Type}
  [DecidableEq W] {env : Environment} {v w : W} {s t : World W}

/-! ## The discipline -/

/-- The tables obey the law, and a step that is sent has the next number of its log. -/
structure LogState (law : LogLaw) (s : World W) : Prop where
  inv : LogInv law s.db
  next : ∀ w r, Change.insertStep r ∈ s.staged w →
    r.stepNumber = (s.db.stepsOf r.executionId).length + 1

/-- The commit took effect. -/
def CommitReport.Effective : CommitReport → Prop
  | .committed => True
  | .failed _ applied => applied = true

/-- **A final response is stored**: what the worker had in memory was the whole log, and the
resolution has the content of the response. -/
structure FinalCommit (law : LogLaw) (x : Uuid) (i : Int) (st : LoopState)
    (final : AgentFinalResponse) (record : AgentStep) (db db' : Database) : Prop where
  holds : law.Holds i st
  complete : missingRequiredEvidence st.steps = []
  validated : Validated (fromKeys (succeededTools st.steps)) (evidenceReferences st.results) final
  row : ∃ row, db'.execution? x = some row ∧ row.incidentId = i
  log : db.stepsOf x = st.steps
  recorded : record.executionId = x ∧ record.outcome = .completed
  extended : db'.stepsOf x = st.steps ++ [record]
  resolution : ∃ context r, retrievedContext st.results = .ok context ∧
    db'.resolutionOf i = some r ∧ r.content = (some final.confidence,
      some (final.citedSources.map (·.modelDump)), some final.toolsUsed, some final.limitations,
      some final.escalationRequired, some final.humanReviewRecommended, some context)

/-- What the calls of the workers guarantee. -/
def FinalGuarantee (law : LogLaw) : (o : Op) → World W → Resp o → World W → Prop
  | .commit .final cs, s, r, t => r.Effective → ∃ x i st final record,
      Change.insertStep record ∈ cs ∧ FinalCommit law x i st final record s.db t.db
  | _, _, _, _ => True

omit [DecidableEq W] in
theorem LogState.same_db (h : LogState law s) (hdb : t.db = s.db)
    (hstaged : ∀ w r, Change.insertStep r ∈ t.staged w → Change.insertStep r ∈ s.staged w) :
    LogState law t :=
  ⟨hdb ▸ h.inv, fun w r hr => hdb ▸ h.next w r (hstaged w r hr)⟩

theorem LogState.rollback (h : LogState law s) (w : W) : LogState law (s.rollback w) := by
  refine h.same_db rfl fun v r hr => ?_
  by_cases hv : v = w
  · subst hv
    simp [World.rollback] at hr
  · simpa [World.rollback, Function.update_of_ne hv] using hr

/-- **The discipline of the step log.** -/
def stepLog (law : LogLaw) (env : Environment) (W : Type) [DecidableEq W] :
    Protocol env W where
  I := LogState law
  R _ s t := LogGrows s.db t.db
  G _ o s r t := FinalGuarantee law o s r t
  refl _ s := .refl s.db
  trans _ _ _ _ h h' := h.trans h'
  crash_inv w s h := (h.rollback w).same_db (by simp [World.crash]) fun v r hr => by
    simpa [World.crash] using hr
  crash_rely v w s _ _ := by
    rw [show (s.crash v).db = s.db by simp [World.crash, World.rollback]]
    exact .refl s.db

omit [Runtime] [Pydantic] in
/-- What is left of the transactions when a commit took effect. -/
theorem settle_staged (txn : Transaction) (cs : List Change) :
    (s.settle w txn cs).staged = Function.update s.staged w [] := rfl

/-- The state after a commit: either its changes took effect, or the tables and the sent changes
are the same. -/
theorem after_commit {txn : Transaction} {cs : List Change} {r : CommitReport}
    (hp : permits env w s (.commit txn cs) r) :
    (r.Effective ∧ Environment.Accepts s w cs ∧
      (after w s (.commit txn cs) r).db = s.db.applyAll (s.staged w ++ cs) ∧
      (after w s (.commit txn cs) r).staged = Function.update s.staged w []) ∨
    (¬ r.Effective ∧ (after w s (.commit txn cs) r).db = s.db ∧
      (after w s (.commit txn cs) r).staged = s.staged) := by
  rcases r with _ | ⟨e, _ | _⟩
  · exact .inl ⟨trivial, hp, rfl, rfl⟩
  · exact .inr ⟨fun h => (nomatch h), by simp [after], by simp [after]⟩
  · rcases hp with ⟨-, -, hc⟩ | ⟨h, -⟩
    · exact .inl ⟨rfl, hc, by simp [after, World.settle], by simp [after, settle_staged]⟩
    · cases h

/-- **A quiet commit** keeps the law and lengthens no log. -/
theorem LogState.quiet (h : LogState law s) {txn : Transaction} {cs : List Change}
    {r : CommitReport} (hst : ∀ c ∈ s.staged w, c.Quiet) (hcs : ∀ c ∈ cs, c.Quiet)
    (hp : permits env w s (.commit txn cs) r) :
    LogState law (after w s (.commit txn cs) r) ∧
      LogGrows s.db (after w s (.commit txn cs) r).db := by
  rcases after_commit hp with ⟨-, hc, hdb, hstaged⟩ | ⟨-, hdb, hstaged⟩
  · have hall : ∀ c ∈ s.staged w ++ cs, c.Quiet := fun c hc =>
      (List.mem_append.mp hc).elim (hst c) (hcs c)
    obtain ⟨hinv, hgrows, hsteps⟩ := quiet_applyAll h.inv hall hc.2.1
    refine ⟨⟨hdb ▸ hinv, fun v r hr => ?_⟩, hdb ▸ hgrows⟩
    rw [hstaged] at hr
    have hr' : Change.insertStep r ∈ s.staged v := by
      by_cases hv : v = w
      · subst hv
        simp at hr
      · rwa [Function.update_of_ne hv] at hr
    rw [hdb, Database.stepsOf, hsteps]
    exact h.next v r hr'
  · refine ⟨h.same_db hdb fun v r hr => hstaged ▸ hr, ?_⟩
    rw [hdb]
    exact .refl _

omit [Runtime] [Pydantic] [DecidableEq W] in
/-- While a worker can insert a step, no other has sent one of the same number. -/
theorem next_elsewhere (hL : s.Locked) {r r' : AgentStep}
    (hfree : s.Free w (.step r.executionId r.stepNumber)) (hvw : v ≠ w)
    (hr' : Change.insertStep r' ∈ s.staged v) :
    ¬ (r'.executionId = r.executionId ∧ r'.stepNumber = r.stepNumber) := by
  rintro ⟨hx, hn⟩
  have hlock : s.locks (.step r'.executionId r'.stepNumber) = some v :=
    hL v _ hr' _ (List.mem_singleton.mpr rfl)
  rw [hx, hn] at hlock
  rcases hfree with hf | hf <;> rw [hf] at hlock
  · cases hlock
  · exact hvw (Option.some.inj hlock).symm

/-- A step with the next number, once its transaction has taken effect. -/
theorem LogState.record (h : LogState law s) (hL : s.Locked) {r : AgentStep}
    (hinv : LogInv law t.db)
    (hnumber : r.stepNumber = (s.db.stepsOf r.executionId).length + 1)
    (hfree : s.Free w (.step r.executionId r.stepNumber))
    (hsteps : t.db.steps = s.db.steps ++ [r])
    (hstaged : t.staged = Function.update s.staged w []) : LogState law t := by
  refine ⟨hinv, fun v r' hr' => ?_⟩
  rw [hstaged] at hr'
  by_cases hv : v = w
  · subst hv
    simp at hr'
  rw [Function.update_of_ne hv] at hr'
  have hnext := h.next v r' hr'
  have hother := next_elsewhere hL hfree hv hr'
  have hof : t.db.stepsOf r'.executionId =
      s.db.stepsOf r'.executionId ++ if r.executionId = r'.executionId then [r] else [] := by
    rw [← Database.stepsOf_insert, Database.stepsOf, Database.stepsOf, hsteps, Database.apply]
  have hne : r.executionId ≠ r'.executionId := by
    intro heq
    refine hother ⟨heq.symm, ?_⟩
    rw [hnext, hnumber, heq]
  rw [hof, if_neg hne, List.append_nil]
  exact hnext

/-! ## What a worker remembers -/

/-- The execution is that of the incident. -/
def Belongs (x : Uuid) (i : Int) (db : Database) : Prop :=
  ∃ row, db.execution? x = some row ∧ row.incidentId = i

omit [Runtime] [Pydantic] in
theorem Belongs.grows {x : Uuid} {i : Int} {db db' : Database} (h : Belongs x i db)
    (hg : LogGrows db db') : Belongs x i db' := by
  obtain ⟨row, hrow, hi⟩ := h
  obtain ⟨row', hrow', hi'⟩ := hg.rows x row hrow
  exact ⟨row', hrow', hi'.trans hi⟩

omit [Runtime] [Pydantic] in
/-- A new execution is that of its incident. -/
theorem Belongs.new {r : Execution} {db : Database}
    (h : db.admits (.insertExecution r) = true) :
    Belongs r.executionId r.incidentId (db.apply (.insertExecution r)) := by
  refine ⟨r, ?_, rfl⟩
  rw [Database.execution?_insert, (Database.admits_execution h).1, Option.none_or, if_pos rfl]

/-- What a worker has in memory of an execution: the beginning of its log. -/
structure Knows (law : LogLaw) (x : Uuid) (i : Int) (st : LoopState) (db : Database) :
    Prop where
  log : st.steps <+: db.stepsOf x
  row : Belongs x i db
  holds : law.Holds i st

theorem Knows.grows {x : Uuid} {i : Int} {st : LoopState} {db db' : Database}
    (h : Knows law x i st db) (hg : LogGrows db db') : Knows law x i st db' :=
  ⟨h.log.trans (hg.logs x), h.row.grows hg, h.holds⟩

/-- Between two transactions. -/
def Remembers (law : LogLaw) (w : W) (x : Uuid) (i : Int) (st : LoopState) (s : World W) :
    Prop := s.staged w = [] ∧ Knows law x i st s.db

/-- The end of a session: nothing is sent. -/
theorem closeLog_safe {X : PyExc → World W → Prop} {Q : World W → Prop}
    (h : ∀ t, Frame w s t → LogGrows s.db t.db → Q (t.rollback w)) :
    (issue .closeSession).Safe (stepLog law env W).discipline w (fun _ => Q) X s := by
  refine Protocol.safe_issue fun t hf hR _ hI r _ => ?_
  exact ⟨hI.rollback w, fun _ _ => .refl t.db, trivial, h t hf hR⟩

/-- **A session** in which something is learned that nobody can undo. -/
theorem session_learns {α : Type} {body : Py α} {K : α → Database → Prop}
    (hK : ∀ a db db', K a db → LogGrows db db' → K a db')
    (h : body.Safe (stepLog law env W).discipline w (fun a t => K a t.db) (fun _ _ => True) s) :
    (withSession body).Safe (stepLog law env W).discipline w
      (fun a t => t.staged w = [] ∧ K a t.db) (fun _ t => t.staged w = []) s := by
  refine safe_andFinally (h.mono (fun a t ht => ?_) fun _ t _ => ?_)
  · exact closeLog_safe fun u _ hR => ⟨by simp [World.rollback], hK a _ _ ht hR⟩
  · exact closeLog_safe fun u _ _ => by simp [World.rollback]

/-- What the answers are, in states that obey the law. -/
def LogAnswers (law : LogLaw) (env : Environment) (W : Type) [DecidableEq W] (o : Op)
    (r : Resp o) : Prop := ∃ (w : W) (s : World W), permits env w s o r ∧ LogInv law s.db

theorem log_assumed {x : Uuid} (hcorpus : law.grounded → ∀ c, env.corpus c = true →
    ManifestId c.sourceId) :
    Assumes x (LogAnswers law env W) (fun _ => True) (fun _ => True) law.grounded where
  clock t r h := by
    obtain ⟨_, _, h, -⟩ := h
    exact h t rfl
  loaded _ _ := trivial
  context hg i r h := by
    obtain ⟨_, s, h, hinv⟩ := h
    have hr : some r = s.db.resolutionOf i := h
    exact hinv.resolutions.context hg r (List.mem_of_find?_eq_some hr.symm)
  corpus hg q n c chunks h chunk hchunk := by
    obtain ⟨_, _, h, -⟩ := h
    exact hcorpus hg chunk (h.2 chunk hchunk)
  select _ _ _ := trivial
  commit _ _ _ _ _ := trivial
  selectError q e h := by
    obtain ⟨_, _, h, -⟩ := h
    have he : env.Fault e := h
    rw [PyExc.isA, he.2]
    decide
  commitError txn cs e applied h := by
    obtain ⟨_, _, h, -⟩ := h
    rw [PyExc.isA]
    rcases h with ⟨-, he, -⟩ | ⟨-, he | he | he⟩
    · rw [he.2]
      decide
    · rw [he.2]
      decide
    · rw [he.2]
      decide
    · rw [he.2.2]
      decide
  render _ _ _ _ := trivial
  reply _ _ _ _ _ _ _ := trivial
  exhausted _ _ _ _ _ := trivial
  retrieve _ _ _ _ _ _ := trivial
  own _ _ _ := trivial

/-- **A routine call** keeps the law and what the worker remembers. -/
theorem routine_logged {o : Op} {x : Uuid} {i : Int} {st : LoopState}
    (ho : Routine (fun _ => True) o) (hs : Remembers law w x i st s) (hI : LogState law s)
    {r : Resp o} (hp : permits env w s o r) :
    LogState law (after w s o r) ∧ LogGrows s.db (after w s o r).db ∧
      FinalGuarantee law o s r (after w s o r) ∧ Remembers law w x i st (after w s o r) := by
  cases o with
  | commit txn cs =>
      have hcs : ∀ c ∈ cs, c.Quiet := by
        cases txn
        case setStatus =>
          obtain ⟨l, status, time, -, -, rfl⟩ := ho
          intro c hc
          rw [List.mem_singleton.mp hc]
          exact ⟨rfl, rfl, rfl⟩
        case modelMetadata =>
          obtain ⟨l, durationMs, inputChars, outputChars, usage, time, -, rfl⟩ := ho
          intro c hc
          rw [List.mem_singleton.mp hc]
          exact ⟨rfl, rfl, rfl⟩
        all_goals exact ho.elim
      have hnone : ∀ c ∈ s.staged w, c.Quiet := fun c hc => by
        rw [hs.1] at hc
        cases hc
      obtain ⟨hI', hgrows⟩ := hI.quiet hnone hcs hp
      refine ⟨hI', hgrows, ?_, ?_, hs.2.grows hgrows⟩
      · cases txn <;> trivial
      · rcases after_commit hp with ⟨-, -, -, hstaged⟩ | ⟨-, -, hstaged⟩ <;> rw [hstaged]
        · exact Function.update_self _ _ _
        · exact hs.1
  | closeSession =>
      exact ⟨hI.rollback w, .refl s.db, trivial, by simp [after, World.rollback], hs.2⟩
  | now => exact ⟨hI, .refl s.db, trivial, hs⟩
  | perfCounter since => exact ⟨hI, .refl s.db, trivial, hs⟩
  | select query => exact ⟨hI, .refl s.db, trivial, hs⟩
  | render template values => exact ⟨hI, .refl s.db, trivial, hs⟩
  | chat prompt model => exact ⟨hI, .refl s.db, trivial, hs⟩
  | retrieve query limit category => exact ⟨hI, .refl s.db, trivial, hs⟩
  | toolTimedOut => exact ⟨hI, .refl s.db, trivial, hs⟩
  | _ => exact ho.elim

/-! ## Recording a step -/

/-- A step is in its log under its number. -/
theorem step?_of_prefix {db : Database} (h : StepsInv law db) {x : Uuid}
    {steps : List AgentStep} {record : AgentStep} (hlog : steps ++ [record] <+: db.stepsOf x) :
    db.step? x (steps.length + 1) = some record := by
  obtain ⟨rest, hrest⟩ := hlog
  have hlen : steps.length < (db.stepsOf x).length := by simp [← hrest]
  have hnumber : ∀ (n : Nat) (hn : n < (db.stepsOf x).length),
      ((db.stepsOf x).get ⟨n, hn⟩).stepNumber = n + 1 := by
    intro n hn
    have hget := congrArg (fun l => l[n]?) (h.numbered x)
    simp only [List.getElem?_map, List.getElem?_eq_getElem hn, List.getElem?_range' hn,
      Option.map_some, Option.some.injEq] at hget
    simp only [List.get_eq_getElem, hget]
    omega
  rw [Database.step?, List.find?_eq_some_iff_getElem]
  have hrecord : (db.stepsOf x).get ⟨steps.length, hlen⟩ = record := by
    simp [← hrest]
  refine ⟨?_, steps.length, hlen, hrecord, fun j hj => ?_⟩
  · rw [← hrecord, hnumber]
    simp
  · have := hnumber j (hj.trans hlen)
    rw [List.get_eq_getElem] at this
    simp [this]
    omega

/-- A worker whose next step has a free number has the whole log in memory. -/
theorem Knows.log_eq {x : Uuid} {i : Int} {st : LoopState} {db : Database}
    (h : Knows law x i st db)
    (hlen : st.steps.length + 1 = (db.stepsOf x).length + 1) : db.stepsOf x = st.steps :=
  (h.log.eq_of_length (Nat.succ.inj hlen)).symm

/-- The number of a step that the constraint admits is the next one. -/
theorem next_of_admits {db : Database} (h : StepsInv law db) {r : AgentStep}
    (hadmits : db.admits (.insertStep r) = true)
    (hpos : 1 ≤ r.stepNumber) (hle : r.stepNumber ≤ (db.stepsOf r.executionId).length + 1) :
    r.stepNumber = (db.stepsOf r.executionId).length + 1 := by
  by_contra hne
  -- otherwise the log has a step of this number
  have hmem : r.stepNumber ∈ List.range' 1 (db.stepsOf r.executionId).length := by
    rw [List.mem_range'_1]
    omega
  rw [← h.numbered] at hmem
  obtain ⟨t, ht, hnumber⟩ := List.mem_map.mp hmem
  obtain ⟨ht, hid⟩ := List.mem_filter.mp ht
  exact of_decide_eq_true (List.all_eq_true.mp hadmits t ht) ⟨of_decide_eq_true hid, hnumber⟩

theorem Knows.next_of_admits {x : Uuid} {i : Int} {st : LoopState} {db : Database}
    {r : AgentStep} (h : Knows law x i st db) (hinv : StepsInv law db)
    (hx : r.executionId = x) (hnumber : r.stepNumber = st.steps.length + 1)
    (hadmits : db.admits (.insertStep r) = true) :
    r.stepNumber = (db.stepsOf x).length + 1 ∧ db.stepsOf x = st.steps := by
  have hle := h.log.length_le
  subst hx
  have hnext := SupportPlatform.next_of_admits hinv hadmits (by omega) (by omega)
  exact ⟨hnext, h.log_eq (by omega)⟩

/-- A step was sent, and the worker has the whole log in memory. -/
structure Sent (law : LogLaw) (w : W) (x : Uuid) (i : Int) (st : LoopState)
    (record : AgentStep) (s : World W) : Prop where
  staged : s.staged w = [.insertStep record]
  knows : Knows law x i st s.db
  log : s.db.stepsOf x = st.steps

omit [DecidableEq W] in
/-- While a step is sent, the log does not get longer. -/
theorem Sent.rely {x : Uuid} {i : Int} {st : LoopState} {record : AgentStep}
    (h : Sent law w x i st record s) (hx : record.executionId = x)
    (hnumber : record.stepNumber = st.steps.length + 1) (hf : Frame w s t)
    (hg : LogGrows s.db t.db) (hI : LogState law t) : Sent law w x i st record t := by
  have hstaged : t.staged w = [.insertStep record] := hf.staged.trans h.staged
  have hknows := h.knows.grows hg
  refine ⟨hstaged, hknows, hknows.log_eq ?_⟩
  have hnext := hI.next w record (by simp [hstaged])
  rw [hx] at hnext
  omega

/-- What an edit of the execution makes of the counters when a step is recorded with it. -/
structure Counts (record : AgentStep) (l e : Execution) : Prop where
  incident : e.incidentId = l.incidentId
  steps : e.stepCount = record.stepNumber
  calls : e.toolCallCount = l.toolCallCount + record.calls

omit [Runtime] [Pydantic] in
/-- The counters of an execution that was read when the log was as it is. -/
theorem Counts.merge {record : AgentStep} {l e cur : Execution} (h : Counts record l e)
    (hsteps : l.stepCount = cur.stepCount) (hcalls : l.toolCallCount = cur.toolCallCount) :
    (l.merge e cur).stepCount = record.stepNumber ∧
      (l.merge e cur).toolCallCount = cur.toolCallCount + record.calls := by
  constructor
  · show put l.stepCount e.stepCount cur.stepCount = _
    rw [← hsteps, put_current, h.steps]
  · show put l.toolCallCount e.toolCallCount cur.toolCallCount = _
    rw [← hcalls, put_current, h.calls]

/-- **The commit of a step** that took effect: the log is one longer, and the law holds of it. -/
theorem Sent.commit {x : Uuid} {i : Int} {st st' : LoopState} {record : AgentStep}
    {l e : Execution} (hsent : Sent law w x i st record s) (hL : s.Locked) (hI : LogState law s)
    (hx : record.executionId = x) (hnumber : record.stepNumber = st.steps.length + 1)
    (hid : l.executionId = x) (hsteps : l.stepCount = st.steps.length)
    (hcalls : l.toolCallCount = succeededSteps st.steps) (hedit : Counts record l e)
    (hgood : law.Good i (st.steps ++ [record])) (hst : st'.steps = st.steps ++ [record])
    (hholds : law.Holds i st') (hdb : t.db = s.db.applyAll (s.staged w ++ [.updateExecution l e]))
    (hstaged : t.staged = Function.update s.staged w []) :
    LogState law t ∧ LogGrows s.db t.db ∧ Knows law x i st' t.db := by
  obtain ⟨cur, hcur, hincident⟩ := hsent.knows.row
  obtain ⟨hsteps', hcalls'⟩ := hI.inv.steps.counted x cur hcur
  rw [hsent.log] at hsteps' hcalls'
  obtain ⟨hcount, hcall⟩ := hedit.merge (hsteps.trans hsteps'.symm) (hcalls.trans hcalls'.symm)
  have hdb : t.db = (s.db.apply (.insertStep record)).apply (.updateExecution l e) := by
    rw [hdb, hsent.staged]
    rfl
  have hnext : record.stepNumber = (s.db.stepsOf record.executionId).length + 1 := by
    rw [hx, hsent.log, hnumber]
  have hfree : s.Free w (.step record.executionId record.stepNumber) :=
    .inr (hL w (.insertStep record) (by simp [hsent.staged]) _ (List.mem_singleton.mpr rfl))
  have hinv : LogInv law t.db := by
    rw [hdb]
    refine ⟨hI.inv.steps.record (hx ▸ hcur) hnext ?_ (hid.trans hx.symm) hedit.incident hcount hcall,
      ⟨hI.inv.resolutions.ids, hI.inv.resolutions.bounded, hI.inv.resolutions.context⟩⟩
    rw [hincident, hx, hsent.log]
    exact hgood
  have hgrows : LogGrows s.db t.db := by
    refine .of_record hI.inv.steps (hx ▸ hcur) (by rw [hdb]; rfl) (fun y row hrow => ?_)
      fun i _ => by rw [hdb]; exact .refl i _
    have hrow' : (s.db.apply (.insertStep record)).execution? y = some row := hrow
    rw [hdb, Database.execution?_apply_update, hrow', Option.map_some]
    refine ⟨_, rfl, ?_⟩
    split
    · rw [Execution.merge, hedit.incident, put_unedited]
    · rfl
  have hlog : t.db.stepsOf x = st.steps ++ [record] := by
    rw [hdb, ← hsent.log]
    exact (Database.stepsOf_insert record x).trans (by rw [if_pos hx])
  have hrow := hgrows.rows x cur hcur
  rw [hincident] at hrow
  refine ⟨hI.record hL hinv hnext hfree (by rw [hdb]; rfl) hstaged, hgrows, ?_, hrow, hholds⟩
  exact (hlog.trans hst.symm) ▸ List.prefix_rfl

omit [DecidableEq W] in
/-- A commit that had no effect. -/
theorem LogState.lost (h : LogState law s) (hdb : t.db = s.db) (hstaged : t.staged = s.staged) :
    LogState law t ∧ LogGrows s.db t.db :=
  ⟨h.same_db hdb fun _ _ hr => hstaged ▸ hr, hdb ▸ .refl _⟩

/-- **A step is sent** under the next number of the log. -/
theorem sendStep_safe {x : Uuid} {i : Int} {st : LoopState} {record : AgentStep}
    (hs : Remembers law w x i st s) (hx : record.executionId = x)
    (hnumber : record.stepNumber = st.steps.length + 1) :
    (flush [.insertStep record]).Safe (stepLog law env W).discipline w
      (fun _ t => Sent law w x i st record t) (fun _ _ => True) s := by
  refine safe_bind.mpr (Protocol.safe_issue fun t hf hg _ hI r hp => ?_)
  have hknows := hs.2.grows hg
  have hnone : t.staged w = [] := hf.staged.trans hs.1
  rcases r with e | _
  · exact ⟨hI, fun _ _ => .refl t.db, trivial, trivial⟩
  obtain ⟨-, hadmits, -⟩ := hp
  rw [hnone, List.nil_append, Database.admitsAll, Bool.and_eq_true] at hadmits
  obtain ⟨hnext, hlog⟩ := hknows.next_of_admits hI.inv.steps hx hnumber hadmits.1
  refine ⟨⟨hI.inv, fun v r hr => ?_⟩, fun _ _ => .refl t.db, trivial,
    by simp [after, hnone], hknows, hlog⟩
  by_cases hv : v = w
  · subst hv
    have hr' : r = record := by simpa [after, hnone] using hr
    rw [hr', hx]
    exact hnext
  · exact hI.next v r (by simpa [after, Function.update_of_ne hv] using hr)

/-- **A step is recorded**: it gets the next number of the log, and the execution counts it. -/
theorem recordStep_safe {x : Uuid} {i : Int} {st st' : LoopState} {record : AgentStep}
    {txn : Transaction} {edit : Execution → Timestamp → Execution}
    (hs : Remembers law w x i st s) (htxn : txn ≠ .final) (hx : record.executionId = x)
    (hnumber : record.stepNumber = st.steps.length + 1)
    (hedit : ∀ l time, Counts record l (edit l time)) (hgood : law.Good i (st.steps ++ [record]))
    (hst : st'.steps = st.steps ++ [record]) (hholds : law.Holds i st') :
    (recordStep x (st.steps.length + 1) txn record edit).Safe (stepLog law env W).discipline w
      (fun r t => r = record ∧ Remembers law w x i st' t) (fun _ t => t.staged w = []) s := by
  refine (session_learns (K := fun r db => r = record ∧ Knows law x i st' db)
    (fun _ _ _ h hg => ⟨h.1, h.2.grows hg⟩) ?_).mono (fun r t ht => ⟨ht.2.1, ht.1, ht.2.2⟩)
      fun _ _ h => h
  refine safe_bind.mpr ((sendStep_safe hs hx hnumber).mono (fun _ t hsent => ?_) fun _ _ he => he)
  -- the execution that is read counts the log that the worker has in memory
  refine safe_bind.mpr (Protocol.safe_select (fun _ _ => trivial) (fun u hf hg hI => ?_)
    fun _ _ _ _ _ _ => trivial)
  have hsent := hsent.rely hx hnumber hf hg hI
  obtain ⟨l, hl, -⟩ := hsent.knows.row
  obtain ⟨hsteps, hcalls⟩ := hI.inv.steps.counted x l hl
  rw [hsent.log] at hsteps hcalls
  have hid := Database.execution?_id hl
  show Safe _ _ _ _ _ _
  rw [show u.db.eval (.execution x) = some l from hl]
  refine safe_bind.mpr (Protocol.safe_read (fun _ _ => rfl) fun u hf hg hI time _ =>
    ⟨trivial, ?_⟩)
  have hsent := hsent.rely hx hnumber hf hg hI
  refine safe_bind.mpr (safe_bind.mpr (Protocol.safe_issue fun u hf hg hL hI r hp => ?_))
  have hsent := hsent.rely hx hnumber hf hg hI
  have hguar : ∀ t, FinalGuarantee law (.commit txn [.updateExecution l (edit l time)]) u r t := by
    intro t
    cases txn <;> trivial
  rcases after_commit hp with ⟨-, -, hdb, hstaged⟩ | ⟨hlost, hdb, hstaged⟩
  · obtain ⟨hI', hgrows, hknows⟩ := hsent.commit hL hI hx hnumber hid hsteps hcalls (hedit l time)
      hgood hst hholds hdb hstaged
    refine ⟨hI', fun _ _ => hgrows, hguar _, safe_answer.mpr ⟨fun _ _ => ?_, fun _ _ => trivial⟩⟩
    -- the row that is read back is the step
    refine safe_bind.mpr (Protocol.safe_select (fun _ _ => trivial) (fun u _ hg hI => ?_)
      fun _ _ _ _ _ _ => trivial)
    have hknows := hknows.grows hg
    have hstep := step?_of_prefix hI.inv.steps (hst ▸ hknows.log)
    show Safe _ _ _ _ _ _
    rw [show u.db.eval (.step x (st.steps.length + 1)) = some record from hstep]
    exact ⟨rfl, hknows⟩
  · obtain ⟨hI', hgrows⟩ := hI.lost hdb hstaged
    refine ⟨hI', fun _ _ => hgrows, hguar _, ?_⟩
    cases r with
    | committed => exact absurd trivial hlost
    | failed e applied => exact trivial

/-! ## Storing the final response -/

/-- What was read when the worker's memory was part of the log as it was then. -/
def Read (law : LogLaw) (x : Uuid) (i : Int) (st : LoopState) (P : Database → Prop)
    (db : Database) : Prop :=
  ∃ seen, LogInv law seen ∧ Knows law x i st seen ∧ P seen ∧ LogGrows seen db

theorem Read.grows {x : Uuid} {i : Int} {st : LoopState} {P : Database → Prop} {db db' : Database}
    (h : Read law x i st P db) (hg : LogGrows db db') : Read law x i st P db' := by
  obtain ⟨seen, hinv, hknows, hP, hgrows⟩ := h
  exact ⟨seen, hinv, hknows, hP, hgrows.trans hg⟩

/-- Where the memory is the whole log, it was the whole log when the rows were read. -/
theorem Read.log {x : Uuid} {i : Int} {st : LoopState} {P : Database → Prop} {db : Database}
    (h : Read law x i st P db) (hlog : db.stepsOf x = st.steps) :
    ∃ seen, LogInv law seen ∧ P seen ∧ LogGrows seen db ∧ seen.stepsOf x = st.steps ∧
      ∃ row, seen.execution? x = some row ∧ row.incidentId = i := by
  obtain ⟨seen, hinv, hknows, hP, hgrows⟩ := h
  refine ⟨seen, hinv, hP, hgrows, (hknows.log.eq_of_length_le ?_).symm, hknows.row⟩
  rw [← hlog]
  exact (hgrows.logs x).length_le

omit [Runtime] [Pydantic] in
theorem ContentKept.update {db : Database} {l e : Resolution} {i : Int}
    (hincident : e.incidentId = l.incidentId) (hid : ∀ r ∈ db.resolutions, r.incidentId = i → r.id ≠ l.id) :
    ContentKept i db (db.apply (.updateResolution l e)) := by
  intro r hr
  refine ⟨r, ?_, rfl, rfl⟩
  have hri : r.incidentId = i := by simpa using List.find?_some hr
  rw [Database.resolutionOf_update hincident, hr, Option.map_some,
    if_neg (hid r (List.mem_of_find?_eq_some hr) hri)]

/-- **The commit of a final response** that took effect. -/
theorem final_effective {wf : ControlledAgentWorkflow} (hwf : law.Allows wf) {x : Uuid}
    {i : Int} {st : LoopState} {decision : PlannerDecision} {final : AgentFinalResponse}
    {context : List Json} {l : Execution} {r : Resolution} {time : Timestamp}
    (hcall : FinalCall wf st final) (hcontext : retrievedContext st.results = .ok context)
    (hknows : Knows law x i st s.db) (hL : s.Locked) (hI : LogState law s)
    (hl : Read law x i st (fun seen => seen.execution? x = some l) s.db)
    (hr : Read law x i st (fun seen => seen.resolutionOf i = some r) s.db)
    (hnone : s.staged w = [])
    (haccepts : Environment.Accepts s w
      [.insertStep (finalStepRecord x (st.steps.length + 1) decision final
          (evidenceReferences st.results)),
        .updateResolution r (wf.completedResolution r final context time),
        .updateExecution l (completedExecution l (st.steps.length + 1) time)])
    (hdb : t.db = s.db.applyAll
      [.insertStep (finalStepRecord x (st.steps.length + 1) decision final
          (evidenceReferences st.results)),
        .updateResolution r (wf.completedResolution r final context time),
        .updateExecution l (completedExecution l (st.steps.length + 1) time)])
    (hstaged : t.staged = Function.update s.staged w []) :
    LogState law t ∧ LogGrows s.db t.db ∧ FinalCommit law x i st final
      (finalStepRecord x (st.steps.length + 1) decision final (evidenceReferences st.results))
      s.db t.db := by
  have hgood := law.final wf i x st decision final hwf hknows.holds hcall
  generalize hrecord : finalStepRecord x (st.steps.length + 1) decision final
    (evidenceReferences st.results) = record at *
  have hx : record.executionId = x := by rw [← hrecord]; rfl
  have hnumber : record.stepNumber = st.steps.length + 1 := by rw [← hrecord]; rfl
  have hcompleted : record.outcome = .completed := by rw [← hrecord]; rfl
  -- the number of the step is free, so what is in memory is the whole log
  obtain ⟨hwrite, hadmits, -⟩ := haccepts
  rw [hnone, List.nil_append, Database.admitsAll, Bool.and_eq_true] at hadmits
  obtain ⟨hnext, hlog⟩ := hknows.next_of_admits hI.inv.steps hx hnumber hadmits.1
  obtain ⟨cur, hcur, hincident⟩ := hknows.row
  obtain ⟨hsteps', hcalls'⟩ := hI.inv.steps.counted x cur hcur
  rw [hlog] at hsteps' hcalls'
  obtain ⟨seen, hseen, hl, -, hlog', -⟩ := hl.log hlog
  obtain ⟨hsteps, hcalls⟩ := hseen.steps.counted x l hl
  rw [hlog'] at hsteps hcalls
  have hid := Database.execution?_id hl
  obtain ⟨seen', hseen', hr, hgrows', hlog'', row, hrow, hrowi⟩ := hr.log hlog
  obtain ⟨r', hr', hrid, hrcontent⟩ := hrowi ▸ hgrows'.content x row hrow (hlog.trans hlog''.symm) r
    (hrowi.symm ▸ hr)
  have hcounts : Counts record l (completedExecution l (st.steps.length + 1) time) := by
    refine ⟨rfl, hnumber.symm, ?_⟩
    rw [← hrecord, finalStepRecord_calls]
    rfl
  obtain ⟨hcount, hcalled⟩ := hcounts.merge (hsteps.trans hsteps'.symm) (hcalls.trans hcalls'.symm)
  have hinv : LogInv law t.db := by
    constructor
    · refine (hI.inv.steps.record (hx ▸ hcur) (hx ▸ hnext) ?_ (hid.trans hx.symm) hcounts.incident hcount
        hcalled).congr (by rw [hdb]; rfl) (by rw [hdb]; rfl)
      rw [hincident, hx, hlog]
      exact hgood
    · have hupdate := hI.inv.resolutions.update (l := r)
        (e := wf.completedResolution r final context time) fun hg => .inr
          (law.context i st context hg hknows.holds hcontext)
      rw [hdb]
      exact ⟨hupdate.ids, hupdate.bounded, hupdate.context⟩
  have hkept : (wf.completedResolution r final context time).incidentId = r.incidentId := rfl
  have hresolutions : ∀ j, t.db.resolutionOf j = (s.db.apply (.updateResolution r
      (wf.completedResolution r final context time))).resolutionOf j := fun j => by rw [hdb]; rfl
  have hgrows : LogGrows s.db t.db := by
    refine .of_record hI.inv.steps (hx ▸ hcur) (by rw [hdb]; rfl) (fun y row hrow => ?_)
      fun j hj => ?_
    · have hrow' : ((s.db.apply (.insertStep record)).apply (.updateResolution r
        (wf.completedResolution r final context time))).execution? y = some row := hrow
      rw [hdb, Database.applyAll_cons, Database.applyAll_cons, Database.applyAll_cons,
        Database.applyAll_nil, Database.execution?_apply_update, hrow', Option.map_some]
      refine ⟨_, rfl, ?_⟩
      split
      · exact put_unedited _ _
      · rfl
    · intro q hq
      rw [hresolutions]
      refine ContentKept.update hkept (fun q hq hqj hqid => hj ?_) q hq
      -- a resolution under the identifier is that of the incident
      have hmem := List.mem_of_find?_eq_some hr'
      have heq := List.inj_on_of_nodup_map hI.inv.resolutions.ids hq hmem (hqid.trans hrid.symm)
      have hi : r'.incidentId = i := by simpa using List.find?_some hr'
      rw [← hqj, heq, hi, hincident]
  have hlogged : t.db.stepsOf x = st.steps ++ [record] := by
    rw [hdb, ← hlog]
    exact (Database.stepsOf_insert record x).trans (by rw [if_pos hx])
  refine ⟨hI.record hL hinv (hx ▸ hnext) (hwrite _ List.mem_cons_self _
    (List.mem_singleton.mpr rfl)) (by rw [hdb]; rfl) hstaged, hgrows, hknows.holds, hcall.complete,
    hcall.validated, ?_, hlog, ⟨hx, hcompleted⟩, hlogged, context, ?_⟩
  · obtain ⟨row', hrow', hi⟩ := hgrows.rows x cur hcur
    exact ⟨row', hrow', hi.trans hincident⟩
  · refine ⟨r.merge (wf.completedResolution r final context time) r', hcontext, ?_, ?_⟩
    · rw [hresolutions, Database.resolutionOf_update hkept, hr', Option.map_some, if_pos hrid]
    · exact Resolution.content_edited hrcontent

/-- **A final response is stored.** -/
theorem persistFinal_safe {wf : ControlledAgentWorkflow} (hwf : law.Allows wf) {x : Uuid}
    {event : IncidentCreatedEvent} {st : LoopState} {decision : PlannerDecision}
    {final : AgentFinalResponse} (hcall : FinalCall wf st final)
    (hs : Remembers law w x event.incidentId st s) :
    (wf.persistFinal x event decision final st.steps st.results).Safe (stepLog law env W).discipline w
      (fun _ _ => True) (fun _ t => t.staged w = []) s := by
  refine safe_bind.mpr (Protocol.safe_read (fun _ _ => rfl) fun t hf hg hI time _ =>
    ⟨trivial, ?_⟩)
  have hnone : t.staged w = [] := hf.staged.trans hs.1
  have hknows := hs.2.grows hg
  refine safe_bind.mpr (safe_answer.mpr ⟨fun context hcontext => ?_, fun _ _ => hnone⟩)
  refine (session_learns (K := fun _ _ => True) (fun _ _ _ h _ => h) ?_).mono
    (fun _ _ _ => trivial) fun _ _ h => h
  refine safe_bind.mpr (Protocol.safe_select (fun _ _ => trivial) (fun t hf hg hI => ?_)
    fun _ _ _ _ _ _ => trivial)
  have hnone : t.staged w = [] := hf.staged.trans hnone
  have hknows := hknows.grows hg
  have hl : ∀ l, t.db.eval (.execution x) = some l →
      Read law x event.incidentId st (fun seen => seen.execution? x = some l) t.db := fun l hl =>
    ⟨t.db, hI.inv, hknows, hl, .refl t.db⟩
  generalize t.db.eval (.execution x) = found at *
  refine safe_bind.mpr (Protocol.safe_select (fun _ _ => trivial) (fun u hf hg hI => ?_)
    fun _ _ _ _ _ _ => trivial)
  have hnone : u.staged w = [] := hf.staged.trans hnone
  have hknows := hknows.grows hg
  have hl := fun l h => (hl l h).grows hg
  have hr : ∀ r, u.db.eval (.resolutionOf event.incidentId) = some r →
      Read law x event.incidentId st
        (fun seen => seen.resolutionOf event.incidentId = some r) u.db := fun r hr =>
    ⟨u.db, hI.inv, hknows, hr, .refl u.db⟩
  generalize u.db.eval (.resolutionOf event.incidentId) = resolution at *
  rcases found with _ | l
  · exact trivial
  rcases resolution with _ | r
  · exact trivial
  refine safe_bind.mpr (Protocol.safe_issue fun u hf hg hL hI report hp => ?_)
  have hnone : u.staged w = [] := hf.staged.trans hnone
  have hknows := hknows.grows hg
  rcases after_commit hp with ⟨heffective, hc, hdb, hstaged⟩ | ⟨hlost, hdb, hstaged⟩
  · rw [hnone, List.nil_append] at hdb
    obtain ⟨hI', hgrows, hfinal⟩ := final_effective hwf hcall hcontext hknows hL hI
      ((hl l rfl).grows hg) ((hr r rfl).grows hg) hnone hc hdb hstaged
    refine ⟨hI', fun _ _ => hgrows,
      fun _ => ⟨x, event.incidentId, st, final, _, List.mem_cons_self, hfinal⟩, ?_⟩
    exact safe_answer.mpr ⟨fun _ _ => trivial, fun _ _ => trivial⟩
  · obtain ⟨hI', hgrows⟩ := hI.lost hdb hstaged
    refine ⟨hI', fun _ _ => hgrows, fun h => absurd h hlost, ?_⟩
    exact safe_answer.mpr ⟨fun _ _ => trivial, fun _ _ => trivial⟩

/-! ## Claims and failures -/

omit [Runtime] [Pydantic] in
theorem quiet_singleton {c : Change} (h : c.Quiet) : ∀ d ∈ [c], d.Quiet :=
  fun _ hd => List.mem_singleton.mp hd ▸ h

/-- Sending quiet changes. -/
theorem LogState.send (h : LogState law s) {cs : List Change} (hcs : ∀ c ∈ cs, c.Quiet)
    (hdb : t.db = s.db) (hstaged : t.staged = Function.update s.staged w (s.staged w ++ cs)) :
    LogState law t := by
  refine h.same_db hdb fun v r hr => ?_
  rw [hstaged] at hr
  by_cases hv : v = w
  · subst hv
    rw [Function.update_self] at hr
    exact (List.mem_append.mp hr).resolve_right fun hr => hcs _ hr
  · rwa [Function.update_of_ne hv] at hr

/-- The second half of a claim, whose execution is there when it has taken effect. -/
theorem claimWith_safe {wf : ControlledAgentWorkflow} {event : IncidentCreatedEvent}
    {time : Timestamp} {execution : Change} {x : Uuid} (hs : s.staged w = [])
    (hq : execution.Quiet) (hrow : ∀ db, LogGrows s.db db → db.admits execution = true →
      Belongs x event.incidentId (db.apply execution)) :
    (wf.claimWith event time execution).Safe (stepLog law env W).discipline w
      (fun _ t => Belongs x event.incidentId t.db) (fun _ _ => True) s := by
  have hqs := quiet_singleton hq
  refine safe_bind.mpr (safe_bind.mpr (Protocol.safe_issue fun t hf hg _ hI r hp => ?_))
  have hnone : t.staged w = [] := hf.staged.trans hs
  rcases r with e | _
  · exact ⟨hI, fun _ _ => .refl t.db, trivial, trivial⟩
  refine ⟨hI.send hqs rfl rfl, fun _ _ => .refl t.db, trivial, ?_⟩
  have hsent : (after w t (.flush [execution]) (.ok ())).staged w = [execution] := by
    simp [after, hnone]
  refine safe_bind.mpr (Protocol.safe_select (fun _ _ => trivial) (fun u hf hg' hI => ?_)
    fun _ _ _ _ _ _ => trivial)
  have hsent : u.staged w = [execution] := hf.staged.trans hsent
  have hg : LogGrows s.db u.db := hg.trans hg'
  -- the resolution is committed with it, whether it is new or not
  have hcommit : ∀ c : Change, c.Quiet →
      (commit .claim [c]).Safe (stepLog law env W).discipline w
        (fun _ t => Belongs x event.incidentId t.db) (fun _ _ => True) u := by
    intro c hc
    refine safe_bind.mpr (Protocol.safe_issue fun z hf hg' hL hI r hp => ?_)
    have hsent : z.staged w = [execution] := hf.staged.trans hsent
    have hqc := quiet_singleton hc
    obtain ⟨hI', hgrows⟩ := hI.quiet (hsent.symm ▸ hqs) hqc hp
    refine ⟨hI', fun _ _ => hgrows, trivial, ?_⟩
    refine safe_answer.mpr ⟨fun _ hok => ?_, fun _ _ => trivial⟩
    rcases after_commit hp with ⟨-, ha, hdb, -⟩ | ⟨hlost, -, -⟩
    · have hadmits := ha.2.1
      rw [hsent, List.singleton_append, Database.admitsAll, Bool.and_eq_true] at hadmits
      obtain ⟨hinv', -⟩ := quiet_apply hI.inv hq hadmits.1
      obtain ⟨-, hgrows', -⟩ := quiet_applyAll hinv' hqc hadmits.2
      rw [hdb, hsent]
      exact (hrow z.db (hg.trans hg') hadmits.1).grows hgrows'
    · cases r with
      | committed => exact absurd trivial hlost
      | failed e applied => cases hok
  split
  · exact hcommit _ rfl
  · exact hcommit _ ⟨rfl, rfl⟩

/-- **A claim** that is not over already has its execution. -/
theorem claim_safe {wf : ControlledAgentWorkflow} {event : IncidentCreatedEvent}
    (hs : s.staged w = []) :
    (wf.claim event).Safe (stepLog law env W).discipline w
      (fun out t => t.staged w = [] ∧ Belongs out.1 event.incidentId t.db)
      (fun _ t => t.staged w = []) s := by
  refine safe_bind.mpr (Protocol.safe_read (fun _ _ => rfl) fun t hf hg hI time _ =>
    ⟨trivial, ?_⟩)
  have hnone : t.staged w = [] := hf.staged.trans hs
  refine session_learns (K := fun (out : Uuid × Option ResolutionWorkflowOutcome) db =>
    Belongs out.1 event.incidentId db) (fun _ _ _ h hg => h.grows hg) ?_
  refine safe_bind.mpr (Protocol.safe_select (fun _ _ => trivial) (fun t hf hg hI => ?_)
    fun _ _ _ _ _ _ => trivial)
  have hnone : t.staged w = [] := hf.staged.trans hnone
  split
  · trivial
  refine safe_bind.mpr (safe_bind.mpr (Protocol.safe_issue fun t hf hg _ hI r hp => ?_))
  have hstaged : (after w t (.lockExecution event.incidentId) r).staged = t.staged := by
    rcases r with e | _ | row <;> rfl
  have hdb : (after w t (.lockExecution event.incidentId) r).db = t.db := by
    rcases r with e | _ | row <;> rfl
  have hnone : (after w t (.lockExecution event.incidentId) r).staged w = [] :=
    hstaged ▸ hf.staged.trans hnone
  obtain ⟨hI', hgrows⟩ := hI.lost hdb hstaged
  refine ⟨hI', fun _ _ => hgrows, trivial, safe_answer.mpr ⟨fun found hfound => ?_,
    fun _ _ => trivial⟩⟩
  have hread : found = t.db.executionOf event.incidentId := by
    subst hfound
    exact hp.1
  generalize after w t (.lockExecution event.incidentId) r = u at *
  cases found with
  | none =>
      refine safe_bind.mpr (Protocol.safe_read (fun _ _ => rfl) fun z hf _ _ executionId _ =>
        ⟨trivial, ?_⟩)
      have hnone : z.staged w = [] := hf.staged.trans hnone
      refine safe_bind.mpr (Protocol.safe_read (fun _ _ => rfl) fun z hf _ _ created _ =>
        ⟨trivial, ?_⟩)
      have hq : (Change.insertExecution (wf.newExecution event executionId time created)).Quiet :=
        ⟨rfl, rfl⟩
      refine safe_bind.mpr ((claimWith_safe (x := executionId) (hf.staged.trans hnone) hq
        fun db _ hadmits => ?_).mono (fun _ _ h => h) fun _ _ h => h)
      exact Belongs.new hadmits
  | some row =>
      have hmem : row ∈ t.db.executions := List.mem_of_find?_eq_some hread.symm
      have hi : row.incidentId = event.incidentId := by simpa using List.find?_some hread.symm
      have hclaimed : Belongs row.executionId event.incidentId u.db :=
        ⟨row, hdb ▸ Database.execution?_of_executionOf hI.inv.steps.executionIds hread.symm, hi⟩
      dsimp only
      split
      · exact hclaimed
      split
      · exact hclaimed
      have hq : (Change.updateExecution row (resumedExecution row time)).Quiet := ⟨rfl, rfl, rfl⟩
      refine safe_bind.mpr ((claimWith_safe (x := row.executionId) hnone hq
        fun db hg _ => ?_).mono (fun _ _ h => h) fun _ _ h => h)
      obtain ⟨cur, hcur, hcuri⟩ := hclaimed.grows hg
      refine ⟨row.merge (resumedExecution row time) cur, ?_, (put_unedited _ _).trans hcuri⟩
      exact Database.execution?_update hcur

/-- The calls that record a failure. -/
def QuietCall : Op → Prop
  | .now | .select _ | .closeSession => True
  | .flush cs => ∀ c ∈ cs, c.Quiet
  | .commit txn cs => txn ≠ .final ∧ ∀ c ∈ cs, c.Quiet
  | _ => False

/-- What is sent is quiet. -/
def QuietlyStaged (w : W) (s : World W) : Prop := ∀ c ∈ s.staged w, c.Quiet

theorem quietCall_logged {o : Op} (ho : QuietCall o) (hs : QuietlyStaged w s)
    (hI : LogState law s) {r : Resp o} (hp : permits env w s o r) :
    LogState law (after w s o r) ∧ LogGrows s.db (after w s o r).db ∧
      FinalGuarantee law o s r (after w s o r) ∧ QuietlyStaged w (after w s o r) := by
  cases o with
  | now => exact ⟨hI, .refl s.db, trivial, hs⟩
  | select query => exact ⟨hI, .refl s.db, trivial, hs⟩
  | closeSession =>
      refine ⟨hI.rollback w, .refl s.db, trivial, fun c hc => ?_⟩
      simp [after, World.rollback] at hc
  | flush cs =>
      rcases r with e | _
      · exact ⟨hI, .refl s.db, trivial, hs⟩
      · refine ⟨hI.send ho rfl rfl, .refl s.db, trivial, fun c hc => ?_⟩
        simp only [after, Function.update_self] at hc
        exact (List.mem_append.mp hc).elim (hs c) (ho c)
  | commit txn cs =>
      obtain ⟨hI', hgrows⟩ := hI.quiet hs ho.2 hp
      refine ⟨hI', hgrows, ?_, ?_⟩
      · have htxn := ho.1
        cases txn <;> trivial
      · rcases after_commit hp with ⟨-, -, -, hstaged⟩ | ⟨-, -, hstaged⟩
        · intro c hc
          rw [hstaged] at hc
          simp at hc
        · intro c hc
          rw [hstaged] at hc
          exact hs c hc
  | _ => exact ho.elim

/-- **Recording a failure** leaves the logs alone. -/
theorem quiet_safe {α : Type} {p : Py α} (hp : p.Only QuietCall) (hs : s.staged w = []) :
    p.Safe (stepLog law env W).discipline w (fun _ _ => True) (fun _ _ => True) s := by
  have hstart : QuietlyStaged w s := fun c hc => nomatch hs ▸ hc
  refine (Safe.of_only (P := QuietlyStaged w) hp ?_ hstart).mono (fun _ _ _ => trivial)
    fun _ _ _ => trivial
  rintro o ho s s₁ r s₂ hs ⟨hf, hg⟩ ⟨hL, hI⟩ ⟨-, hp, rfl⟩
  have hs₁ : QuietlyStaged w s₁ := fun c hc => hs c (hf.staged ▸ hc)
  obtain ⟨hI', hgrows, hguar, hquiet⟩ := quietCall_logged ho hs₁ hI hp
  exact ⟨⟨⟨after_locked hL hp, hI'⟩, fun v hv => ⟨after_frame hL hp hv, hgrows⟩, hguar⟩, hquiet⟩

section
omit [Runtime] [Pydantic]

theorem commit_quiet {txn : Transaction} {cs : List Change} (htxn : txn ≠ .final)
    (hcs : ∀ c ∈ cs, c.Quiet) : (commit txn cs).Only QuietCall :=
  Only.bind (only_ask.mpr ⟨htxn, hcs⟩) fun _ => only_answer _

theorem select_quiet (query : Query) : (select query).Only QuietCall :=
  Only.bind (only_ask.mpr trivial) fun _ => only_answer _

theorem recordFailure_quiet (wf : ControlledAgentWorkflow) (x : Uuid) (error : PyExc)
    (retryable : Bool) : (wf.recordFailure x error retryable).Only QuietCall := by
  refine Only.bind (only_ask.mpr trivial) fun time => Only.andFinally ?_ (only_ask.mpr trivial)
  refine Only.bind (select_quiet _) fun row => ?_
  cases row with
  | none => trivial
  | some execution =>
      refine Only.bind (Only.bind (only_ask.mpr (quiet_singleton ?_)) fun _ => only_answer _)
        fun _ => ?_
      · exact ⟨rfl, rfl, rfl⟩
      refine Only.bind (select_quiet _) fun resolution => ?_
      cases resolution with
      | none => exact Only.bind (commit_quiet (by decide) (List.forall_mem_nil _)) fun _ => trivial
      | some resolution =>
          refine Only.bind (commit_quiet (by decide) (quiet_singleton ?_)) fun _ => trivial
          exact ⟨rfl, rfl⟩

theorem recordTerminalFailure_quiet (wf : ControlledAgentWorkflow) (x : Uuid) (error : PyExc) :
    (wf.recordTerminalFailure x error).Only QuietCall := by
  refine Only.bind (Only.andFinally ?_ (only_ask.mpr trivial)) fun found => ?_
  · refine Only.bind (select_quiet _) fun row => ?_
    cases row with
    | none => trivial
    | some execution =>
        refine Only.bind (commit_quiet (by decide) (quiet_singleton ?_)) fun _ => trivial
        exact ⟨rfl, rfl, rfl⟩
  · split
    · exact Only.bind (recordFailure_quiet wf x error false) fun _ => trivial
    · trivial

end

omit [Runtime] [Pydantic] in
theorem onFailure_quiet (wf : ControlledAgentWorkflow) (x : Uuid) (exc : PyExc) :
    (wf.onFailure x exc).Only QuietCall := by
  unfold onFailure
  split
  · exact Only.bind (recordFailure_quiet wf x exc true) fun _ => trivial
  · split
    · refine Only.bind (recordFailure_quiet wf x exc false) fun terminal => ?_
      split <;> trivial
    · split
      · exact Only.bind (recordTerminalFailure_quiet wf x exc) fun _ => trivial
      · trivial

/-! ## The workflow -/

/-- The log is read back in the order of its numbers, which is that of its insertions. -/
theorem StepsInv.loadSteps {db : Database} (h : StepsInv law db) (x : Uuid) :
    db.loadSteps x = db.stepsOf x := by
  refine List.Pairwise.insertionSort_eq (List.pairwise_map.mp ?_)
  rw [h.numbered]
  exact List.pairwise_le_range' 1

/-- **Reading the log**: what is read is the beginning of the log from then on, and obeys the law. -/
theorem loadSteps_safe {x : Uuid} {i : Int} (hs : Belongs x i s.db) :
    (loadSteps x).Safe (stepLog law env W).discipline w
      (fun steps t => t.staged w = [] ∧ law.Good i steps ∧ steps <+: t.db.stepsOf x ∧
        Belongs x i t.db) (fun _ t => t.staged w = []) s := by
  refine session_learns (K := fun steps db => law.Good i steps ∧ steps <+: db.stepsOf x ∧
    Belongs x i db) (fun steps db db' h hg => ⟨h.1, h.2.1.trans (hg.logs x), h.2.2.grows hg⟩) ?_
  refine Protocol.safe_select (fun _ _ => trivial) (fun t hf hg hI => ?_) fun _ _ _ _ _ _ => trivial
  have hrow := hs.grows hg
  have hread : t.db.eval (.steps x) = t.db.stepsOf x := hI.inv.steps.loadSteps x
  rw [hread]
  refine ⟨?_, List.prefix_rfl, hrow⟩
  obtain ⟨row, hrow, hi⟩ := hrow
  exact hi ▸ hI.inv.steps.good x row hrow

/-- **A succeeded tool call is recorded.** -/
theorem persistToolStep_safe {wf : ControlledAgentWorkflow} (hwf : law.Allows wf) {x : Uuid}
    {event : IncidentCreatedEvent} {st : LoopState} {decision : PlannerDecision}
    {request : ToolRequest} {result : ToolResult}
    (hcall : ToolCall wf event law.grounded st decision request result)
    (hs : Remembers law w x event.incidentId st s) :
    (persistToolStep x (st.steps.length + 1) decision request result).Safe
      (stepLog law env W).discipline w
      (fun record => Remembers law w x event.incidentId (LoopState.record st record result
        (signature request.toolName.1 (.obj request.arguments)))) (fun _ t => t.staged w = []) s := by
  obtain ⟨hgood, hholds⟩ := law.tool wf event x st decision request result hwf hs.2.holds hcall
  have hcounts : ∀ l time, Counts (toolStepRecord x (st.steps.length + 1) decision request result) l
      (afterToolStep l (st.steps.length + 1) request result time) := fun _ _ => ⟨rfl, rfl, rfl⟩
  have htxn : Transaction.toolStep ≠ .final := by decide
  rw [persistToolStep_eq]
  refine (recordStep_safe hs htxn rfl rfl hcounts hgood rfl hholds).mono (fun record t ht => ?_)
    fun _ _ h => h
  rw [ht.1]
  exact ht.2

/-- **A rejected decision is recorded.** -/
theorem persistRejectedStep_safe {wf : ControlledAgentWorkflow} (hwf : law.Allows wf)
    {x : Uuid} {i : Int} {st : LoopState} {decision : PlannerDecision}
    {request : Option ToolRequest} {outcome : StepOutcome} (hr : Rejection wf st outcome)
    (hs : Remembers law w x i st s) :
    (persistRejectedStep x (st.steps.length + 1) decision request outcome).Safe
      (stepLog law env W).discipline w
      (fun record => Remembers law w x i { st with steps := st.steps ++ [record] })
      (fun _ t => t.staged w = []) s := by
  obtain ⟨hgood, hholds⟩ := law.rejected wf i x st decision request outcome hwf hs.2.holds hr
  have hcounts : ∀ l time,
      Counts (rejectedStepRecord x (st.steps.length + 1) decision request outcome) l
        (afterRejectedStep l (st.steps.length + 1) time) := by
    refine fun l _ => ⟨rfl, rfl, ?_⟩
    rw [rejectedStepRecord_calls _ _ _ _ hr.outcome.1]
    rfl
  have htxn : Transaction.rejectedStep ≠ .final := by decide
  rw [persistRejectedStep_eq]
  refine (recordStep_safe hs htxn rfl rfl hcounts hgood rfl hholds).mono (fun record t ht => ?_)
    fun _ _ h => h
  rw [ht.1]
  exact ht.2

/-- **The planning loop** keeps the law. -/
theorem logged_loop {wf : ControlledAgentWorkflow} (hwf : law.Allows wf)
    (hcorpus : law.grounded → ∀ c, env.corpus c = true → ManifestId c.sourceId) (x : Uuid)
    (event : IncidentCreatedEvent) :
    LoopRule (stepLog law env W).discipline w wf x event (LogAnswers law env W) (fun _ => True)
      (fun _ => True) law.grounded (Remembers law w x event.incidentId) (fun _ => True)
      (fun _ t => t.staged w = []) where
  assumes := log_assumed hcorpus
  routine := by
    rintro st o ho s s₁ r s₂ hs ⟨hf, hg⟩ ⟨hL, hI⟩ ⟨-, hp, rfl⟩
    have hs₁ : Remembers law w x event.incidentId st s₁ :=
      ⟨hf.staged.trans hs.1, hs.2.grows hg⟩
    obtain ⟨hI', hgrows, hguar, hs₂⟩ := routine_logged ho hs₁ hI hp
    exact ⟨⟨⟨after_locked hL hp, hI'⟩, fun v hv => ⟨after_frame hL hp hv, hgrows⟩, hguar⟩,
      ⟨w, s₁, hp, hI.inv⟩, hs₂⟩
  frame st s repairCount lastError hs := ⟨hs.1, hs.2.log, hs.2.row,
    law.frame _ st repairCount lastError hs.2.holds⟩
  raises _ _ _ hs _ := hs.1
  toolStep st s decision request result hs hcall := persistToolStep_safe hwf hcall hs
  rejectedStep st s decision request outcome hs hr := persistRejectedStep_safe hwf hr hs
  final st s decision final hs hcall := persistFinal_safe hwf hcall hs

/-- **A worker** keeps the law of the log. -/
theorem resolve_safe {wf : ControlledAgentWorkflow} (hwf : law.Allows wf)
    (hcorpus : law.grounded → ∀ c, env.corpus c = true → ManifestId c.sourceId)
    (event : IncidentCreatedEvent) (hs : s.staged w = []) :
    (wf.resolve event).Safe (stepLog law env W).discipline w (fun _ _ => True)
      (fun _ _ => True) s := by
  refine safe_bind.mpr ((claim_safe hs).mono (fun out t ht => ?_) fun _ _ _ => trivial)
  obtain ⟨x, terminal⟩ := out
  obtain ⟨hnone, hrow⟩ := ht
  cases terminal with
  | some outcome => trivial
  | none =>
      refine safe_bind.mpr (Protocol.safe_read (fun _ _ => rfl) fun t hf hg _ started _ =>
        ⟨trivial, ?_⟩)
      have hnone : t.staged w = [] := hf.staged.trans hnone
      refine safe_tryCatch.mpr (Safe.mono (Q := fun _ _ => True) (X := fun _ t => t.staged w = []) ?_
        (fun _ _ _ => trivial) fun e u hu => quiet_safe (onFailure_quiet wf x e) hu)
      refine safe_bind.mpr ((loadSteps_safe (hrow.grows hg)).mono (fun steps u hu => ?_)
        fun _ _ h => h)
      obtain ⟨hnone, hgood, hlog, hrow⟩ := hu
      refine safe_bind.mpr (safe_answer.mpr ⟨fun results hresults => ?_, fun _ _ => hnone⟩)
      have hremembers : Remembers law w x event.incidentId (initialState steps results) u :=
        ⟨hnone, hlog, hrow, law.restored _ steps results hgood hresults⟩
      exact ((logged_loop hwf hcorpus x event).loop_of_log started hremembers).mono
        (fun _ _ _ => trivial) fun _ _ h => h

/-! ## Runs -/

/-- Before the first attempt at any event: no executions, no logs, no transaction open. -/
structure LogStart (s : World W) : Prop where
  executions : s.db.executions = []
  steps : s.db.steps = []
  resolutions : s.db.resolutions = []
  idle : ∀ w, s.staged w = []

theorem LogStart.inv (h : LogStart s) : (stepLog law env W).discipline.inv s := by
  have hnone : ∀ x, s.db.execution? x = none := fun x => by rw [Database.execution?, h.executions]; rfl
  have hempty : ∀ x, s.db.stepsOf x = [] := fun x => by rw [Database.stepsOf, h.steps]; rfl
  refine ⟨fun w c hc => by simp [h.idle] at hc, ⟨⟨?_, ?_, fun x => ?_, fun x _ => hempty x,
    fun x row hx => ?_, fun x row hx => ?_⟩, ?_, ?_, ?_⟩, fun w r hr => by simp [h.idle] at hr⟩
  · simp [h.executions]
  · simp [h.executions]
  · simp [hempty]
  · simp [hnone] at hx
  · simp [hnone] at hx
  · simp [h.resolutions]
  · simp [h.resolutions]
  · simp [h.resolutions]

section
variable {wfs : W → ControlledAgentWorkflow} {events : W → IncidentCreatedEvent}
  (hwfs : ∀ w, law.Allows (wfs w))
  (hcorpus : law.grounded → ∀ c, env.corpus c = true → ManifestId c.sourceId) (hs : LogStart s)
  {p p' : Pool Resp PyExc ResolutionWorkflowOutcome W (World W)}
  (hp : Pool.Reachable (platform env) (fun w => (wfs w).resolve (events w)) s p)
include hwfs hcorpus hs hp

/-- **The law holds in every reachable state**, whatever the workers do and wherever they crash. -/
theorem reachable_logged : LogState law p.world :=
  (hp.unrestricted.inv (d := (stepLog law env W).discipline) hs.inv fun w =>
    resolve_safe (hwfs w) hcorpus (events w) (hs.idle w)).2

/-- **Every final response that is stored** is stored with the whole log. -/
theorem reachable_final {w : W} {cs : List Change} {r : CommitReport}
    (hstep : Pool.Step (platform env) p (.act w (.commit .final cs) r) p') (hr : r.Effective) :
    ∃ x i st final record, Change.insertStep record ∈ cs ∧
      FinalCommit law x i st final record p.world.db p'.world.db :=
  (hp.unrestricted.guar (d := (stepLog law env W).discipline) hs.inv (fun w =>
    resolve_safe (hwfs w) hcorpus (events w) (hs.idle w)) hstep.unrestricted).2 hr

end

end

end SupportPlatform

