import SupportPlatform.World

/-! # Replaying schedules

A schedule says who makes the next call and how it is answered.  `replay` runs a pool
along a schedule and stops at an answer that the call cannot get, so what it reaches is
reachable (`Pool.Reachable.replay`); concrete runs are evaluated with it.
-/
namespace SupportPlatform
open Program

/-- One entry of a schedule: `w` makes its next `n` calls, answered by `answer`, or crashes. -/
inductive Turn {Op : Type} (Resp : Op → Type) (W S : Type)
  | calls (w : W) (n : Nat) (answer : (o : Op) → S → Resp o)
  | crash (w : W)

section
variable {Op : Type} {Resp : Op → Type} {ε α W S : Type} [DecidableEq W]

/-- What it takes to run a system: which answers a call can get, decidably, and the state
after an answer. -/
structure Runnable {Op : Type} (Resp : Op → Type) (W S : Type) where
  permits : W → S → (o : Op) → Resp o → Bool
  after : W → S → (o : Op) → Resp o → S
  abort : W → S → S

/-- The system that is run. -/
def Runnable.system (R : Runnable Resp W S) : System Resp W S where
  act w o s r s' := R.permits w s o r = true ∧ s' = R.after w s o r
  abort := R.abort

namespace Pool
variable (R : Runnable Resp W S)

/-- `n` calls of `w`. -/
def replayCalls (w : W) (answer : (o : Op) → S → Resp o) :
    Nat → Pool Resp ε α W S → Option (Pool Resp ε α W S)
  | 0, p => some p
  | n + 1, p =>
      match p.task w with
      | some (.call o k) =>
          if R.permits w p.world o (answer o p.world) then
            replayCalls w answer n ⟨R.after w p.world o (answer o p.world),
              Function.update p.task w (some (k (answer o p.world)))⟩
          else none
      | _ => none

/-- The pool after a schedule, if every answer in it can be got. -/
def replay : List (Turn Resp W S) → Pool Resp ε α W S → Option (Pool Resp ε α W S)
  | [], p => some p
  | .calls w n answer :: turns, p => (replayCalls R w answer n p).bind (replay turns)
  | .crash w :: turns, p =>
      match p.task w with
      | some _ => replay turns ⟨R.abort w p.world, Function.update p.task w none⟩
      | none => none

variable {R}

theorem replayCalls_run {w : W} {answer : (o : Op) → S → Resp o} (n : Nat)
    {p q : Pool Resp ε α W S} (h : replayCalls R w answer n p = some q) :
    Relation.ReflTransGen (Next R.system) p q := by
  induction n generalizing p with
  | zero =>
      cases h
      exact .refl
  | succ n ih =>
      rw [replayCalls] at h
      split at h
      · rename_i o k ht
        split at h
        · rename_i hperm
          exact .head ⟨_, Step.act ht ⟨hperm, rfl⟩⟩ (ih h)
        · cases h
      · cases h

/-- **What a replay reaches is reached by a run.** -/
theorem replay_run {turns : List (Turn Resp W S)} {p q : Pool Resp ε α W S}
    (h : replay R turns p = some q) : Relation.ReflTransGen (Next R.system) p q := by
  induction turns generalizing p with
  | nil =>
      cases h
      exact .refl
  | cons turn turns ih =>
      cases turn with
      | calls w n answer =>
          obtain ⟨t, ht, hq⟩ := Option.bind_eq_some_iff.mp h
          exact (replayCalls_run n ht).trans (ih hq)
      | crash w =>
          rw [replay] at h
          split at h
          · rename_i rest ht
            exact .head ⟨_, Step.crash ht⟩ (ih h)
          · cases h

/-- A run along a schedule, and a run from there along a later one, that end in two pools with a
decidable property. -/
theorem exists_replays {main : W → Program Resp ε α} {s : S} {turns later : List (Turn Resp W S)}
    {P : Pool Resp ε α W S → Pool Resp ε α W S → Bool}
    (h : (replay R turns ⟨s, fun w => some (main w)⟩).any
      (fun p => (replay R later p).any (P p)) = true) :
    ∃ p q, Reachable R.system main s p ∧ Relation.ReflTransGen (Next R.system) p q ∧
      P p q = true := by
  obtain ⟨p, hp, hlater⟩ := (Option.any_eq_true _ _).mp h
  obtain ⟨q, hq, hP⟩ := (Option.any_eq_true _ _).mp hlater
  exact ⟨p, q, Reachable.init.run (replay_run hp), replay_run hq, hP⟩

/-- A run along a schedule that ends in a pool with a decidable property. -/
theorem exists_replay {main : W → Program Resp ε α} {s : S} {turns : List (Turn Resp W S)}
    {P : Pool Resp ε α W S → Bool}
    (h : (replay R turns ⟨s, fun w => some (main w)⟩).any P = true) :
    ∃ p, Reachable R.system main s p ∧ P p = true := by
  obtain ⟨p, hp, hP⟩ := (Option.any_eq_true P _).mp h
  exact ⟨p, Reachable.init.run (replay_run hp), hP⟩

end Pool

/-- A run of one program to its end, if every answer can be got. -/
def Runnable.run (R : Runnable Resp W S) (w : W) (answer : (o : Op) → S → Resp o) :
    Program Resp ε α → S → Option (Except ε α × S)
  | .ret a, s => some (.ok a, s)
  | .raise e, s => some (.error e, s)
  | .call o k, s =>
      if R.permits w s o (answer o s) then
        R.run w answer (k (answer o s)) (R.after w s o (answer o s))
      else none

omit [DecidableEq W] in
theorem Runnable.exec_of_run {R : Runnable Resp W S} {w : W} {answer : (o : Op) → S → Resp o}
    {p : Program Resp ε α} {s t : S} {out : Except ε α} (h : R.run w answer p s = some (out, t)) :
    Exec (R.system.act w) p s out t := by
  induction p generalizing s with
  | ret a =>
      cases h
      exact .ret a _
  | raise e =>
      cases h
      exact .raise e _
  | call o k ih =>
      rw [Runnable.run] at h
      split at h
      · rename_i hperm
        exact .call ⟨hperm, rfl⟩ (ih _ h)
      · cases h

end

/-! ## Runs of the platform -/

section
variable {W : Type} [DecidableEq W] (env : Environment)

omit [DecidableEq W] in
/-- Whether a statement that reads `v` can be answered so. -/
def decideAnswers {α : Type} [DecidableEq α] (v : α) (r : Except PyExc α) :
    Decidable (env.Answers v r) := inferInstance

omit [DecidableEq W] in
/-- Whether two renderings are the same. -/
def decideRendered (r r' : Except PyExc Text) : Decidable (r = r') := inferInstance

instance [Runtime] (w : W) (s : World W) : (o : Op) → DecidablePred (permits env w s o)
  | .now => fun (t : Timestamp) => inferInstanceAs (Decidable (Timestamp.InCalendar t))
  | .perfCounter since => fun (r : Rat) => inferInstanceAs (Decidable (∀ t ∈ since, t ≤ r))
  | .uuid4 | .closeSession | .subscribe _ | .stopRequested | .seek _ _ | .commitOffset _ _
  | .observe _ _ | .chat _ _ | .toolTimedOut => fun _ => isTrue trivial
  | .select query => decideAnswers env (s.db.eval query)
  | .lockExecution i => fun r =>
      have := decideAnswers env (s.db.executionOf i) r
      inferInstanceAs (Decidable (_ ∧ ∀ x ∈ (s.db.executionOf i).toList,
        s.Free w (.execution x.executionId)))
  | .getForDispatch id => decideAnswers env (s.dispatchable w id)
  | .flushIncident row => fun r => by
      cases r with
      | ok id => exact inferInstanceAs
          (Decidable ((id : Int) = s.incidentSeq + 1 ∧ (Change.insertIncident row).storable = true))
      | error e => exact inferInstanceAs (Decidable (env.Refuses s w [.insertIncident row] e))
  | .flush cs => fun r => by
      cases r with
      | ok _ => exact inferInstanceAs (Decidable (Environment.Accepts s w cs))
      | error e => exact inferInstanceAs (Decidable (env.Refuses s w cs e))
  | .commit _ cs => fun r => by
      cases r with
      | committed => exact inferInstanceAs (Decidable (Environment.Accepts s w cs))
      | failed e applied => exact inferInstanceAs
          (Decidable (applied = true ∧ env.Fault e ∧ Environment.Accepts s w cs ∨
            applied = false ∧ env.Refuses s w cs e))
  | .refreshFeedback row => fun r => by
      cases r with
      | ok x => exact inferInstanceAs
          (Decidable (x ∈ s.db.feedback ∧ { x with id := row.id } = row))
      | error e => exact inferInstanceAs (Decidable (env.Fault e))
  | .ensureTopic _ => fun r => by
      cases r with
      | ok _ => exact isTrue trivial
      | error e => exact inferInstanceAs (Decidable (e.cls = .eventPublishError))
  | .produce _ _ => fun r => by
      cases r with
      | undelivered remaining _ => exact inferInstanceAs (Decidable (0 < remaining))
      | _ => exact isTrue trivial
  | .poll => fun r => by
      rcases r with _ | _ | _ | m
      case ok.message => exact inferInstanceAs (Decidable ((s.log m.source)[m.offset]? = some m.value ∧
          (s.position w m.source = some m.offset ∨ s.committed m.source = m.offset)))
      all_goals exact isTrue trivial
  | .render template values => fun r => decideRendered r (template.render values)
  | .retrieve _ limit _ => fun r => by
      cases r with
      | ok chunks => exact inferInstanceAs (Decidable
          ((chunks : List RetrievedChunk).length ≤ limit ∧ ∀ c ∈ chunks, env.corpus c = true))
      | error _ => exact isTrue trivial

variable [Runtime] [Pydantic]

/-- The platform as it is run, every call under a condition. -/
def runnable (C : W → (o : Op) → World W → Resp o → Prop) [∀ w o s r, Decidable (C w o s r)] :
    Runnable Resp W (World W) where
  permits w s o r := decide (C w o s r ∧ permits env w s o r)
  after := after
  abort := World.crash

theorem runnable_system (C : W → (o : Op) → World W → Resp o → Prop)
    [∀ w o s r, Decidable (C w o s r)] :
    (runnable env C).system = (platform env).restrict C := by
  simp [Runnable.system, runnable, platform, System.restrict, and_assoc]

omit [Pydantic] in
/-- The answer of a call when nothing goes wrong and the clocks stand still. -/
def plainAnswer (w : W) : (o : Op) → World W → Resp o
  | .now, _ => (0 : Int)
  | .perfCounter since, _ => since.getD 0
  | .uuid4, _ => (0 : Uuid)
  | .select query, s => .ok (s.db.eval query)
  | .lockExecution i, s => .ok (s.db.executionOf i)
  | .getForDispatch id, s => .ok (s.dispatchable w id)
  | .flushIncident _, s => .ok (s.incidentSeq + 1)
  | .flush _, _ => .ok ()
  | .commit _ _, _ => .committed
  | .refreshFeedback row, s =>
      .ok ((s.db.feedback.find? fun x => decide ({ x with id := row.id } = row)).getD row)
  | .closeSession, _ => ()
  | .ensureTopic _, _ => .ok ()
  | .produce _ _, _ => .acknowledged 0
  | .subscribe _, _ => ()
  | .stopRequested, _ => false
  | .poll, _ => .ok .nothing
  | .seek _ _, _ => .ok ()
  | .commitOffset _ _, _ => .committed
  | .observe _ _, _ => ()
  | .render template values, _ => template.render values
  | .chat _ _, _ => .unreachable []
  | .retrieve _ _ _, _ => .ok []
  | .toolTimedOut, _ => false

/-- `n` calls of `w` with plain answers. -/
def plain (w : W) (n : Nat) : Turn Resp W (World W) := .calls w n (plainAnswer w)

/-- One call of `w`: a poll that finds the message. -/
def polls (w : W) (m : Message) : Turn Resp W (World W) := .calls w 1 fun o s =>
  match o with
  | .poll => .ok (.message m)
  | o => plainAnswer w o s

end

/-- The state before anything happened. -/
def World.blank {W : Type} : World W where
  db := ⟨[], [], [], [], [], [], []⟩
  locks _ := none
  staged _ := []
  incidentSeq := 0
  log _ := []
  committed _ := 0
  position _ _ := none
  hist := ⟨fun _ => 0, fun _ => 0, fun _ => none, [], fun _ _ => none⟩

section
variable [Runtime] [Pydantic] {W : Type} [DecidableEq W] (env : Environment) {α : Type}

/-- A run of the platform along a schedule, every call under a condition, that ends in a
pool with a decidable property. -/
theorem exists_run_within (C : W → (o : Op) → World W → Resp o → Prop)
    [∀ w o s r, Decidable (C w o s r)]
    (main : W → Py α) (s : World W) (P : Pool Resp PyExc α W (World W) → Bool)
    (turns : List (Turn Resp W (World W)))
    (h : (Pool.replay (runnable env C) turns ⟨s, fun w => some (main w)⟩).any P = true) :
    ∃ p, Pool.Reachable ((platform env).restrict C) main s p ∧ P p = true :=
  runnable_system (W := W) env C ▸ Pool.exists_replay h

/-- A run of the platform along a schedule. -/
theorem exists_run (main : W → Py α) (s : World W) (P : Pool Resp PyExc α W (World W) → Bool)
    (turns : List (Turn Resp W (World W)))
    (h : (Pool.replay (runnable env fun _ _ _ _ => True) turns
      ⟨s, fun w => some (main w)⟩).any P = true) :
    ∃ p, Pool.Reachable (platform env) main s p ∧ P p = true := by
  obtain ⟨p, hp, hP⟩ := exists_run_within env (fun _ _ _ _ => True) main s P turns h
  exact ⟨p, hp.of_restrict, hP⟩

/-- A run of the platform along a schedule, and a run from there along a later one. -/
theorem exists_runs (main : W → Py α) (s : World W)
    (P : Pool Resp PyExc α W (World W) → Pool Resp PyExc α W (World W) → Bool)
    (turns later : List (Turn Resp W (World W)))
    (h : (Pool.replay (runnable env fun _ _ _ _ => True) turns ⟨s, fun w => some (main w)⟩).any
      (fun p => (Pool.replay (runnable env fun _ _ _ _ => True) later p).any (P p)) = true) :
    ∃ p q, Pool.Reachable (platform env) main s p ∧
      Relation.ReflTransGen (Pool.Next (platform env)) p q ∧ P p q = true := by
  obtain ⟨p, q, hp, hq, hP⟩ := Pool.exists_replays h
  rw [runnable_system] at hp hq
  exact ⟨p, q, hp.of_restrict, Pool.Next.of_restrict hq, hP⟩

/-! ## Routine calls

Most of the time of a concrete run would go into checking that a read is answered by what is
read, and that a prompt is rendered as it is.  A schedule that answers such calls plainly needs
no check of them. -/

/-- A call that a plain answer always answers. -/
def routine : Op → Bool
  | .now | .perfCounter _ | .select _ | .getForDispatch _ | .render _ _ => true
  | _ => false

omit [Pydantic] in
theorem permits_routine {w : W} {s : World W} {o : Op} (h : routine o = true) :
    permits env w s o (plainAnswer w o s) := by
  cases o with
  | now => exact (by decide : Timestamp.InCalendar 0)
  | perfCounter since =>
      intro t ht
      obtain rfl : since = some t := ht
      exact Rat.le_refl
  | select query => rfl
  | getForDispatch id => rfl
  | render template values => rfl
  | _ => cases h

/-- The turn answers the routine calls plainly. -/
def Turn.Plain : Turn Resp W (World W) → Prop
  | .calls w _ answer => ∀ o s, routine o = true → answer o s = plainAnswer w o s
  | .crash _ => True

omit [Pydantic] in
@[simp] theorem plain_crash (w : W) : (Turn.crash w : Turn Resp W (World W)).Plain := trivial

/-- The platform as it is run, every call checked but the routine ones. -/
def routinely : Runnable Resp W (World W) where
  permits w s o r := routine o || decide (True ∧ permits env w s o r)
  after := after
  abort := World.crash

theorem replayCalls_routinely {w : W} {answer : (o : Op) → World W → Resp o} {n : Nat}
    (hplain : (Turn.calls w n answer).Plain) {p q : Pool Resp PyExc α W (World W)}
    (h : Pool.replayCalls (routinely env) w answer n p = some q) :
    Pool.replayCalls (runnable env fun _ _ _ _ => True) w answer n p = some q := by
  induction n generalizing p with
  | zero => exact h
  | succ n ih =>
      rw [Pool.replayCalls] at h ⊢
      split at h
      · rename_i o k ht
        split at h
        · rename_i hperm
          have hpermits : (runnable env fun _ _ _ _ => True).permits w p.world o
              (answer o p.world) = true := by
            rcases Bool.or_eq_true_iff.mp hperm with hroutine | hchecked
            · refine decide_eq_true ⟨trivial, ?_⟩
              rw [hplain o p.world hroutine]
              exact permits_routine env hroutine
            · exact hchecked
          rw [if_pos hpermits]
          exact ih hplain h
        · cases h
      · cases h

theorem replay_routinely {turns : List (Turn Resp W (World W))} (hplain : ∀ t ∈ turns, t.Plain)
    {p q : Pool Resp PyExc α W (World W)}
    (h : Pool.replay (routinely env) turns p = some q) :
    Pool.replay (runnable env fun _ _ _ _ => True) turns p = some q := by
  induction turns generalizing p with
  | nil => exact h
  | cons turn turns ih =>
      obtain ⟨hturn, hrest⟩ := List.forall_mem_cons.mp hplain
      cases turn with
      | calls w n answer =>
          obtain ⟨t, ht, hq⟩ := Option.bind_eq_some_iff.mp h
          exact Option.bind_eq_some_iff.mpr ⟨t, replayCalls_routinely env hturn ht, ih hrest hq⟩
      | crash w =>
          rw [Pool.replay] at h ⊢
          split at h
          · exact ih hrest h
          · cases h

/-- A run of the platform along a schedule that answers the routine calls plainly. -/
theorem exists_routine_run (main : W → Py α) (s : World W)
    (P : Pool Resp PyExc α W (World W) → Bool) (turns : List (Turn Resp W (World W)))
    (hplain : ∀ t ∈ turns, t.Plain)
    (h : (Pool.replay (routinely env) turns ⟨s, fun w => some (main w)⟩).any P = true) :
    ∃ p, Pool.Reachable (platform env) main s p ∧ P p = true := by
  obtain ⟨p, hp, hP⟩ := (Option.any_eq_true P _).mp h
  exact exists_run env main s P turns
    ((Option.any_eq_true P _).mpr ⟨p, replay_routinely env hplain hp, hP⟩)

end

/-- The environment without faults and with an empty knowledge base. -/
def Environment.calm : Environment := ⟨false, fun _ => false⟩

end SupportPlatform
