import SupportPlatform.Isolation

/-! # One process on its own

What a process does while nobody else works is seen in two things: the tables, and what it
has sent and not committed.  `Session.Step` describes the calls by what they do to these, and
`Exec.session` says that every run of a process alone on the platform is one of its session.
The rules below, one for each kind of call, are those by which such runs are reasoned about.
-/
namespace SupportPlatform
open Program

/-- The tables, and what the process has sent of its transaction. -/
structure Session where
  db : Database
  staged : List Change

/-- What `w` sees of the shared state. -/
def World.session {W : Type} (s : World W) (w : W) : Session := ⟨s.db, s.staged w⟩

namespace Session

/-- The changes meet the constraints, after those that were sent. -/
def Accepts (a : Session) (cs : List Change) : Prop :=
  a.db.admitsAll (a.staged ++ cs) = true ∧ ∀ c ∈ cs, c.storable = true

/-- Why sending the changes fails. -/
def Refuses (env : Environment) (a : Session) (cs : List Change) (e : PyExc) : Prop :=
  env.Fault e ∨ (∃ c ∈ cs, ¬ c.storable = true) ∧ e.cls = .dataError ∨
    ¬ a.db.admitsAll (a.staged ++ cs) = true ∧ e.cls = .integrityError

/-- The changes are sent. -/
def send (a : Session) (cs : List Change) : Session := { a with staged := a.staged ++ cs }

/-- The transaction is committed. -/
def settle (a : Session) (cs : List Change) : Session := ⟨a.db.applyAll (a.staged ++ cs), []⟩

/-- The transaction is over. -/
def close (a : Session) : Session := { a with staged := [] }

/-- **The calls of the workflow** on a session. -/
def Step [Runtime] (env : Environment) : (o : Op) → Session → Resp o → Session → Prop
  | .now, a, t, b => Timestamp.InCalendar t ∧ b = a
  | .perfCounter since, a, r, b => (∀ t ∈ since, t ≤ r) ∧ b = a
  | .select query, a, r, b => env.Answers (a.db.eval query) r ∧ b = a
  | .lockExecution i, a, r, b => env.Answers (a.db.executionOf i) r ∧ b = a
  | .flush cs, a, r, b => match r with
      | .ok _ => a.Accepts cs ∧ b = a.send cs
      | .error e => a.Refuses env cs e ∧ b = a
  | .commit _ cs, a, r, b => match r with
      | .committed => a.Accepts cs ∧ b = a.settle cs
      | .failed e true => env.Fault e ∧ a.Accepts cs ∧ b = a.settle cs
      | .failed e false => a.Refuses env cs e ∧ b = a
  | .closeSession, a, _, b => b = a.close
  | .render template values, a, r, b => r = template.render values ∧ b = a
  | .retrieve _ limit _, a, r, b => (match r with
      | .ok chunks => chunks.length ≤ limit ∧ ∀ c ∈ chunks, env.corpus c
      | .error _ => True) ∧ b = a
  | .uuid4, a, _, b | .chat _ _, a, _, b | .toolTimedOut, a, _, b => b = a
  | _, _, _, _ => True

end Session

section
variable [Runtime] [Pydantic] {W : Type} [DecidableEq W] {env : Environment} {α β : Type}

/-- The calls of `w` while nobody else works. -/
def alone (env : Environment) (w : W) (o : Op) (s : World W) (r : Resp o) (s' : World W) : Prop :=
  permits env w s o r ∧ s' = after w s o r

/-- **A call on the platform** is one of the session. -/
theorem session_step {w : W} {o : Op} {s s' : World W} {r : Resp o} (h : alone env w o s r s') :
    Session.Step env o (s.session w) r (s'.session w) := by
  obtain ⟨hp, rfl⟩ := h
  cases o with
  | lockExecution i =>
      refine ⟨hp.1, ?_⟩
      rcases r with e | _ | x <;> rfl
  | flush cs =>
      cases r with
      | ok _ => exact ⟨⟨hp.2.1, hp.2.2⟩, by simp [World.session, after, Session.send, World.lock]⟩
      | error e =>
          refine ⟨?_, rfl⟩
          rcases hp with h | h | h
          · exact .inl h
          · exact .inr (.inl h)
          · exact .inr (.inr h.2)
  | commit txn cs =>
      have hsettled : ∀ t : World W, t.db = s.db.applyAll (s.staged w ++ cs) → t.staged w = [] →
          t.session w = (s.session w).settle cs := by
        intro t hdb hst
        simp [World.session, Session.settle, hdb, hst]
      cases r with
      | committed =>
          exact ⟨⟨hp.2.1, hp.2.2⟩, hsettled _ rfl (by simp [after, World.settle, World.rollback])⟩
      | failed e applied =>
          cases applied with
          | true =>
              rcases hp with ⟨-, hf, hp⟩ | ⟨h, -⟩
              · exact ⟨hf, ⟨hp.2.1, hp.2.2⟩, hsettled _ (by simp [after, World.settle])
                  (by simp [after, World.settle, World.rollback])⟩
              · cases h
          | false =>
              rcases hp with ⟨h, -⟩ | ⟨-, hp⟩
              · cases h
              · refine ⟨?_, by simp [World.session, after]⟩
                rcases hp with h | h | h
                · exact .inl h
                · exact .inr (.inl h)
                · exact .inr (.inr h.2)
  | closeSession => simp [Session.Step, World.session, after, Session.close, World.rollback]
  | now => exact ⟨hp, rfl⟩
  | perfCounter since => exact ⟨hp, rfl⟩
  | select query => exact ⟨hp, rfl⟩
  | render template values => exact ⟨hp, rfl⟩
  | retrieve query limit category => exact ⟨hp, rfl⟩
  | uuid4 => rfl
  | chat prompt model => rfl
  | toolTimedOut => rfl
  | _ => trivial

/-! ## Rules for runs of a session -/

/-- The calls of a session, every answer under a condition. -/
def Session.act (env : Environment) (C : (o : Op) → Session → Resp o → Prop) (o : Op)
    (a : Session) (r : Resp o) (b : Session) : Prop := C o a r ∧ Session.Step env o a r b

/-- **How a run of the session ends**: with `Q` of its result or `X` of its exception. -/
abbrev Ends (env : Environment) (C : (o : Op) → Session → Resp o → Prop) (p : Py α)
    (Q : α → Session → Prop) (X : PyExc → Session → Prop) (a : Session) : Prop :=
  p.Safe (Discipline.solo (fun _ => True) : Discipline (System.solo (Session.act env C))) () Q X a

variable {C : (o : Op) → Session → Resp o → Prop} {a : Session} {X : PyExc → Session → Prop}

/-- What is shown of a session holds of every run on the platform. -/
theorem Ends.of_exec {w : W} {p : Py α} {Q : α → Session → Prop} {s s' : World W}
    {out : Except PyExc α} (h : Exec (alone env w) p s out s')
    (hp : Ends env (fun _ _ _ => True) p Q X (s.session w)) :
    (∀ b, out = .ok b → Q b (s'.session w)) ∧ ∀ e, out = .error e → X e (s'.session w) := by
  have hrun : Exec (Session.act env fun _ _ _ => True) p (s.session w) out (s'.session w) :=
    h.simulate (f := fun s => s.session w) fun _ _ _ _ hs => ⟨trivial, session_step hs⟩
  exact Exec.of_safe hrun trivial hp

section
omit [Pydantic]

theorem ends_issue {o : Op} {Q : Resp o → Session → Prop}
    (h : ∀ r b, C o a r → Session.Step env o a r b → Q r b) : Ends env C (issue o) Q X a := by
  rintro t rfl - r b ⟨hC, hs⟩
  exact ⟨⟨trivial, trivial⟩, h r b hC hs⟩

theorem ends_now {Q : Timestamp → Session → Prop}
    (h : ∀ t, C .now a t → Timestamp.InCalendar t → Q t a) : Ends env C now Q X a := by
  refine ends_issue fun t b hC hs => ?_
  obtain ⟨ht, rfl⟩ := hs
  exact h t hC ht

theorem ends_select {query : Query} {Q : query.Result → Session → Prop}
    (h : Q (a.db.eval query) a) (hX : ∀ e, env.Fault e → X e a) :
    Ends env C (select query) Q X a := by
  refine safe_bind.mpr (ends_issue fun r b _ hs => ?_)
  obtain ⟨hr, rfl⟩ := hs
  refine safe_answer.mpr ⟨fun rows hrows => ?_, fun e he => ?_⟩
  · subst hrows
    exact (show rows = b.db.eval query from hr) ▸ h
  · subst he
    exact hX e hr

theorem ends_lockExecution {i : Int} {Q : Option Execution → Session → Prop}
    (h : Q (a.db.executionOf i) a) (hX : ∀ e, env.Fault e → X e a) :
    Ends env C (lockExecution i) Q X a := by
  refine safe_bind.mpr (ends_issue fun r b _ hs => ?_)
  obtain ⟨hr, rfl⟩ := hs
  refine safe_answer.mpr ⟨fun rows hrows => ?_, fun e he => ?_⟩
  · subst hrows
    exact (show rows = b.db.executionOf i from hr) ▸ h
  · subst he
    exact hX e hr

theorem ends_flush {cs : List Change} {Q : Unit → Session → Prop}
    (h : a.Accepts cs → Q () (a.send cs)) (hX : ∀ e, a.Refuses env cs e → X e a) :
    Ends env C (flush cs) Q X a := by
  refine safe_bind.mpr (ends_issue fun r b _ hs => ?_)
  cases r with
  | ok _ =>
      obtain ⟨ha, rfl⟩ := hs
      exact h ha
  | error e =>
      obtain ⟨ha, rfl⟩ := hs
      exact hX e ha

/-- A commit takes effect, is reported as failed though it took effect, or is refused. -/
theorem ends_commit {txn : Transaction} {cs : List Change} {Q : Unit → Session → Prop}
    (h : a.Accepts cs → Q () (a.settle cs))
    (hfault : ∀ e, env.Fault e → a.Accepts cs → X e (a.settle cs))
    (hX : ∀ e, a.Refuses env cs e → X e a) : Ends env C (commit txn cs) Q X a := by
  refine safe_bind.mpr (ends_issue fun r b _ hs => ?_)
  rcases r with _ | ⟨e, _ | _⟩
  · obtain ⟨ha, rfl⟩ := hs
    exact h ha
  · obtain ⟨ha, rfl⟩ := hs
    exact hX e ha
  · obtain ⟨hf, ha, rfl⟩ := hs
    exact hfault e hf ha

theorem ends_withSession {body : Py α} {Q : α → Session → Prop}
    (h : Ends env C body (fun b t => Q b t.close) (fun e t => X e t.close) a) :
    Ends env C (withSession body) Q X a := by
  refine safe_andFinally (h.mono (fun b t ht => ?_) fun e t ht => ?_)
  · refine ends_issue fun _ c _ hs => ?_
    obtain rfl := hs
    exact ht
  · refine ends_issue fun _ c _ hs => ?_
    obtain rfl := hs
    exact ht

end

end

end SupportPlatform

