import SupportPlatform.Calls

/-! # Isolation

What a process can rely on while others work.  Every lock has one holder, the changes a
process has sent are under its locks (`World.Locked`), and so no call of another process
touches its locks, its uncommitted changes, its consumer position, or a row that it holds a
lock on (`World.Frame`).  This is proved once, for all calls, and every discipline below
builds its rely condition on it.
-/
namespace SupportPlatform
open Program

/-! ## Changes and the rows they leave alone -/

/-- The row under a key is the same in both databases. -/
def RowKey.Same (db db' : Database) : RowKey → Prop
  | .outbox id => db'.outbox? id = db.outbox? id
  | .processed id => db'.processed? id = db.processed? id
  | .execution x => db'.execution? x = db.execution? x
  | .step x n => ∀ t : AgentStep, t.executionId = x → t.stepNumber = n →
      (t ∈ db'.steps ↔ t ∈ db.steps)
  | _ => True

namespace RowKey

theorem Same.refl (k : RowKey) (db : Database) : k.Same db db := by
  cases k <;> simp [Same]

theorem Same.trans {k : RowKey} {a b c : Database} (h : k.Same a b) (h' : k.Same b c) :
    k.Same a c := by
  cases k <;> simp only [Same] at *
  case outbox => rw [h', h]
  case processed => rw [h', h]
  case execution => rw [h', h]
  case step => exact fun t hx hn => (h' t hx hn).trans (h t hx hn)

end RowKey

theorem find?_append_of_ne {α : Type} {p : α → Bool} {xs : List α} {x : α} (h : ¬ p x) :
    (xs ++ [x]).find? p = xs.find? p := by
  simp [List.find?_append, h]

/-- A search by key is not affected by an update of rows under another key. -/
theorem find?_map_update {α β : Type} [DecidableEq β] (key : α → β) (f : α → α) (k id : β)
    (hf : ∀ x, key (f x) = key x) (hne : id ≠ k) (xs : List α) :
    (xs.map fun x => if key x = k then f x else x).find? (fun x => key x = id) =
      xs.find? fun x => key x = id := by
  induction xs with
  | nil => rfl
  | cons x xs ih =>
      rw [List.map_cons, List.find?_cons, List.find?_cons, ih]
      by_cases hk : key x = k
      · have hx : key x ≠ id := fun e => hne (e ▸ hk)
        simp [hk, hf, hne.symm]
      · simp [hk]

/-- A search by key finds the updated row. -/
theorem find?_map_update_self {α β : Type} [DecidableEq β] (key : α → β) (f : α → α) (k : β)
    (hf : ∀ x, key (f x) = key x) (xs : List α) :
    (xs.map fun x => if key x = k then f x else x).find? (fun x => key x = k) =
      (xs.find? fun x => key x = k).map f := by
  induction xs with
  | nil => rfl
  | cons x xs ih =>
      rw [List.map_cons, List.find?_cons, List.find?_cons, ih]
      by_cases hk : key x = k
      · simp [hk, hf]
      · simp [hk]

namespace Database

/-- A change leaves alone every row whose key it does not lock. -/
theorem apply_same (db : Database) {c : Change} {k : RowKey} (h : k ∉ c.keys) :
    k.Same db (db.apply c) := by
  cases c with
  | insertOutbox r =>
      cases k
      case outbox id => exact find?_append_of_ne (by simpa [Change.keys, eq_comm] using h)
      all_goals simp [RowKey.Same, apply, processed?, execution?]
  | updateOutbox l e =>
      by_cases he : e = l
      · subst he
        simpa [apply] using RowKey.Same.refl k db
      · cases k
        case outbox id =>
          exact find?_map_update (·.eventId) (l.merge e) _ _ (fun _ => rfl)
            (by simpa [Change.keys, he] using h) _
        all_goals simp [RowKey.Same, apply, processed?, execution?]
  | insertProcessed r =>
      cases k
      case processed id => exact find?_append_of_ne (by simpa [Change.keys, eq_comm] using h)
      all_goals simp [RowKey.Same, apply, outbox?, execution?]
  | insertExecution r =>
      cases k
      case execution x =>
        have hx : ¬ x = r.executionId := fun e => h (by simp [Change.keys, e])
        exact find?_append_of_ne (by simpa [eq_comm] using hx)
      all_goals simp [RowKey.Same, apply, outbox?, processed?]
  | updateExecution l e =>
      by_cases he : e = l
      · subst he
        simpa [apply] using RowKey.Same.refl k db
      · cases k
        case execution x =>
          exact find?_map_update (·.executionId) (l.merge e) _ _ (fun _ => rfl)
            (by simpa [Change.keys, he] using h) _
        all_goals simp [RowKey.Same, apply, outbox?, processed?]
  | insertStep r =>
      cases k
      case step x n =>
        intro t hx hn
        have hne : t ≠ r := fun e => h (by simp [Change.keys, ← e, hx, hn])
        simp [apply, hne]
      all_goals simp [RowKey.Same, apply, outbox?, processed?, execution?]
  | _ => cases k <;> simp [RowKey.Same, apply, outbox?, processed?, execution?]

theorem applyAll_same {k : RowKey} {cs : List Change} (h : ∀ c ∈ cs, k ∉ c.keys) (db : Database) :
    k.Same db (db.applyAll cs) := by
  induction cs generalizing db with
  | nil => exact RowKey.Same.refl k db
  | cons c cs ih =>
      rw [applyAll_cons]
      exact (db.apply_same (h c List.mem_cons_self)).trans
        (ih (fun d hd => h d (List.mem_cons_of_mem c hd)) _)

theorem execution?_update {db : Database} {l e cur : Execution}
    (h : db.execution? l.executionId = some cur) :
    (db.apply (.updateExecution l e)).execution? l.executionId = some (l.merge e cur) := by
  have hfind := find?_map_update_self (·.executionId) (l.merge e) l.executionId (fun _ => rfl)
    db.executions
  rw [show db.executions.find? (fun x => x.executionId = l.executionId) = some cur from h] at hfind
  exact hfind

/-- An update that leaves the incident of an execution alone. -/
theorem executionOf_update {db : Database} {l e : Execution} (h : e.incidentId = l.incidentId)
    (i : Int) :
    (db.apply (.updateExecution l e)).executionOf i =
      (db.executionOf i).map fun x => if x.executionId = l.executionId then l.merge e x else x := by
  have hkey : ((fun x : Execution => decide (x.incidentId = i)) ∘
      fun x => if x.executionId = l.executionId then l.merge e x else x) =
        fun x => decide (x.incidentId = i) := by
    funext x
    by_cases hx : x.executionId = l.executionId
    · simp only [Function.comp_apply, if_pos hx, Execution.merge, h, put_unedited]
    · simp only [Function.comp_apply, if_neg hx]
  rw [executionOf, apply, List.find?_map, hkey]
  rfl

/-- Where identifiers are unique, the row of an incident is found under its identifier. -/
theorem execution?_of_executionOf {db : Database} {i : Int} {row : Execution}
    (hn : (db.executions.map (·.executionId)).Nodup) (h : db.executionOf i = some row) :
    db.execution? row.executionId = some row := by
  have hmem : row ∈ db.executions := List.mem_of_find?_eq_some h
  cases hfind : db.execution? row.executionId with
  | none => simpa using List.find?_eq_none.mp hfind row hmem
  | some found =>
      have hid : found.executionId = row.executionId := by simpa using List.find?_some hfind
      rw [List.inj_on_of_nodup_map hn (List.mem_of_find?_eq_some hfind) hmem hid]

end Database

/-! ## Processes and what is theirs -/

namespace World
variable {W : Type} [DecidableEq W]

/-- **Locking**: what a process has sent and not committed is under its locks. -/
def Locked (s : World W) : Prop := ∀ w, ∀ c ∈ s.staged w, ∀ k ∈ c.keys, s.locks k = some w

/-- **The frame of `v`**: what is `v`'s in `s` is the same in `s'`. -/
structure Frame (v : W) (s s' : World W) : Prop where
  locks : ∀ k, s'.locks k = some v ↔ s.locks k = some v
  staged : s'.staged v = s.staged v
  owing : s'.hist.owing v = s.hist.owing v
  position : s'.position v = s.position v
  rows : ∀ k, s.locks k = some v → k.Same s.db s'.db

namespace Frame
variable {v : W} {s t u : World W}

section
omit [DecidableEq W]

theorem refl (v : W) (s : World W) : Frame v s s :=
  ⟨fun _ => Iff.rfl, rfl, rfl, rfl, fun k _ => RowKey.Same.refl k s.db⟩

theorem trans (h : Frame v s t) (h' : Frame v t u) : Frame v s u where
  locks k := (h'.locks k).trans (h.locks k)
  staged := h'.staged.trans h.staged
  owing := h'.owing.trans h.owing
  position := h'.position.trans h.position
  rows k hk := (h.rows k hk).trans (h'.rows k ((h.locks k).mpr hk))

/-- Two states that differ in nothing that belongs to a process. -/
theorem of_eq (v : W) {s t : World W} (hl : t.locks = s.locks := by rfl)
    (hs : t.staged = s.staged := by rfl) (ho : t.hist.owing = s.hist.owing := by rfl)
    (hp : t.position = s.position := by rfl) (hd : t.db = s.db := by rfl) : Frame v s t := by
  refine ⟨fun k => by rw [hl], by rw [hs], by rw [ho], by rw [hp], fun k _ => ?_⟩
  rw [hd]
  exact RowKey.Same.refl k s.db

end

end Frame

variable {v w : W} {s : World W}

omit [DecidableEq W] in
theorem frame_lock (hvw : v ≠ w) {ks : List RowKey} (hks : ∀ k ∈ ks, s.Free w k) :
    Frame v s (s.lock w ks) where
  locks k := by
    by_cases hk : k ∈ ks
    · have hv : s.locks k ≠ some v := by
        rcases hks k hk with h | h <;> simp [h, Ne.symm hvw]
      simp [lock, hk, hv, Ne.symm hvw]
    · simp [lock, hk]
  staged := rfl
  owing := rfl
  position := rfl
  rows k _ := RowKey.Same.refl k s.db

omit [DecidableEq W] in
/-- A lock that is held stays held when a process locks what is free for it. -/
theorem lock_keeps {ks : List RowKey} (hks : ∀ k ∈ ks, s.Free w k) {k : RowKey}
    (h : s.locks k = some v) : (s.lock w ks).locks k = some v := by
  by_cases hk : k ∈ ks
  · rcases hks k hk with h' | h' <;> rw [h] at h'
    · cases h'
    · simp [lock, hk, Option.some.inj h']
  · simpa [lock, hk] using h

theorem frame_rollback (hvw : v ≠ w) (s : World W) : Frame v s (s.rollback w) where
  locks k := by
    by_cases hk : s.locks k = some w <;> simp [rollback, hk, Ne.symm hvw]
  staged := Function.update_of_ne hvw _ _
  owing := rfl
  position := rfl
  rows k _ := RowKey.Same.refl k s.db

theorem frame_forfeit (hvw : v ≠ w) (s : World W) : Frame v s (s.forfeit w) := by
  unfold forfeit
  split
  · exact .refl v s
  · exact ⟨fun _ => Iff.rfl, rfl, Function.update_of_ne hvw _ _, rfl,
      fun k _ => RowKey.Same.refl k s.db⟩

theorem frame_settle (hvw : v ≠ w) (hL : s.Locked) (txn : Transaction) {cs : List Change}
    (hcs : s.CanWrite w cs) : Frame v s (s.settle w txn cs) where
  locks := (frame_rollback hvw s).locks
  staged := (frame_rollback hvw s).staged
  owing := rfl
  position := rfl
  rows k hk := by
    refine Database.applyAll_same (fun c hc hkc => ?_) s.db
    rcases List.mem_append.mp hc with hc | hc
    · have := (hL w c hc k hkc).symm.trans hk
      exact hvw (Option.some.inj this).symm
    · rcases hcs c hc k hkc with h | h <;> rw [hk] at h
      · cases h
      · exact hvw (Option.some.inj h)

omit [DecidableEq W] in
theorem Locked.lock (hL : s.Locked) {ks : List RowKey} (hks : ∀ k ∈ ks, s.Free w k) :
    (s.lock w ks).Locked := by
  intro v c hc k hk
  exact lock_keeps hks (hL v c hc k hk)

theorem Locked.rollback (hL : s.Locked) (w : W) : (s.rollback w).Locked := by
  intro v c hc k hk
  by_cases hv : v = w
  · subst v
    simp [World.rollback] at hc
  · simp only [World.rollback, Function.update_of_ne hv] at hc
    have h := hL v c hc k hk
    simp [World.rollback, h, hv]

omit [DecidableEq W] in
theorem Locked.congr {t : World W} (hL : s.Locked) (hl : t.locks = s.locks)
    (hs : t.staged = s.staged) : t.Locked := by
  intro v c hc k hk
  rw [hs] at hc
  rw [hl]
  exact hL v c hc k hk

/-- Sending changes whose locks are held. -/
theorem Locked.send {t : World W} (hL : s.Locked) {cs : List Change}
    (hcs : ∀ c ∈ cs, ∀ k ∈ c.keys, s.locks k = some w)
    (hl : t.locks = s.locks := by rfl)
    (hs : t.staged = Function.update s.staged w (s.staged w ++ cs) := by rfl) : t.Locked := by
  intro v c hc k hk
  rw [hs] at hc
  rw [hl]
  by_cases hv : v = w
  · subst v
    rw [Function.update_self] at hc
    rcases List.mem_append.mp hc with hc | hc
    · exact hL w c hc k hk
    · exact hcs c hc k hk
  · rw [Function.update_of_ne hv] at hc
    exact hL v c hc k hk

theorem dispatchable_eq_some {id : Uuid} {row : OutboxEvent} :
    s.dispatchable w id = some row ↔
      s.db.outbox? id = some row ∧ row.publishedAt = none ∧ s.Free w (.outbox id) := by
  simp [dispatchable, Option.filter_eq_some_iff]

@[simp] theorem forfeit_locks (s : World W) (w : W) : (s.forfeit w).locks = s.locks := by
  unfold forfeit
  split <;> rfl

@[simp] theorem forfeit_staged (s : World W) (w : W) : (s.forfeit w).staged = s.staged := by
  unfold forfeit
  split <;> rfl

@[simp] theorem forfeit_db (s : World W) (w : W) : (s.forfeit w).db = s.db := by
  unfold forfeit
  split <;> rfl

@[simp] theorem forfeit_committed (s : World W) (w : W) :
    (s.forfeit w).committed = s.committed := by
  unfold forfeit
  split <;> rfl

@[simp] theorem forfeit_handled (s : World W) (w : W) :
    (s.forfeit w).hist.handled = s.hist.handled := by
  unfold forfeit
  split <;> rfl

@[simp] theorem forfeit_writer (s : World W) (w : W) :
    (s.forfeit w).hist.writer = s.hist.writer := by
  unfold forfeit
  split <;> rfl

@[simp] theorem forfeit_acked (s : World W) (w : W) :
    (s.forfeit w).hist.acked = s.hist.acked := by
  unfold forfeit
  split <;> rfl

theorem lost_le_forfeit (s : World W) (w : W) (id : Uuid) :
    s.hist.lost id ≤ (s.forfeit w).hist.lost id := by
  unfold forfeit
  split
  · exact le_rfl
  · rename_i id' _
    by_cases h : id = id'
    · subst h
      simp
    · simp [Function.update_of_ne h]

theorem forfeit_owing_eq (s : World W) (w : W) :
    (s.forfeit w).hist.owing = Function.update s.hist.owing w none := by
  unfold forfeit
  split
  · rename_i h
    exact (h ▸ Function.update_eq_self w s.hist.owing).symm
  · rfl

theorem forfeit_owing (s : World W) (w : W) : (s.forfeit w).hist.owing w = none := by
  unfold forfeit
  split
  · assumption
  · exact Function.update_self _ _ _

theorem forfeit_rollback (s : World W) (w : W) :
    (s.rollback w).forfeit w = (s.forfeit w).rollback w := by
  cases h : s.hist.owing w <;> simp [forfeit, rollback, h]

end World

section
variable [Runtime] [Pydantic] {W : Type} [DecidableEq W] {env : Environment} {v w : W}
  {s : World W} {o : Op} {r : Resp o}

open World

/-- **Calls keep the locking.** -/
theorem after_locked (hL : s.Locked) (hp : permits env w s o r) : (after w s o r).Locked := by
  cases o with
  | lockExecution i =>
      rcases r with e | _ | x
      · exact hL
      · exact hL
      · have hx : some x = s.db.executionOf i := hp.1
        refine hL.lock fun k hk => ?_
        rw [List.mem_singleton] at hk
        exact hk ▸ hp.2 x (by simp [← hx])
  | getForDispatch id =>
      rcases r with e | _ | row
      · exact hL
      · exact hL
      · refine hL.lock fun k hk => ?_
        rw [List.mem_singleton] at hk
        exact hk ▸ (dispatchable_eq_some.mp (show _ = _ from hp).symm).2.2
  | flushIncident row =>
      rcases r with e | id
      · exact hL
      · refine Locked.send (w := w) hL
          fun c (hc : c ∈ [Change.insertIncident { row with id := id }]) k hk => ?_
        rw [List.mem_singleton] at hc
        subst hc
        cases hk
  | flush cs =>
      rcases r with e | _
      · exact hL
      · refine (hL.lock fun k hk => ?_).send fun c hc k hk => ?_
        · obtain ⟨c, hc, hk⟩ := List.mem_flatMap.mp hk
          exact hp.1 c hc k hk
        · exact if_pos (List.mem_flatMap.mpr ⟨c, hc, hk⟩)
  | commit txn cs =>
      rcases r with _ | ⟨e, _ | _⟩
      · exact hL.rollback w
      · exact hL.congr (by simp [after]) (by simp [after])
      · exact (hL.rollback w).congr (by simp [after, World.settle]) (by simp [after, World.settle])
  | closeSession => exact hL.rollback w
  | produce event topic =>
      refine hL.congr ?_ ?_ <;> simp only [after] <;> (repeat' split) <;> rfl
  | poll => rcases r with e | _ | _ | m <;> exact hL
  | seek source offset => rcases r with e | _ <;> exact hL
  | commitOffset source offset => rcases r with _ | ⟨e, _ | _⟩ <;> exact hL
  | observe m outcome =>
      simp only [after]
      split <;> exact hL
  | _ => exact hL

/-- **Calls of one process leave alone what is another's.** -/
theorem after_frame (hL : s.Locked) (hp : permits env w s o r) (hvw : v ≠ w) :
    Frame v s (after w s o r) := by
  cases o with
  | lockExecution i =>
      rcases r with e | _ | x
      · exact .refl v s
      · exact .refl v s
      · have hx : some x = s.db.executionOf i := hp.1
        refine frame_lock hvw fun k hk => ?_
        rw [List.mem_singleton] at hk
        exact hk ▸ hp.2 x (by simp [← hx])
  | getForDispatch id =>
      rcases r with e | _ | row
      · exact .refl v s
      · exact .refl v s
      · refine frame_lock hvw fun k hk => ?_
        rw [List.mem_singleton] at hk
        exact hk ▸ (dispatchable_eq_some.mp (show _ = _ from hp).symm).2.2
  | flushIncident row =>
      rcases r with e | id
      · exact .refl v s
      · exact ⟨fun _ => Iff.rfl, Function.update_of_ne hvw _ _, rfl, rfl,
          fun k _ => RowKey.Same.refl k s.db⟩
  | flush cs =>
      rcases r with e | _
      · exact .refl v s
      · have h : Frame v s (s.lock w (cs.flatMap Change.keys)) := frame_lock hvw fun k hk => by
          obtain ⟨c, hc, hk⟩ := List.mem_flatMap.mp hk
          exact hp.1 c hc k hk
        exact ⟨h.locks, Function.update_of_ne hvw _ _, rfl, rfl, h.rows⟩
  | commit txn cs =>
      rcases r with _ | ⟨e, _ | _⟩
      · have h : Frame v s (s.settle w txn cs) := frame_settle hvw hL txn hp.1
        exact ⟨h.locks, h.staged, Function.update_of_ne hvw _ _, rfl, h.rows⟩
      · exact frame_forfeit hvw s
      · rcases hp with ⟨-, -, hc, -⟩ | ⟨h, -⟩
        · exact (frame_settle hvw hL txn hc).trans (frame_forfeit hvw _)
        · cases h
  | closeSession => exact frame_rollback hvw s
  | produce event topic =>
      cases r with
      | acknowledged p =>
          exact ⟨fun _ => Iff.rfl, rfl, Function.update_of_ne hvw _ _, rfl,
            fun k _ => RowKey.Same.refl k s.db⟩
      | raised e landed => cases landed <;> exact .of_eq v
      | undelivered n landed => cases landed <;> exact .of_eq v
      | deliveryError t landed => cases landed <;> exact .of_eq v
  | poll =>
      rcases r with e | _ | _ | m
      case ok.message =>
        exact ⟨fun _ => Iff.rfl, rfl, rfl, Function.update_of_ne hvw _ _,
          fun k _ => RowKey.Same.refl k s.db⟩
      all_goals exact .refl v s
  | seek source offset =>
      rcases r with e | _
      · exact .refl v s
      · exact ⟨fun _ => Iff.rfl, rfl, rfl, Function.update_of_ne hvw _ _,
          fun k _ => RowKey.Same.refl k s.db⟩
  | commitOffset source offset => rcases r with _ | ⟨e, _ | _⟩ <;> exact .of_eq v
  | observe m outcome =>
      simp only [after]
      split <;> exact .of_eq v
  | _ => exact .refl v s

omit [Runtime] [Pydantic] in
theorem crash_locked (hL : s.Locked) (w : W) : (s.crash w).Locked :=
  (hL.rollback w).congr (by simp [World.crash]) (by simp [World.crash])

omit [Runtime] [Pydantic] in
theorem crash_frame (hvw : v ≠ w) (s : World W) : Frame v s (s.crash w) := by
  have h := (frame_rollback hvw s).trans (frame_forfeit hvw (s.rollback w))
  exact ⟨h.locks, h.staged, h.owing, Function.update_of_ne hvw _ _, h.rows⟩

/-! ## Disciplines on the platform -/

/-- **A discipline** on the platform is a condition `C` under which calls are made, an
invariant `I`, a further rely condition `R` that concerns more than a process's own, and a
further guarantee `G`.  The locking, and the frame of every other process, come with it. -/
structure Protocol (env : Environment) (W : Type) [DecidableEq W] where
  C : W → (o : Op) → World W → Resp o → Prop := fun _ _ _ _ => True
  I : World W → Prop
  R : W → World W → World W → Prop
  G : W → (o : Op) → World W → Resp o → World W → Prop
  refl : ∀ w s, R w s s
  trans : ∀ w s t u, R w s t → R w t u → R w s u
  crash_inv : ∀ w s, I s → I (s.crash w)
  crash_rely : ∀ v w s, v ≠ w → I s → R w s (s.crash v)

namespace Protocol

/-- The rely–guarantee discipline of a protocol, for the runs that meet its condition. -/
def discipline (P : Protocol env W) : Discipline ((platform (W := W) env).restrict P.C) where
  inv s := s.Locked ∧ P.I s
  rely w s t := Frame w s t ∧ P.R w s t
  guar w o s r t := (∀ v, v ≠ w → Frame v s t ∧ P.R v s t) ∧ P.G w o s r t
  rely_refl w s := ⟨.refl w s, P.refl w s⟩
  rely_trans w s t u h h' := ⟨h.1.trans h'.1, P.trans w s t u h.2 h'.2⟩
  guar_rely _ w _ _ _ _ hne _ _ hg := hg.1 w hne.symm
  crash_inv w s h := ⟨crash_locked h.1 w, P.crash_inv w s h.2⟩
  crash_rely v w s hne h := ⟨crash_frame hne.symm s, P.crash_rely v w s hne h.2⟩

variable {P : Protocol env W} {X : PyExc → World W → Prop}

/-- **One call**: in every state the others may have left, and for every answer, it keeps
the invariant, the rely conditions of the others and the guarantee. -/
theorem safe_issue_within {Q : Resp o → World W → Prop}
    (h : ∀ t, Frame w s t → P.R w s t → t.Locked → P.I t → ∀ r, P.C w o t r → permits env w t o r →
      P.I (after w t o r) ∧ (∀ v, v ≠ w → P.R v t (after w t o r)) ∧ P.G w o t r (after w t o r) ∧
        Q r (after w t o r)) :
    (issue o).Safe P.discipline w Q X s := by
  rintro t ⟨hf, hr⟩ ⟨hL, hI⟩ r u ⟨hc, hp, rfl⟩
  obtain ⟨hI', hR, hG, hQ⟩ := h t hf hr hL hI r hc hp
  exact ⟨⟨⟨after_locked hL hp, hI'⟩, fun v hv => ⟨after_frame hL hp hv, hR v hv⟩, hG⟩, hQ⟩

/-- One call, whether it meets the condition of the protocol or not. -/
theorem safe_issue {Q : Resp o → World W → Prop}
    (h : ∀ t, Frame w s t → P.R w s t → t.Locked → P.I t → ∀ r, permits env w t o r →
      P.I (after w t o r) ∧ (∀ v, v ≠ w → P.R v t (after w t o r)) ∧ P.G w o t r (after w t o r) ∧
        Q r (after w t o r)) :
    (issue o).Safe P.discipline w Q X s :=
  safe_issue_within fun t hf hr hL hI r _ hp => h t hf hr hL hI r hp

/-- A call that only reads. -/
theorem safe_read {Q : Resp o → World W → Prop} (hafter : ∀ (t : World W) r, after w t o r = t)
    (h : ∀ t, Frame w s t → P.R w s t → P.I t → ∀ r, permits env w t o r →
      P.G w o t r t ∧ Q r t) :
    (issue o).Safe P.discipline w Q X s := by
  refine safe_issue fun t hf hr _ hI r hp => ?_
  rw [hafter t r]
  exact ⟨hI, fun v _ => P.refl v t, h t hf hr hI r hp⟩

/-- **A SELECT** returns the rows that are committed when it is made. -/
theorem safe_select {query : Query} {Q : query.Result → World W → Prop}
    (hG : ∀ t r, P.G w (.select query) t r t)
    (h : ∀ t, Frame w s t → P.R w s t → P.I t → Q (t.db.eval query) t)
    (hX : ∀ t e, Frame w s t → P.R w s t → P.I t → env.Fault e → X e t) :
    (select query).Safe P.discipline w Q X s := by
  refine safe_bind.mpr (safe_read (fun _ _ => rfl) fun t hf hr hI r hp => ⟨hG t r, ?_⟩)
  refine safe_answer.mpr ⟨fun rows hrows => ?_, fun e he => ?_⟩
  · subst hrows
    exact (show rows = t.db.eval query from hp) ▸ h t hf hr hI
  · subst he
    exact hX t e hf hr hI hp

end Protocol

end

end SupportPlatform

