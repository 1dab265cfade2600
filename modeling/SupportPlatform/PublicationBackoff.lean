import SupportPlatform.BatchDispatch

/-! # Backoff between publications

A failed attempt commits the time before which its event is to be left alone.  A pass leaves
out the events that are not due when it lists the batch, but it does not look again when it
comes to lock a row, so another dispatcher's failed attempt in between is not waited for.

Time is added to the shared state here: every call is made at a time, and no call at an
earlier one than the call before it.  What failed attempts committed, and how much of it a
dispatcher had seen when it listed its batch, is written down beside it.  Runs in which
nothing else happened in between are `unhurried`, and in those the backoff is kept by all.
-/


namespace SupportPlatform
open Program World

/-! ## Time -/

/-- The shared state at a time, with what the failed attempts on each event committed, latest
first, and how many of these there were when a process last listed a batch. -/
structure Clocked (W : Type) where
  world : World W
  clock : Timestamp
  deferred : Uuid → List Timestamp
  listed : W → Uuid → Nat

/-- Whether the transaction took effect. -/
def CommitReport.effective : CommitReport → Bool
  | .committed => true
  | .failed _ applied => applied

/-- The event, and the time before which it is left alone, that a failed attempt commits. -/
def failure? : (o : Op) → Resp o → Option (Uuid × Timestamp)
  | .commit .dispatch [.updateOutbox loaded edited], r =>
      if edited.publishedAt = none ∧ CommitReport.effective r = true then
        some (loaded.eventId, edited.nextAttemptAt)
      else none
  | _, _ => none

/-- A reading of the clock is the time of the call. -/
def ReadsAt (time : Timestamp) : (o : Op) → Resp o → Prop
  | .now, r => r = time
  | _, _ => True

section
variable [Runtime] [Pydantic] {W : Type} [DecidableEq W] {env : Environment}

namespace Clocked

/-- The state after a call of `w` at a time. -/
def next (w : W) (o : Op) (r : Resp o) (time : Timestamp) (s : Clocked W) : Clocked W where
  world := after w s.world o r
  clock := time
  deferred := match failure? o r with
    | some (id, u) => Function.update s.deferred id (u :: s.deferred id)
    | none => s.deferred
  listed := match o with
    | .select (.pendingIds _ _) => Function.update s.listed w fun id => (s.deferred id).length
    | _ => s.listed

end Clocked

/-- **The platform in time.** -/
def timed (env : Environment) : System Resp W (Clocked W) where
  act w o s r t := permits env w s.world o r ∧
    ∃ time, s.clock ≤ time ∧ ReadsAt time o r ∧ t = s.next w o r time
  abort w s := { s with world := s.world.crash w }

/-- The event that a call is to lock. -/
def Op.attempted? : Op → Option Uuid
  | .getForDispatch eventId => some eventId
  | _ => none

/-- What was committed of an event since `w` listed its batch is over when `w` locks it. -/
def Unhurried (w : W) (s t : Clocked W) (o : Op) : Prop :=
  ∀ id ∈ o.attempted?, s.world.dispatchable w id ≠ none →
    ∀ u ∈ (s.deferred id).take ((s.deferred id).length - s.listed w id), u ≤ t.clock

instance (w : W) (s t : Clocked W) : DecidablePred (Unhurried w s t) := fun o =>
  decidable_of_iff (o.attempted?.all (fun id => decide (s.world.dispatchable w id ≠ none →
    ∀ u ∈ (s.deferred id).take ((s.deferred id).length - s.listed w id), u ≤ t.clock)) = true) (by
      unfold Unhurried
      cases o.attempted? <;> simp [or_iff_not_imp_left])

/-- The platform in time, as long as no dispatcher comes to an event too early that another
one failed to publish after the event was listed. -/
def unhurried (env : Environment) : System Resp W (Clocked W) where
  act w o s r t := (timed env).act w o s r t ∧ Unhurried w s t o
  abort := (timed env).abort

/-- **An attempt is due**: it begins, and publishes, at no time that a failed attempt ruled
out. -/
def Due : (o : Op) → Resp o → Clocked W → Clocked W → Prop
  | .getForDispatch id, r, s, t => match r with
      | .ok (some _) => ∀ u ∈ s.deferred id, u ≤ t.clock
      | _ => True
  | .produce event _, _, s, t => ∀ u ∈ s.deferred event.eventId, u ≤ t.clock
  | _, _, _, _ => True

/-! ## The discipline -/

/-- A row is left alone at least as long as every failed attempt on it committed. -/
structure BackoffInv (s : Clocked W) : Prop where
  staged : ∀ w, s.world.staged w = []
  nodup : (s.world.db.outbox.map (·.eventId)).Nodup
  payloads : ∀ r ∈ s.world.db.outbox, r.Staged
  ahead : ∀ id, ∀ u ∈ s.deferred id, ∃ r, s.world.db.outbox? id = some r ∧ u ≤ r.nextAttemptAt

/-- What `w` can rely on: time goes on, failed attempts are added but for the events that `w`
has locked, and the rest of what is `w`'s stays. -/
structure Onward (w : W) (s t : Clocked W) : Prop where
  frame : Frame w s.world t.world
  clock : s.clock ≤ t.clock
  deferred : ∀ id, s.deferred id <:+ t.deferred id
  locked : ∀ id, s.world.locks (.outbox id) = some w → t.deferred id = s.deferred id
  listed : t.listed w = s.listed w

namespace Onward
variable {w : W} {s t u : Clocked W}

omit [Runtime] [Pydantic] [DecidableEq W] in
theorem refl (w : W) (s : Clocked W) : Onward w s s :=
  ⟨.refl w s.world, le_rfl, fun _ => List.suffix_rfl, fun _ _ => rfl, rfl⟩

omit [Runtime] [Pydantic] [DecidableEq W] in
theorem trans (h : Onward w s t) (h' : Onward w t u) : Onward w s u where
  frame := h.frame.trans h'.frame
  clock := h.clock.trans h'.clock
  deferred id := (h.deferred id).trans (h'.deferred id)
  locked id hid := (h'.locked id ((h.frame.locks _).mpr hid)).trans (h.locked id hid)
  listed := h'.listed.trans h.listed

end Onward

omit [Runtime] [DecidableEq W] in
theorem BackoffInv.locked {s : Clocked W} (h : BackoffInv s) : s.world.Locked := by
  intro w c hc
  rw [h.staged w] at hc
  cases hc

omit [Runtime] [DecidableEq W] in
/-- A call that changes no row keeps the invariant. -/
theorem BackoffInv.congr {s t : Clocked W} (h : BackoffInv s)
    (hdb : t.world.db.outbox = s.world.db.outbox) (hst : ∀ w, t.world.staged w = [])
    (hd : t.deferred = s.deferred) : BackoffInv t where
  staged := hst
  nodup := hdb ▸ h.nodup
  payloads := hdb ▸ h.payloads
  ahead id u hu := by
    rw [hd] at hu
    obtain ⟨r, hr, hnext⟩ := h.ahead id u hu
    exact ⟨r, by rw [Database.outbox?, hdb]; exact hr, hnext⟩

theorem BackoffInv.crash {s : Clocked W} (h : BackoffInv s) (env : Environment) (w : W) :
    BackoffInv ((timed env).abort w s) := by
  refine h.congr ?_ (fun v => ?_) rfl
  · simp [timed, World.crash, World.rollback]
  · by_cases hv : v = w
    · subst v
      simp [timed, World.crash, World.rollback]
    · simp [timed, World.crash, World.rollback, hv, h.staged v]

/-- **The discipline of the backoff.** -/
def backoff (env : Environment) : Discipline (unhurried (W := W) env) where
  inv := BackoffInv
  rely := Onward
  guar w o s r t := (∀ v, v ≠ w → Onward v s t) ∧ Due o r s t
  rely_refl := Onward.refl
  rely_trans _ _ _ _ h h' := h.trans h'
  guar_rely _ w _ _ _ _ hne _ _ hg := hg.1 w hne.symm
  crash_inv w _ h := h.crash env w
  crash_rely _ _ s hne _ := ⟨crash_frame hne.symm s.world, le_rfl, fun _ => List.suffix_rfl,
    fun _ _ => rfl, rfl⟩

/-! ## Calls -/

variable {w v : W} {s t : Clocked W} {o : Op} {r : Resp o} {time : Timestamp}
  {X : PyExc → Clocked W → Prop}

/-- A call that commits no failed attempt is none of the others' business. -/
theorem onward_next (hI : BackoffInv s) (hp : permits env w s.world o r) (hv : v ≠ w)
    (htime : s.clock ≤ time) (hfail : failure? o r = none) : Onward v s (s.next w o r time) where
  frame := after_frame hI.locked hp hv
  clock := htime
  deferred id := by simp [Clocked.next, hfail]
  locked id _ := by simp [Clocked.next, hfail]
  listed := by
    simp only [Clocked.next]
    split
    · exact Function.update_of_ne hv _ _
    · rfl

/-- One call, in every state that the others may have left and at every later time. -/
theorem issue_backoff {Q : Resp o → Clocked W → Prop}
    (h : ∀ t r time, Onward w s t → BackoffInv t → permits env w t.world o r → t.clock ≤ time →
      ReadsAt time o r → Unhurried w t (t.next w o r time) o →
      (BackoffInv (t.next w o r time) ∧ ∀ v, v ≠ w → Onward v t (t.next w o r time)) ∧
        Due o r t (t.next w o r time) ∧ Q r (t.next w o r time)) :
    (issue o).Safe (backoff env) w Q X s := by
  rintro t hr hI r u ⟨⟨hp, time, htime, hreads, rfl⟩, hcond⟩
  obtain ⟨⟨hI', hothers⟩, hdue, hQ⟩ := h t r time hr hI hp htime hreads hcond
  exact ⟨⟨hI', hothers, hdue⟩, hQ⟩

/-- A call that changes no row. -/
theorem quiet_backoff {Q : Resp o → Clocked W → Prop} (hfail : ∀ r, failure? o r = none)
    (hdb : ∀ (s : World W) r, (after w s o r).db = s.db)
    (hst : ∀ (s : World W) r, (∀ v, s.staged v = []) → ∀ v, (after w s o r).staged v = [])
    (h : ∀ t r time, Onward w s t → BackoffInv t → permits env w t.world o r → t.clock ≤ time →
      ReadsAt time o r → Unhurried w t (t.next w o r time) o →
      Due o r t (t.next w o r time) ∧ Q r (t.next w o r time)) :
    (issue o).Safe (backoff env) w Q X s := by
  refine issue_backoff fun t r time hr hI hp htime hreads hcond => ⟨⟨?_, fun v hv => ?_⟩, ?_⟩
  · refine hI.congr (congrArg Database.outbox (hdb t.world r)) (hst t.world r hI.staged) ?_
    simp [Clocked.next, hfail r]
  · exact onward_next hI hp hv htime (hfail r)
  · exact h t r time hr hI hp htime hreads hcond

/-- What stays true of a listing as time goes on. -/
structure Later (w : W) (s t : Clocked W) : Prop where
  clock : s.clock ≤ t.clock
  deferred : ∀ id, s.deferred id <:+ t.deferred id
  listed : t.listed w = s.listed w

omit [Runtime] [Pydantic] [DecidableEq W] in
theorem Onward.later (h : Onward w s t) : Later w s t := ⟨h.clock, h.deferred, h.listed⟩

/-- A process's own calls but a listing. -/
theorem next_later (htime : s.clock ≤ time)
    (hlist : ∀ time limit, o ≠ .select (.pendingIds time limit)) :
    Later w s (s.next w o r time) where
  clock := htime
  deferred id := by
    simp only [Clocked.next]
    cases failure? o r with
    | none => exact List.suffix_rfl
    | some failure =>
        obtain ⟨id', u⟩ := failure
        by_cases hid : id = id'
        · subst hid
          simp
        · simp [Function.update_of_ne hid]
  listed := by
    simp only [Clocked.next]
    split
    · exact absurd rfl (hlist _ _)
    · rfl

/-- What had been committed of these events when `w` listed them is over. -/
def Listed (w : W) (ids : List Uuid) (s : Clocked W) : Prop :=
  ∀ id ∈ ids, ∃ recent seen, s.deferred id = recent ++ seen ∧ seen.length = s.listed w id ∧
    ∀ u ∈ seen, u ≤ s.clock

omit [Runtime] [Pydantic] [DecidableEq W] in
theorem Listed.later {ids : List Uuid} (h : Listed w ids s) (hl : Later w s t) :
    Listed w ids t := by
  intro id hid
  obtain ⟨recent, seen, heq, hlen, hover⟩ := h id hid
  obtain ⟨more, hmore⟩ := hl.deferred id
  refine ⟨more ++ recent, seen, ?_, ?_, fun u hu => (hover u hu).trans hl.clock⟩
  · rw [← hmore, heq, List.append_assoc]
  · rw [hlen, hl.listed]

/-- A dispatcher that has a row locked, at a time that no failed attempt on it ruled out. -/
structure Attempting (w : W) (record : OutboxEvent) (s : Clocked W) : Prop where
  lock : s.world.locks (.outbox record.eventId) = some w
  row : s.world.db.outbox? record.eventId = some record
  pending : record.publishedAt = none
  due : ∀ u ∈ s.deferred record.eventId, u ≤ s.clock

variable {record : OutboxEvent} {ids : List Uuid}

omit [Runtime] [Pydantic] [DecidableEq W] in
theorem Attempting.onward (h : Attempting w record s) (ho : Onward w s t) :
    Attempting w record t where
  lock := (ho.frame.locks _).mpr h.lock
  row := Eq.trans (ho.frame.rows _ h.lock) h.row
  pending := h.pending
  due u hu := (h.due u (ho.locked _ h.lock ▸ hu)).trans ho.clock

/-- A call that changes neither locks nor rows. -/
theorem Attempting.next (h : Attempting w record s) (htime : s.clock ≤ time)
    (hfail : failure? o r = none) (hlocks : (after w s.world o r).locks = s.world.locks)
    (hdb : (after w s.world o r).db = s.world.db) : Attempting w record (s.next w o r time) where
  lock := (congrFun hlocks _).trans h.lock
  row := (congrArg (Database.outbox? · record.eventId) hdb).trans h.row
  pending := h.pending
  due u hu := by
    simp only [Clocked.next, hfail] at hu
    exact (h.due u hu).trans htime

/-- **Publishing** is due. -/
theorem publish_backoff {event : IncidentCreatedEvent} {topic : Text}
    (hval : IncidentCreatedEvent.modelValidate record.payload = .ok event)
    (h : Attempting w record s) (hlisted : Listed w ids s) :
    (publish event topic).Safe (backoff env) w
      (fun _ t => Attempting w record t ∧ Listed w ids t)
      (fun _ t => Attempting w record t ∧ Listed w ids t) s := by
  refine safe_bind.mpr (quiet_backoff (fun _ => rfl) (fun _ _ => rfl) (fun _ _ hst => hst)
    fun t r time ho hI _ htime _ _ => ⟨trivial, ?_⟩)
  have ht := (h.onward ho).next (r := r) htime rfl rfl rfl
  have hl := (hlisted.later ho.later).later (next_later (r := r) htime (by simp))
  refine safe_bind.mpr (safe_answer.mpr ⟨fun _ _ => ?_, fun _ _ => ⟨ht, hl⟩⟩)
  have hlocks : ∀ (s : World W) r, (after w s (.produce event topic) r).locks = s.locks := by
    rintro s (_ | _ | _ | _) <;> simp only [after] <;> (try split) <;> rfl
  have hdb : ∀ (s : World W) r, (after w s (.produce event topic) r).db = s.db := by
    rintro s (_ | _ | _ | _) <;> simp only [after] <;> (try split) <;> rfl
  have hst : ∀ (s : World W) r, (after w s (.produce event topic) r).staged = s.staged := by
    rintro s (_ | _ | _ | _) <;> simp only [after] <;> (try split) <;> rfl
  refine safe_bind.mpr (quiet_backoff (fun _ => rfl) hdb
    (fun s r hs v => (congrFun (hst s r) v).trans (hs v))
    fun u r' time' ho' hI' _ htime' _ _ => ?_)
  have hu := ht.onward ho'
  have hid : event.eventId = record.eventId :=
    hI'.payloads record (List.mem_of_find?_eq_some hu.row) event hval
  refine ⟨fun d hd => ?_, ?_⟩
  · rw [hid] at hd
    exact (hu.due d hd).trans htime'
  · have hv : Attempting w record (u.next w (.produce event topic) r' time') :=
      hu.next htime' rfl (hlocks _ _) (hdb _ _)
    have hlv := (hl.later ho'.later).later (next_later (r := r') htime' (by simp))
    cases r' <;> exact ⟨hv, hlv⟩

theorem attemptPublish_backoff (h : Attempting w record s) (hlisted : Listed w ids s) :
    (OutboxDispatcher.attemptPublish record).Safe (backoff env) w
      (fun _ t => Attempting w record t ∧ Listed w ids t)
      (fun _ t => Attempting w record t ∧ Listed w ids t) s := by
  refine safe_tryCatch.mpr (safe_bind.mpr (safe_answer.mpr ⟨fun event hval => ?_, fun e _ => ?_⟩))
  · refine safe_bind.mpr ((publish_backoff hval h hlisted).mono (fun _ t ht => ht) fun e t ht => ?_)
    split <;> exact ht
  · split <;> exact ⟨h, hlisted⟩

/-! ## Commits -/

omit [Runtime] [Pydantic] in
theorem retryDelay_nonneg (attempt : Nat) : 0 ≤ OutboxDispatcher.retryDelay attempt := by
  exact Int.mul_nonneg (Int.natCast_nonneg _) (by decide)

omit [DecidableEq W] [Runtime] in
/-- The update of one row, in which what was committed of its event still is. -/
theorem BackoffInv.update {edited : OutboxEvent} (hI : BackoffInv s)
    (hrow : s.world.db.outbox? record.eventId = some record)
    (hid : edited.eventId = record.eventId) (hpay : edited.payload = record.payload)
    (hdb : t.world.db = s.world.db.apply (.updateOutbox record edited))
    (hst : ∀ w, t.world.staged w = [])
    (hother : ∀ id, id ≠ record.eventId → t.deferred id = s.deferred id)
    (hself : ∀ u ∈ t.deferred record.eventId, u ≤ edited.nextAttemptAt) : BackoffInv t where
  staged := hst
  nodup := by
    have hmap : t.world.db.outbox.map (·.eventId) = s.world.db.outbox.map (·.eventId) := by
      rw [hdb, Database.apply, List.map_map]
      refine List.map_congr_left fun r _ => ?_
      simp only [Function.comp_apply]
      split <;> rfl
    exact hmap ▸ hI.nodup
  payloads := by
    intro r hr
    rw [hdb, Database.apply, List.mem_map] at hr
    obtain ⟨r₀, hr₀, rfl⟩ := hr
    split
    · have := hI.payloads r₀ hr₀
      simpa [OutboxEvent.Staged, OutboxEvent.merge, hpay] using this
    · exact hI.payloads r₀ hr₀
  ahead id u hu := by
    by_cases hid' : id = record.eventId
    · subst hid'
      exact ⟨edited, outbox?_updated (t := t.world) hrow hdb hid, hself u hu⟩
    · rw [hother id hid'] at hu
      obtain ⟨r, hr, hnext⟩ := hI.ahead id u hu
      exact ⟨r, (others_update hdb id hid').trans hr, hnext⟩

theorem next_deferred_commit {edited : OutboxEvent}
    {r : Resp (.commit .dispatch [.updateOutbox record edited])} :
    (s.next w (.commit .dispatch [.updateOutbox record edited]) r time).deferred =
      if edited.publishedAt = none ∧ CommitReport.effective r = true then
        Function.update s.deferred record.eventId
          (edited.nextAttemptAt :: s.deferred record.eventId)
      else s.deferred := by
  by_cases h : edited.publishedAt = none ∧ CommitReport.effective r = true
  · simp only [Clocked.next, failure?, if_pos h]
  · simp only [Clocked.next, failure?, if_neg h]

/-- **The commit of an attempt**: either it leaves the time in the row, or it records a failure
with a time that is not before any that was recorded. -/
theorem commit_backoff {edited : OutboxEvent} (h : Attempting w record s)
    (hlisted : Listed w ids s) (hid : edited.eventId = record.eventId)
    (hpay : edited.payload = record.payload) (hattempts : edited.attempts = record.attempts + 1)
    (hnext : edited.publishedAt ≠ none ∧ edited.nextAttemptAt = record.nextAttemptAt ∨
      ∀ u ∈ s.deferred record.eventId, u ≤ edited.nextAttemptAt) :
    (commit .dispatch [.updateOutbox record edited]).Safe (backoff env) w
      (fun _ => Listed w ids) (fun _ => Listed w ids) s := by
  have hkeys : (Change.updateOutbox record edited).keys = [.outbox record.eventId] := by
    refine if_neg fun he => ?_
    rw [he] at hattempts
    omega
  refine safe_bind.mpr (issue_backoff fun t r time ho hI hp htime _ _ => ?_)
  have ht := h.onward ho
  have hl := (hlisted.later ho.later).later (next_later (r := r) htime (by simp))
  have hown : ∀ v, v ≠ w → ∀ id, t.world.locks (.outbox id) = some v → id ≠ record.eventId := by
    rintro v hv id hlock rfl
    exact hv (Option.some.inj (hlock.symm.trans ht.lock))
  -- what another process relies on, whatever the report
  have hothers : ∀ v, v ≠ w → Onward v t (t.next w _ r time) := by
    intro v hv
    refine ⟨after_frame hI.locked hp hv, htime, (next_later (w := w) (r := r) htime nofun).deferred,
      fun id hlock => ?_, rfl⟩
    rw [next_deferred_commit]
    split
    · exact Function.update_of_ne (hown v hv id hlock) _ _
    · rfl
  have hrow : CommitReport.effective r = true → (after w t.world _ r).db =
      t.world.db.apply (.updateOutbox record edited) := by
    rcases r with _ | ⟨e, _ | _⟩ <;> intro heff
    · simp [after, settle, hI.staged w]
    · cases heff
    · simp [after, settle, hI.staged w]
  have hstaged : ∀ v, (after w t.world _ r).staged v = [] := by
    intro v
    by_cases hv : v = w
    · subst v
      rcases r with _ | ⟨e, _ | _⟩ <;> simp [after, settle, World.rollback, hI.staged]
    · rcases r with _ | ⟨e, _ | _⟩ <;> simp [after, settle, World.rollback, hI.staged, hv]
  refine ⟨⟨?_, hothers⟩, trivial, ?_⟩
  · cases heff : CommitReport.effective r with
    | true =>
        refine hI.update ht.row hid hpay (hrow heff) hstaged (fun id hne => ?_) fun u hu => ?_
        · rw [next_deferred_commit]
          split
          · exact Function.update_of_ne hne _ _
          · rfl
        · -- what was recorded before, and what is recorded now
          have hold : ∀ u ∈ t.deferred record.eventId, u ≤ edited.nextAttemptAt := by
            intro u hu
            rcases hnext with ⟨-, hsame⟩ | hlater
            · obtain ⟨row, hfound, hahead⟩ := hI.ahead _ u hu
              cases hfound.symm.trans ht.row
              exact hsame ▸ hahead
            · exact hlater u (ho.locked _ h.lock ▸ hu)
          rw [next_deferred_commit] at hu
          split at hu
          · rw [Function.update_self] at hu
            rcases List.mem_cons.mp hu with rfl | hu
            · exact le_rfl
            · exact hold u hu
          · exact hold u hu
    | false =>
        refine hI.congr ?_ hstaged ?_
        · rcases r with _ | ⟨e, _ | _⟩
          · cases heff
          · simp [Clocked.next, after]
          · cases heff
        · rw [next_deferred_commit, if_neg fun h => by simp [heff] at h]
  · rcases r with _ | ⟨e, _ | _⟩ <;> exact hl

/-! ## Dispatchers -/

/-- Reading the clock: the time that is read is that of the call. -/
theorem now_backoff {Q : Timestamp → Clocked W → Prop}
    (h : ∀ t time, Onward w s t → BackoffInv t → t.clock ≤ time →
      Q time (t.next w .now time time)) :
    now.Safe (backoff env) w Q X s := by
  refine quiet_backoff (fun _ => rfl) (fun _ _ => rfl) (fun _ _ hst => hst)
    fun t r time ho hI _ htime hreads _ => ⟨trivial, ?_⟩
  obtain rfl : r = time := hreads
  exact h t r ho hI htime

theorem deferEvent_backoff {exc : PyExc} (h : Attempting w record s) (hlisted : Listed w ids s) :
    (OutboxDispatcher.deferEvent record exc).Safe (backoff env) w (fun _ => Listed w ids)
      (fun _ => Listed w ids) s := by
  refine safe_bind.mpr (now_backoff fun t time ho hI htime => ?_)
  have ht := h.onward ho
  have hl := (hlisted.later ho.later).later (next_later (o := .now) (r := time) htime nofun)
  refine safe_bind.mpr (Safe.mono (commit_backoff (ht.next (o := .now) (r := time) htime rfl rfl
    rfl) hl ?_ ?_ ?_ (.inr fun u hu => ?_)) (fun _ u hu => hu) fun _ u hu => hu)
  · rfl
  · rfl
  · rfl
  · have hdue : u ≤ time := (ht.due u hu).trans htime
    exact hdue.trans (Int.le_add_of_nonneg_right (retryDelay_nonneg _))

theorem markPublished_backoff (h : Attempting w record s) (hlisted : Listed w ids s) :
    (OutboxDispatcher.markPublished record).Safe (backoff env) w (fun _ => Listed w ids)
      (fun _ => Listed w ids) s := by
  refine safe_bind.mpr (now_backoff fun t time ho hI htime => ?_)
  have hl := (hlisted.later ho.later).later (next_later (o := .now) (r := time) htime nofun)
  refine safe_bind.mpr (Safe.mono (commit_backoff ((h.onward ho).next (o := .now) (r := time) htime
    rfl rfl rfl) hl ?_ ?_ ?_ (.inl ⟨?_, ?_⟩)) (fun _ u hu => hu) fun _ u hu => hu)
  · rfl
  · rfl
  · rfl
  · exact Option.some_ne_none time
  · rfl

theorem close_backoff (hlisted : Listed w ids s) :
    (issue .closeSession).Safe (backoff env) w (fun _ => Listed w ids) X s := by
  refine quiet_backoff (fun _ => rfl) (fun _ _ => rfl) (fun u _ hst v => ?_)
    fun t r time ho _ _ htime _ _ => ⟨trivial, ?_⟩
  · by_cases hv : v = w
    · subst v
      simp [after, World.rollback]
    · simp [after, World.rollback, hv, hst v]
  · exact (hlisted.later ho.later).later (next_later (r := r) htime (by simp))

theorem withSession_backoff {α : Type} {body : Py α} (h : body.Safe (backoff env) w
    (fun _ => Listed w ids) (fun _ => Listed w ids) s) :
    (withSession body).Safe (backoff env) w (fun _ => Listed w ids) (fun _ => Listed w ids) s :=
  safe_andFinally (h.mono (fun _ _ ht => close_backoff ht) fun _ _ ht => close_backoff ht)

/-- **One attempt** of a listed event is due: what was committed before the listing was over by
then, and what was committed since is over by the condition. -/
theorem dispatchEvent_backoff {eventId : Uuid} (hlisted : Listed w (eventId :: ids) s) :
    (OutboxDispatcher.dispatchEvent eventId).Safe (backoff env) w (fun _ => Listed w ids)
      (fun _ => Listed w ids) s := by
  have hrest : Listed w ids s := fun id hid => hlisted id (List.mem_cons_of_mem _ hid)
  refine withSession_backoff (safe_bind.mpr (issue_backoff
    fun t r time ho hI hp htime _ hcond => ?_))
  have hothers : ∀ v, v ≠ w → Onward v t (t.next w (.getForDispatch eventId) r time) :=
    fun v hv => onward_next hI hp hv htime rfl
  have hl := (hrest.later ho.later).later (next_later (o := .getForDispatch eventId) (r := r)
    htime nofun)
  rcases r with e | _ | record
  · exact ⟨⟨hI.congr rfl hI.staged rfl, hothers⟩, trivial, hl⟩
  · exact ⟨⟨hI.congr rfl hI.staged rfl, hothers⟩, trivial, hl⟩
  · have hfound : t.world.dispatchable w eventId = some record := (show _ = _ from hp).symm
    obtain ⟨hrow, hpend, -⟩ := dispatchable_eq_some.mp hfound
    have hdue : ∀ u ∈ t.deferred eventId, u ≤ time := by
      obtain ⟨recent, seen, heq, hlen, hover⟩ := hlisted.later ho.later eventId List.mem_cons_self
      have hrecent := hcond eventId rfl (by rw [hfound]; exact Option.some_ne_none record)
      rw [heq, ← hlen, List.length_append, Nat.add_sub_cancel, List.take_left] at hrecent
      intro u hu
      rw [heq] at hu
      rcases List.mem_append.mp hu with hu | hu
      · exact hrecent u hu
      · exact (hover u hu).trans htime
    have hid : record.eventId = eventId := by simpa using List.find?_some hrow
    subst hid
    refine ⟨⟨hI.congr rfl hI.staged rfl, hothers⟩, hdue, ?_⟩
    have hold : Attempting w record (t.next w (.getForDispatch record.eventId)
        (.ok (some record)) time) := ⟨if_pos (by simp), hrow, hpend, hdue⟩
    refine safe_bind.mpr (safe_answer.mpr ⟨fun found hfound => ?_, nofun⟩)
    cases hfound
    refine safe_bind.mpr ((attemptPublish_backoff hold hl).mono (fun failure u hu => ?_)
      fun _ u hu => hu.2)
    cases failure with
    | none => exact markPublished_backoff hu.1 hu.2
    | some exc => exact deferEvent_backoff hu.1 hu.2

theorem dispatchAll_backoff (published : Nat) (hlisted : Listed w ids s) :
    (OutboxDispatcher.dispatchAll ids published).Safe (backoff env) w (fun _ _ => True)
      (fun _ _ => True) s := by
  induction ids generalizing published s with
  | nil => trivial
  | cons eventId ids ih =>
      refine safe_bind.mpr ((dispatchEvent_backoff hlisted).mono (fun outcome t ht => ?_)
        fun _ _ _ => trivial)
      cases outcome with
      | published => exact ih _ ht
      | deferred => trivial
      | unavailable => exact ih _ ht

/-- **A listing** leaves out the events that a failed attempt ruled out. -/
theorem listing_backoff (batchSize : Nat) :
    (withSession (do
      let time ← now
      select (.pendingIds time batchSize))).Safe (backoff env) w (fun eventIds => Listed w eventIds)
      (fun _ _ => True) s := by
  refine safe_andFinally (Safe.mono (Q := fun eventIds => Listed w eventIds)
    (X := fun _ => Listed w []) ?_ (fun _ _ ht => close_backoff ht)
    fun _ t ht => (close_backoff ht).mono (fun _ _ _ => trivial) fun _ _ hx => hx)
  refine safe_bind.mpr (now_backoff fun t start ho hI htime => ?_)
  refine safe_bind.mpr (quiet_backoff (fun _ => rfl) (fun _ _ => rfl) (fun _ _ hst => hst)
    fun u r time ho' hI' hp htime' _ _ => ⟨trivial, ?_⟩)
  refine safe_answer.mpr ⟨fun eventIds hids => ?_, fun _ _ => nofun⟩
  subst hids
  have hstart : start ≤ u.clock := ho'.clock
  obtain rfl : eventIds = u.world.db.pendingIds start batchSize := hp
  intro id hid
  rw [Database.pendingIds_eq_map] at hid
  obtain ⟨row, hrow, rfl⟩ := List.mem_map.mp hid
  obtain ⟨hmem, -, hnext⟩ := Database.mem_of_mem_dueRows hrow
  refine ⟨[], u.deferred row.eventId, rfl, by simp [Clocked.next], fun d hd => ?_⟩
  obtain ⟨found, hfound, hahead⟩ := hI'.ahead _ d hd
  cases hfound.symm.trans (Database.outbox?_of_mem hI'.nodup hmem)
  exact ((hahead.trans hnext).trans hstart).trans htime'

theorem dispatchPending_backoff (batchSize : Nat) :
    (OutboxDispatcher.dispatchPending batchSize).Safe (backoff env) w (fun _ _ => True)
      (fun _ _ => True) s :=
  safe_bind.mpr ((listing_backoff batchSize).mono (fun _ _ ht => dispatchAll_backoff 0 ht)
    fun _ _ _ => trivial)

theorem retryLoop_backoff (batchSize rounds : Nat) :
    (OutboxDispatcher.retryLoop batchSize rounds).Safe (backoff env) w (fun _ _ => True)
      (fun _ _ => True) s := by
  induction rounds generalizing s with
  | zero => trivial
  | succ rounds ih =>
      refine safe_bind.mpr (quiet_backoff (fun _ => rfl) (fun _ _ => rfl) (fun _ _ hst => hst)
        fun t stop time _ _ _ _ _ _ => ⟨trivial, ?_⟩)
      cases stop with
      | true => trivial
      | false =>
          refine safe_bind.mpr (safe_tryCatch.mpr (safe_bind.mpr ?_))
          exact (dispatchPending_backoff batchSize).mono (fun _ _ _ => ih) fun _ _ _ => ih

/-! ## Runs -/

/-- A state from which failed attempts are written down: unique events, payloads as an intake
leaves them, and no transaction under way. -/
structure BackoffStart (s : Clocked W) : Prop where
  staged : ∀ w, s.world.staged w = []
  nodup : (s.world.db.outbox.map (·.eventId)).Nodup
  payloads : ∀ r ∈ s.world.db.outbox, r.Staged
  deferred : ∀ id, s.deferred id = []

/-- **Backoff is kept by all dispatchers together** in every run in which no dispatcher comes
to an event too early that another one failed to publish after it was listed: no attempt on
an event begins, and nothing is published of it, at a time that a failed attempt ruled out. -/
theorem backoff_kept {s₀ : Clocked W} (h₀ : BackoffStart s₀) (batchSize rounds : W → Nat)
    {p q : Pool Resp PyExc Unit W (Clocked W)}
    (hp : Pool.Reachable (unhurried env)
      (fun w => OutboxDispatcher.retryLoop (batchSize w) (rounds w)) s₀ p)
    {w : W} {o : Op} {r : Resp o} (hs : Pool.Step (unhurried env) p (.act w o r) q) :
    Due o r p.world q.world := by
  have hinv : (backoff env).inv s₀ :=
    ⟨h₀.staged, h₀.nodup, h₀.payloads, fun id u hu => by
      rw [h₀.deferred id] at hu
      cases hu⟩
  have hguar := hp.guar (d := backoff env) hinv
    (fun w => retryLoop_backoff (batchSize w) (rounds w)) hs
  exact hguar.2

end

/-! ## Replays in time -/

section
variable [Runtime] [Pydantic] {W : Type} [DecidableEq W]

/-- The time of a call: the clock that it reads, or the time of the call before it. -/
def timeOf : (o : Op) → Resp o → Timestamp → Timestamp
  | .now, r, _ => r
  | _, _, clock => clock

/-- The platform in time as it is run. -/
def timedRunnable (env : Environment) (hurried : Bool) : Runnable Resp W (Clocked W) where
  permits w s o r := decide (permits env w s.world o r) &&
    decide (s.clock ≤ timeOf o r s.clock) &&
    (hurried || decide (Unhurried w s (s.next w o r (timeOf o r s.clock)) o))
  after w s o r := s.next w o r (timeOf o r s.clock)
  abort := (timed env).abort

theorem act_of_timedRunnable {env : Environment} {hurried : Bool} {w : W} {o : Op}
    {s t : Clocked W} {r : Resp o} (h : (timedRunnable env hurried).system.act w o s r t) :
    (timed env).act w o s r t ∧ (hurried = false → Unhurried w s t o) := by
  obtain ⟨hperm, rfl⟩ := h
  simp only [timedRunnable, Bool.and_eq_true, Bool.or_eq_true, decide_eq_true_eq] at hperm
  obtain ⟨⟨hpermits, htime⟩, hcond⟩ := hperm
  refine ⟨⟨hpermits, _, htime, ?_, rfl⟩, fun hcareful => ?_⟩
  · cases o with
    | now => exact rfl
    | _ => trivial
  · exact hcond.resolve_left (by simp [hcareful])

end

/-- One dispatcher that lists an event, and another that lists it as well. -/
def backoffState : Clocked Bool where
  world := { (World.blank : World Bool) with
    db := { (World.blank : World Bool).db with
      outbox := [waitingRow 7 offsetEvent.modelDump 0] } }
  clock := 0
  deferred _ := []
  listed _ _ := 0

/-- Calls of `w` at a time, to a broker that may not deliver. -/
def callsAt (w : Bool) (n : Nat) (time : Timestamp) (delivers : Bool) :
    Turn Resp Bool (Clocked Bool) := .calls w n fun o s =>
  match o with
  | .now => time
  | .produce _ _ => if delivers then .acknowledged 0 else .undelivered 1 none
  | o => plainAnswer w o s.world

/-- Whether the next call of `w` publishes the event, and which times were ruled out for it. -/
def publishesNext (w : Bool) (id : Uuid) (ruledOut : List Timestamp)
    (p : Pool Resp PyExc Unit Bool (Clocked Bool)) : Bool :=
  match p.task w with
  | some (.call (.produce event _) _) =>
      decide (event.eventId = id ∧ p.world.deferred id = ruledOut)
  | _ => false

theorem exists_publish {w : Bool} {id : Uuid} {ruledOut : List Timestamp}
    {p : Pool Resp PyExc Unit Bool (Clocked Bool)} (h : publishesNext w id ruledOut p = true) :
    ∃ event topic k, p.task w = some (.call (.produce event topic) k) ∧
      p.world.deferred event.eventId = ruledOut := by
  unfold publishesNext at h
  split at h
  · rename_i event topic k htask
    obtain ⟨hid, hruled⟩ := of_decide_eq_true h
    exact ⟨event, topic, k, htask, hid ▸ hruled⟩
  · cases h

/-- Of two dispatchers that have listed an event, one fails to publish it, and the other comes to
it when the time that was ruled out is over. -/
theorem backoff_kept_after_failure :
    ∃ p q event topic r,
      Pool.Reachable (unhurried Environment.calm) (fun _ => OutboxDispatcher.retryLoop 10 2)
        backoffState p ∧
      Pool.Step (unhurried Environment.calm) p (.act false (.produce event topic) r) q ∧
      p.world.deferred event.eventId = [2000000] ∧ (2000000 : Timestamp) ≤ q.world.clock := by
  have h₀ : BackoffStart backoffState :=
    ⟨fun _ => rfl, by decide, fun r hr => by
      obtain rfl := List.mem_singleton.mp hr
      intro e he
      obtain rfl := Except.ok.inj (he.symm.trans offsetEvent.modelValidate_modelDump)
      rfl, fun _ => rfl⟩
  have hrun : (Pool.replay (timedRunnable Environment.calm false)
      [callsAt true 4 0 false, callsAt false 4 0 true, callsAt true 6 0 false,
        callsAt true 2 3000000 true, callsAt false 2 3000000 true]
      ⟨backoffState, fun _ => some (OutboxDispatcher.retryLoop 10 2)⟩).any
        (publishesNext false 7 [2000000]) = true := by
    decide +kernel
  obtain ⟨p, hp, hP⟩ := Pool.exists_replay hrun
  obtain ⟨event, topic, k, htask, hruled⟩ := exists_publish hP
  have hact : ∀ (w : Bool) o s r t, (timedRunnable Environment.calm false).system.act w o s r t →
      (unhurried Environment.calm).act w o s r t :=
    fun w o s r t ha => (act_of_timedRunnable ha).imp_right fun h => h rfl
  have hreach : Pool.Reachable (unhurried Environment.calm) _ _ p := hp.mono hact rfl
  have hstep : Pool.Step (unhurried Environment.calm) p
      (.act false (.produce event topic) (.acknowledged 0))
      ⟨p.world.next false (.produce event topic) (.acknowledged 0) p.world.clock, _⟩ :=
    .act htask ⟨⟨trivial, _, le_rfl, trivial, rfl⟩, nofun⟩
  have hdue := backoff_kept h₀ (fun _ => 10) (fun _ => 2) hreach hstep
  exact ⟨p, _, event, topic, _, hreach, hstep, hruled,
    hdue 2000000 (by rw [hruled]; exact List.mem_cons_self)⟩

/-- **The backoff is not kept**: an event that two dispatchers have listed is published by one
of them at once, after the other failed and ruled out the next two seconds. -/
theorem backoff_ignored :
    ∃ p q event topic r,
      Pool.Reachable (timed Environment.calm) (fun _ => OutboxDispatcher.retryLoop 10 1)
        backoffState p ∧
      Pool.Step (timed Environment.calm) p (.act false (.produce event topic) r) q ∧
      ∃ u ∈ p.world.deferred event.eventId, q.world.clock < u := by
  have hrun : (Pool.replay (timedRunnable Environment.calm true)
      [callsAt true 4 0 false, callsAt false 4 0 true, callsAt true 6 0 false,
        callsAt false 2 0 true]
      ⟨backoffState, fun _ => some (OutboxDispatcher.retryLoop 10 1)⟩).any
        (fun p => publishesNext false 7 [2000000] p && decide (p.world.clock = 0)) = true := by
    decide +kernel
  obtain ⟨p, hp, hP⟩ := Pool.exists_replay hrun
  obtain ⟨hpublishes, hclock⟩ := Bool.and_eq_true_iff.mp hP
  obtain ⟨event, topic, k, htask, hruled⟩ := exists_publish hpublishes
  have hclock : p.world.clock = 0 := of_decide_eq_true hclock
  have hact : ∀ (w : Bool) o s r t, (timedRunnable Environment.calm true).system.act w o s r t →
      (timed Environment.calm).act w o s r t := fun w o s r t ha => (act_of_timedRunnable ha).1
  have hreach : Pool.Reachable (timed Environment.calm) _ _ p := hp.mono hact rfl
  have hstep : Pool.Step (timed Environment.calm) p
      (.act false (.produce event topic) (.acknowledged 0))
      ⟨p.world.next false (.produce event topic) (.acknowledged 0) p.world.clock, _⟩ :=
    .act htask ⟨trivial, _, le_rfl, trivial, rfl⟩
  refine ⟨p, _, event, topic, _, hreach, hstep, 2000000, ?_, ?_⟩
  · rw [hruled]
    exact List.mem_cons_self
  · exact (show p.world.clock < 2000000 by rw [hclock]; decide)

end SupportPlatform
