import SupportPlatform.Intake
import SupportPlatform.Isolation
import SupportPlatform.ReferenceCodec
import SupportPlatform.Replay

/-! # Publication of outbox events

Dispatchers of several processes work on one outbox, next to the intake that fills it.
An event's row stays locked from the moment a dispatcher finds it pending until that
dispatcher commits or rolls back, so at most one acknowledged publish is waiting for its
commit at any time (`OutboxInv`), and the acknowledged publishes of an event are counted by
the committed mark and by the commits that did not come.
-/


namespace SupportPlatform
open Program World

section
variable [Runtime] [Pydantic] {W : Type} [DecidableEq W] {env : Environment}

/-! ## Outbox rows under changes -/

namespace Database

section
omit [Runtime] [Pydantic]

theorem outbox?_update {db : Database} {l e cur : OutboxEvent}
    (h : db.outbox? l.eventId = some cur) :
    (db.apply (.updateOutbox l e)).outbox? l.eventId = some (l.merge e cur) := by
  have hfind := find?_map_update_self (·.eventId) (l.merge e) l.eventId (fun _ => rfl) db.outbox
  rw [show db.outbox.find? (fun x => x.eventId = l.eventId) = some cur from h] at hfind
  exact hfind

theorem outbox?_insert {db : Database} {row : OutboxEvent} (id : Uuid)
    (h : db.admits (.insertOutbox row)) :
    (db.apply (.insertOutbox row)).outbox? id =
      if row.eventId = id then some row else db.outbox? id := by
  have hn : ∀ r ∈ db.outbox, r.eventId ≠ row.eventId := by simpa [admits] using h
  simp only [apply, outbox?, List.find?_append]
  by_cases hid : row.eventId = id
  · have : db.outbox.find? (fun r => r.eventId = id) = none :=
      List.find?_eq_none.mpr fun r hr => by simpa [← hid] using hn r hr
    simp [this, hid]
  · simp [hid]

/-- Where identifiers are unique, a row is the one that a search for its event finds. -/
theorem outbox?_of_mem {db : Database} (hn : (db.outbox.map (·.eventId)).Nodup)
    {row : OutboxEvent} (hr : row ∈ db.outbox) : db.outbox? row.eventId = some row := by
  cases hf : db.outbox? row.eventId with
  | none => simpa using List.find?_eq_none.mp hf row hr
  | some found =>
      have hid : found.eventId = row.eventId := by simpa using List.find?_some hf
      rw [List.inj_on_of_nodup_map hn (List.mem_of_find?_eq_some hf) hr hid]

end

end Database

/-- The row differs from the other only in what a failed attempt records. -/
def OutboxEvent.Retried (r r' : OutboxEvent) : Prop :=
  r' = { r with attempts := r'.attempts, lastError := r'.lastError,
                nextAttemptAt := r'.nextAttemptAt }

namespace World

/-- The event has an outbox row that is not marked published. -/
def Pending (s : World W) (id : Uuid) : Prop :=
  ∃ r, s.db.outbox? id = some r ∧ r.publishedAt = none

/-- The event has an outbox row that is marked published. -/
def Published (s : World W) (id : Uuid) : Prop :=
  ∃ r, s.db.outbox? id = some r ∧ r.publishedAt ≠ none

end World

/-- The row of an event as the intake stages it: pending, with the event as its payload. -/
def OutboxEvent.Staged (r : OutboxEvent) : Prop :=
  ∀ e, IncidentCreatedEvent.modelValidate r.payload = .ok e → e.eventId = r.eventId

/-- **The ledger of publications.**  Only the holder of an event's row lock has an
acknowledged publish outstanding, and then the row is pending; a marked row was
acknowledged; and every acknowledged publish but one is accounted for as lost. -/
structure OutboxInv (s : World W) : Prop where
  nodup : (s.db.outbox.map (·.eventId)).Nodup
  staged : ∀ r ∈ s.db.outbox, r.Staged
  owing : ∀ w id, s.hist.owing w = some id →
    s.locks (.outbox id) = some w ∧ s.Pending id ∧ 0 < s.hist.acked id
  acked : ∀ id, s.Published id → 0 < s.hist.acked id
  bound : ∀ id, s.hist.acked id ≤ s.hist.lost id ∨
    s.hist.acked id ≤ s.hist.lost id + 1 ∧ (s.Published id ∨ ∃ w, s.hist.owing w = some id)


namespace OutboxInv
variable {s t : World W} {w : W}

omit [Runtime] [Pydantic] [DecidableEq W] in
theorem not_published {id : Uuid} (h : s.Pending id) : ¬ s.Published id := by
  obtain ⟨r, hr, hn⟩ := h
  rintro ⟨r', hr', hn'⟩
  rw [hr] at hr'
  cases hr'
  exact hn' hn

omit [Runtime] [DecidableEq W] in
/-- The ledger only looks at the outbox, the counts and the locks of the owing. -/
theorem congr (h : OutboxInv s) (hdb : t.db.outbox = s.db.outbox := by rfl)
    (ha : t.hist.acked = s.hist.acked := by rfl)
    (hl : ∀ id, s.hist.lost id ≤ t.hist.lost id := by exact fun _ => le_rfl)
    (ho : t.hist.owing = s.hist.owing := by rfl)
    (hk : ∀ v id, s.hist.owing v = some id → t.locks (.outbox id) = some v := by
      exact fun v id hv => (OutboxInv.owing ‹_› v id hv).1) : OutboxInv t where
  nodup := hdb ▸ h.nodup
  staged := hdb ▸ h.staged
  owing v id hv := by
    rw [ho] at hv
    obtain ⟨-, hp, ha'⟩ := h.owing v id hv
    exact ⟨hk v id hv, by simpa [Pending, Database.outbox?, hdb] using hp, ha ▸ ha'⟩
  acked id hp := by
    rw [ha]
    exact h.acked id (by simpa [Published, Database.outbox?, hdb] using hp)
  bound id := by
    have hb := h.bound id
    have hle := hl id
    have hp : t.Published id ↔ s.Published id := by simp [Published, Database.outbox?, hdb]
    rw [ha, ho, hp]
    exact hb.imp (fun hb => by omega) fun hb => ⟨by omega, hb.2⟩

omit [Runtime] [DecidableEq W] in
theorem lock (h : OutboxInv s) {ks : List RowKey} (hks : ∀ k ∈ ks, s.Free w k) :
    OutboxInv (s.lock w ks) :=
  h.congr rfl rfl (fun _ => le_rfl) rfl fun v id hv => lock_keeps hks (h.owing v id hv).1

/-- Sending changes takes locks, and changes nothing that is committed. -/
theorem flush (h : OutboxInv s) {cs : List Change} (hcs : s.CanWrite w cs) :
    OutboxInv (after w s (.flush cs) (.ok ())) := by
  have hl : OutboxInv (s.lock w (cs.flatMap Change.keys)) := h.lock fun k hk => by
    obtain ⟨c, hc, hk⟩ := List.mem_flatMap.mp hk
    exact hcs c hc k hk
  exact hl.congr rfl rfl (fun _ => le_rfl) rfl fun v id hv => (hl.owing v id hv).1

section
omit [Runtime]

theorem rollback (h : OutboxInv s) (hw : s.hist.owing w = none) : OutboxInv (s.rollback w) :=
  h.congr rfl rfl (fun _ => le_rfl) rfl fun v id hv => by
    have hne : v ≠ w := fun e => by rw [← e, hv] at hw; cases hw
    have := (h.owing v id hv).1
    simp [World.rollback, this, hne]

/-- An acknowledged publish that will not be committed is counted as lost. -/
theorem forfeit (h : OutboxInv s) (w : W) : OutboxInv (s.forfeit w) := by
  unfold World.forfeit
  split
  · exact h
  · rename_i id hid
    refine ⟨h.nodup, h.staged, fun v id' hv => ?_, h.acked, fun id' => ?_⟩
    · by_cases hvw : v = w
      · subst v
        simp at hv
      · simp only [Function.update_of_ne hvw] at hv
        exact h.owing v id' hv
    · by_cases he : id' = id
      · subst id'
        have hb := h.bound id
        simp only [Function.update_self]
        left
        omega
      · simp only [Function.update_of_ne he]
        refine (h.bound id').imp_right fun ⟨hb, hc⟩ => ⟨hb, hc.imp_right ?_⟩
        rintro ⟨v, hv⟩
        refine ⟨v, ?_⟩
        have hvw : v ≠ w := fun e => by rw [e, hid] at hv; cases hv; exact he rfl
        rwa [Function.update_of_ne hvw]

theorem crash (h : OutboxInv s) (w : W) : OutboxInv (s.crash w) := by
  have h' := (h.forfeit w).rollback (forfeit_owing s w)
  rw [← forfeit_rollback] at h'
  exact h'.congr rfl rfl (fun _ => le_rfl) rfl fun v id hv => (h'.owing v id hv).1

/-- An acknowledgement is owed from now on. -/
theorem acknowledge (h : OutboxInv s) {id : Uuid} (hw : s.hist.owing w = none)
    (hlock : s.locks (.outbox id) = some w) (hp : s.Pending id) {t : World W}
    (hdb : t.db = s.db) (hlocks : t.locks = s.locks)
    (ha : t.hist.acked = Function.update s.hist.acked id (s.hist.acked id + 1))
    (hl : t.hist.lost = s.hist.lost)
    (ho : t.hist.owing = Function.update s.hist.owing w (some id)) : OutboxInv t := by
  have hpub : ∀ id, t.Published id ↔ s.Published id := fun id => by simp [Published, hdb]
  have hpen : ∀ id, t.Pending id ↔ s.Pending id := fun id => by simp [Pending, hdb]
  refine ⟨hdb ▸ h.nodup, hdb ▸ h.staged, fun v id' hv => ?_, fun id' hid => ?_, fun id' => ?_⟩
  · rw [hlocks, hpen]
    by_cases hvw : v = w
    · subst v
      rw [ho, Function.update_self] at hv
      cases hv
      exact ⟨hlock, hp, by rw [ha, Function.update_self]; omega⟩
    · rw [ho, Function.update_of_ne hvw] at hv
      obtain ⟨hk, hp', ha'⟩ := h.owing v id' hv
      refine ⟨hk, hp', ?_⟩
      have hid : id' ≠ id := fun e => hvw (Option.some.inj (hk.symm.trans (e ▸ hlock)))
      rwa [ha, Function.update_of_ne hid]
  · have := h.acked id' ((hpub id').mp hid)
    rw [ha]
    by_cases he : id' = id
    · subst id'
      simp
    · rwa [Function.update_of_ne he]
  · rw [hl, ha, hpub]
    by_cases he : id' = id
    · subst id'
      -- the row is pending and nobody else holds its lock, so nothing was outstanding
      have hlow : s.hist.acked id ≤ s.hist.lost id := by
        rcases h.bound id with hb | ⟨-, hpu | ⟨v, hv⟩⟩
        · exact hb
        · exact absurd hpu (not_published hp)
        · have hv' := (h.owing v id hv).1.symm.trans hlock
          cases Option.some.inj hv'
          rw [hw] at hv
          cases hv
      refine .inr ⟨by rw [Function.update_self]; omega, .inr ⟨w, ?_⟩⟩
      rw [ho, Function.update_self]
    · rw [Function.update_of_ne he]
      refine (h.bound id').imp_right fun ⟨hb, hc⟩ => ⟨hb, hc.imp_right ?_⟩
      rintro ⟨v, hv⟩
      have hvw : v ≠ w := fun e => by rw [e, hw] at hv; cases hv
      exact ⟨v, by rwa [ho, Function.update_of_ne hvw]⟩

/-- A row's update by the holder of its lock: either the process owes the event and marks
it, or it owes nothing and leaves the row pending. -/
theorem update (h : OutboxInv s) {l e : OutboxEvent} {u : World W}
    (hl : s.db.outbox? l.eventId = some l) (hpend : l.publishedAt = none)
    (hid : e.eventId = l.eventId) (hpay : e.payload = l.payload) (hlock : s.locks (.outbox l.eventId) = some w)
    (hw : s.hist.owing w = some l.eventId ∧ e.publishedAt ≠ none ∨
      s.hist.owing w = none ∧ e.publishedAt = none)
    (hdb : u.db.outbox = (s.db.apply (.updateOutbox l e)).outbox)
    (hlocks : ∀ k v, v ≠ w → s.locks k = some v → u.locks k = some v)
    (ha : u.hist.acked = s.hist.acked) (hlo : u.hist.lost = s.hist.lost)
    (ho : u.hist.owing = Function.update s.hist.owing w none) : OutboxInv u := by
  have hself : u.db.outbox? l.eventId = some e := by
    rw [Database.outbox?, hdb, ← Database.outbox?, Database.outbox?_update hl,
      OutboxEvent.merge_loaded hid]
  have hother : ∀ id, id ≠ l.eventId → u.db.outbox? id = s.db.outbox? id := by
    intro id hne
    have hk : RowKey.outbox id ∉ (Change.updateOutbox l e).keys := by
      simp only [Change.keys]
      split <;> simp [hne]
    rw [Database.outbox?, hdb, ← Database.outbox?]
    exact s.db.apply_same hk
  have hpub : ∀ id, id ≠ l.eventId → (u.Published id ↔ s.Published id) := fun id hne => by
    simp [Published, hother id hne]
  refine ⟨?_, ?_, fun v id hv => ?_, fun id hp => ?_, fun id => ?_⟩
  · have hmap : u.db.outbox.map (·.eventId) = s.db.outbox.map (·.eventId) := by
      rw [hdb, Database.apply, List.map_map]
      refine List.map_congr_left fun r _ => ?_
      simp only [Function.comp_apply]
      split <;> rfl
    exact hmap ▸ h.nodup
  · intro r hr
    rw [hdb, Database.apply, List.mem_map] at hr
    obtain ⟨r₀, hr₀, rfl⟩ := hr
    split
    · have := h.staged r₀ hr₀
      simpa [OutboxEvent.Staged, OutboxEvent.merge, hpay] using this
    · exact h.staged r₀ hr₀
  · rw [ho] at hv
    have hvw : v ≠ w := fun e => by rw [e, Function.update_self] at hv; cases hv
    rw [Function.update_of_ne hvw] at hv
    obtain ⟨hk, hp, hpos⟩ := h.owing v id hv
    have hne : id ≠ l.eventId := fun e => hvw (Option.some.inj (hk.symm.trans (e ▸ hlock)))
    exact ⟨hlocks _ v hvw hk, by simpa [Pending, hother id hne] using hp, ha ▸ hpos⟩
  · rw [ha]
    by_cases hne : id = l.eventId
    · subst hne
      rcases hw with ⟨hw, -⟩ | ⟨-, hw⟩
      · exact (h.owing w _ hw).2.2
      · obtain ⟨r, hr, hn⟩ := hp
        rw [hself] at hr
        cases hr
        exact absurd hw hn
    · exact h.acked id ((hpub id hne).mp hp)
  · rw [ha, hlo]
    refine (h.bound id).imp_right fun hb => ⟨hb.1, ?_⟩
    have hc := hb.2
    by_cases hne : id = l.eventId
    · subst hne
      rcases hw with ⟨-, hw⟩ | ⟨hw, -⟩
      · exact .inl ⟨e, hself, hw⟩
      · rcases hc with hpu | ⟨v, hv⟩
        · exact absurd hpu (not_published ⟨l, hl, hpend⟩)
        · have hvw := Option.some.inj ((h.owing v _ hv).1.symm.trans hlock)
          rw [hvw, hw] at hv
          cases hv
    · rw [hpub id hne]
      refine hc.imp_right ?_
      rintro ⟨v, hv⟩
      have hvw : v ≠ w := fun e => by
        rw [e] at hv
        exact hne (Option.some.inj (hv.symm.trans (hw.elim (·.1) fun hw => by simp [hw.1] at hv)))
      exact ⟨v, by rwa [ho, Function.update_of_ne hvw]⟩

end

omit [DecidableEq W] [Runtime] in
/-- The intake's transaction adds a pending row. -/
theorem insert (h : OutboxInv s) {row : OutboxEvent} {u : World W}
    (hrow : row.Staged) (hpend : row.publishedAt = none)
    (hadm : s.db.admits (.insertOutbox row))
    (hdb : u.db.outbox = (s.db.apply (.insertOutbox row)).outbox)
    (hlocks : ∀ k v, s.hist.owing v ≠ none → s.locks k = some v → u.locks k = some v)
    (ha : u.hist.acked = s.hist.acked) (hlo : u.hist.lost = s.hist.lost)
    (ho : u.hist.owing = s.hist.owing) : OutboxInv u := by
  have hfind : ∀ id, u.db.outbox? id = if row.eventId = id then some row else s.db.outbox? id := by
    intro id
    rw [Database.outbox?, hdb, ← Database.outbox?, Database.outbox?_insert id hadm]
  have hnew : s.db.outbox? row.eventId = none := by
    simpa [Database.outbox?, Database.admits] using hadm
  have hpub : ∀ id, u.Published id ↔ s.Published id := by
    intro id
    simp only [Published, hfind]
    by_cases he : row.eventId = id
    · subst he
      simp [hnew, hpend]
    · simp [he]
  refine ⟨?_, ?_, fun v id hv => ?_, fun id hp => ?_, fun id => ?_⟩
  · rw [hdb, Database.apply, List.map_append, List.nodup_append]
    refine ⟨h.nodup, by simp, ?_⟩
    simpa [Database.admits] using hadm
  · intro r hr
    rw [hdb, Database.apply, List.mem_append, List.mem_singleton] at hr
    rcases hr with hr | rfl
    · exact h.staged r hr
    · exact hrow
  · rw [ho] at hv
    obtain ⟨hk, ⟨r, hr, hn⟩, hpos⟩ := h.owing v id hv
    refine ⟨hlocks _ v (by simp [hv]) hk, ⟨r, ?_, hn⟩, ha ▸ hpos⟩
    rw [hfind, if_neg, hr]
    rintro rfl
    rw [hnew] at hr
    cases hr
  · rw [ha]
    exact h.acked id ((hpub id).mp hp)
  · rw [ha, hlo, ho, hpub]
    exact h.bound id

end OutboxInv

/-! ## The discipline -/

/-- Nothing but one row differs, and that row only in what a failed attempt records. -/
def Database.SameBut (id : Uuid) (db db' : Database) : Prop :=
  db' = { db with outbox := db'.outbox } ∧
    List.Forall₂ (fun r r' => r' = r ∨ r.eventId = id ∧ r.Retried r') db.outbox db'.outbox

/-- What a call does to publication: a publish starts on a pending row, and the commit of
an attempt without an acknowledgement records the failure in its own row. -/
def PublicationStep (w : W) (s t : World W) : (o : Op) → Prop
  | .produce event _ => s.Pending event.eventId
  | .commit .dispatch _ => s.hist.owing w = none → ∃ id, s.locks (.outbox id) = some w ∧
      s.db.SameBut id t.db
  | _ => True

/-- What is marked published stays marked. -/
def World.PublishedMono (s t : World W) : Prop := ∀ id, s.Published id → t.Published id

omit [Runtime] [Pydantic] [DecidableEq W] in
theorem World.PublishedMono.of_db {s t : World W} (h : t.db = s.db) : s.PublishedMono t :=
  fun id hp => by simpa [Published, h] using hp

/-- **The discipline of publication.** -/
def publication (env : Environment) : Protocol env W where
  I := OutboxInv
  R _ _ _ := True
  G w o s _ t := s.PublishedMono t ∧ PublicationStep w s t o
  refl _ _ := trivial
  trans _ _ _ _ _ _ := trivial
  crash_inv w _ h := h.crash w
  crash_rely _ _ _ _ _ := trivial

/-- A process between two sessions: it has sent nothing and owes nothing. -/
structure Idle (w : W) (s : World W) : Prop where
  staged : s.staged w = []
  owing : s.hist.owing w = none

/-- A dispatcher that holds the lock of a pending row and owes `owed`. -/
structure Holding (w : W) (record : OutboxEvent) (owed : Option Uuid) (s : World W) : Prop where
  staged : s.staged w = []
  owing : s.hist.owing w = owed
  lock : s.locks (.outbox record.eventId) = some w
  row : s.db.outbox? record.eventId = some record
  pending : record.publishedAt = none

section
variable {w : W} {s t : World W} {record : OutboxEvent} {owed : Option Uuid}
  {X : PyExc → World W → Prop}

omit [Runtime] [Pydantic] [DecidableEq W] in
theorem Idle.frame (h : Idle w s) (hf : Frame w s t) : Idle w t :=
  ⟨hf.staged.trans h.staged, hf.owing.trans h.owing⟩

omit [Runtime] [Pydantic] [DecidableEq W] in
theorem Holding.frame (h : Holding w record owed s) (hf : Frame w s t) :
    Holding w record owed t :=
  ⟨hf.staged.trans h.staged, hf.owing.trans h.owing, (hf.locks _).mpr h.lock,
    Eq.trans (hf.rows _ h.lock) h.row, h.pending⟩

/-- A call that changes nothing. -/
theorem safe_quiet {o : Op} {Q : Resp o → World W → Prop} (hsame : ∀ t r, after w t o r = t)
    (hstep : ∀ t : World W, PublicationStep w t t o)
    (hQ : ∀ t r, Frame w s t → OutboxInv t → permits env w t o r → Q r t) :
    (issue o).Safe (publication env).discipline w Q X s := by
  refine Protocol.safe_issue fun t hf _ _ hI r hp => ?_
  rw [hsame t r]
  exact ⟨hI, fun _ _ => trivial, ⟨.of_db rfl, hstep t⟩, hQ t r hf hI hp⟩

theorem now_safe {Q : Timestamp → World W → Prop} (hQ : ∀ time t, Frame w s t → Q time t) :
    now.Safe (publication env).discipline w Q X s :=
  safe_quiet (fun _ _ => rfl) (fun _ => trivial) fun t time hf _ _ => hQ time t hf

/-- **Publishing** leaves an acknowledgement owed exactly when it returns. -/
theorem publish_safe {event : IncidentCreatedEvent} {topic : Text}
    (hval : IncidentCreatedEvent.modelValidate record.payload = .ok event)
    (h : Holding w record none s) :
    (publish event topic).Safe (publication env).discipline w
      (fun _ => Holding w record (some record.eventId)) (fun _ => Holding w record none) s := by
  refine safe_bind.mpr (safe_quiet (fun _ _ => rfl) (fun _ => trivial) fun t r hf _ _ => ?_)
  refine safe_bind.mpr (safe_answer.mpr ⟨fun _ _ => ?_, fun _ _ => h.frame hf⟩)
  refine safe_bind.mpr (Protocol.safe_issue fun u hf' _ _ hI r _ => ?_)
  have hu := (h.frame hf).frame hf'
  have hid : event.eventId = record.eventId :=
    hI.staged record (List.mem_of_find?_eq_some hu.row) event hval
  have hpend : u.Pending event.eventId := hid ▸ ⟨record, hu.row, hu.pending⟩
  cases r with
  | acknowledged p =>
      exact ⟨hI.acknowledge hu.owing (hid ▸ hu.lock) hpend rfl rfl rfl rfl rfl,
        fun _ _ => trivial, ⟨.of_db rfl, hpend⟩,
        ⟨hu.staged, by rw [← hid]; exact Function.update_self _ _ _, hu.lock, hu.row, hu.pending⟩⟩
  | raised e landed =>
      cases landed <;>
        exact ⟨hI.congr, fun _ _ => trivial, ⟨.of_db rfl, hpend⟩,
          ⟨hu.staged, hu.owing, hu.lock, hu.row, hu.pending⟩⟩
  | undelivered n landed =>
      cases landed <;>
        exact ⟨hI.congr, fun _ _ => trivial, ⟨.of_db rfl, hpend⟩,
          ⟨hu.staged, hu.owing, hu.lock, hu.row, hu.pending⟩⟩
  | deliveryError first landed =>
      cases landed <;>
        exact ⟨hI.congr, fun _ _ => trivial, ⟨.of_db rfl, hpend⟩,
          ⟨hu.staged, hu.owing, hu.lock, hu.row, hu.pending⟩⟩

theorem attemptPublish_safe (h : Holding w record none s) :
    (OutboxDispatcher.attemptPublish record).Safe (publication env).discipline w
      (fun failure => Holding w record (if failure.isNone then some record.eventId else none))
      (fun _ => Holding w record none) s := by
  refine safe_tryCatch.mpr (safe_bind.mpr (safe_answer.mpr ⟨fun event hval => ?_, fun e _ => ?_⟩))
  · refine safe_bind.mpr ((publish_safe hval h).mono (fun _ t ht => ht) fun e t ht => ?_)
    split <;> exact ht
  · split <;> exact h

omit [Runtime] [Pydantic] in
theorem Database.SameBut.refl (id : Uuid) (db : Database) : db.SameBut id db :=
  ⟨rfl, List.forall₂_same.mpr fun _ _ => .inl rfl⟩

omit [Runtime] [Pydantic] [DecidableEq W] in
/-- An update of a pending row unmarks nothing. -/
theorem World.PublishedMono.update {l e : OutboxEvent} (hl : s.db.outbox? l.eventId = some l)
    (hpend : l.publishedAt = none) (ht : t.db = s.db.apply (.updateOutbox l e)) :
    s.PublishedMono t := by
  rintro id ⟨r, hr, hn⟩
  have hne : id ≠ l.eventId := by
    rintro rfl
    rw [hl] at hr
    cases hr
    exact hn hpend
  have hk : RowKey.outbox id ∉ (Change.updateOutbox l e).keys := by
    simp only [Change.keys]
    split <;> simp [hne]
  exact ⟨r, by rw [ht]; exact Eq.trans (s.db.apply_same hk) hr, hn⟩

omit [DecidableEq W] [Runtime] [Pydantic] in
/-- Nor does a new row. -/
theorem World.PublishedMono.insert {row : OutboxEvent} (hadm : s.db.admits (.insertOutbox row))
    (ht : t.db.outbox = (s.db.apply (.insertOutbox row)).outbox) : s.PublishedMono t := by
  rintro id ⟨r, hr, hn⟩
  refine ⟨r, ?_, hn⟩
  rw [Database.outbox?, ht, ← Database.outbox?, Database.outbox?_insert id hadm, if_neg, hr]
  rintro rfl
  have : s.db.outbox? row.eventId = none := by simpa [Database.outbox?, Database.admits] using hadm
  rw [this] at hr
  cases hr

omit [Runtime] [Pydantic] in
/-- A failed attempt's row differs from the row it was in nothing else. -/
theorem sameBut_update {db : Database} {l e : OutboxEvent} (h : OutboxEvent.Retried l e)
    (hl : db.outbox? l.eventId = some l) (hn : (db.outbox.map (·.eventId)).Nodup) :
    db.SameBut l.eventId (db.apply (.updateOutbox l e)) := by
  have hid : e.eventId = l.eventId := by rw [h]
  refine ⟨rfl, ?_⟩
  rw [Database.apply, List.forall₂_map_right_iff, List.forall₂_same]
  intro r hr
  by_cases hr' : r.eventId = l.eventId
  · have hrl : r = l := List.inj_on_of_nodup_map hn hr (List.mem_of_find?_eq_some hl) hr'
    subst hrl
    rw [if_pos rfl, OutboxEvent.merge_loaded hid]
    exact .inr ⟨rfl, h⟩
  · rw [if_neg hr']
    exact .inl rfl

/-- The commit of an attempt: either it marks the event it owes, or it records a failure. -/
theorem commit_safe {edited : OutboxEvent} (h : Holding w record owed s)
    (hid : edited.eventId = record.eventId) (hpay : edited.payload = record.payload)
    (hw : owed = some record.eventId ∧ edited.publishedAt ≠ none ∨
      owed = none ∧ edited.publishedAt = none ∧ record.Retried edited) :
    (commit .dispatch [.updateOutbox record edited]).Safe (publication env).discipline w
      (fun _ => Idle w) (fun _ => Idle w) s := by
  refine safe_bind.mpr (Protocol.safe_issue fun t hf _ _ hI r hp => ?_)
  have ht := h.frame hf
  have hw' : t.hist.owing w = some record.eventId ∧ edited.publishedAt ≠ none ∨
      t.hist.owing w = none ∧ edited.publishedAt = none :=
    hw.imp (fun ⟨a, b⟩ => ⟨ht.owing.trans a, b⟩) fun ⟨a, b, _⟩ => ⟨ht.owing.trans a, b⟩
  have hsettle : (t.settle w .dispatch [.updateOutbox record edited]).db =
      t.db.apply (.updateOutbox record edited) := by
    simp [settle, ht.staged]
  have hstep : t.hist.owing w = none →
      t.db.SameBut record.eventId (t.db.apply (.updateOutbox record edited)) := fun ho => by
    refine sameBut_update ?_ ht.row hI.nodup
    rcases hw with ⟨hs, -⟩ | ⟨-, -, hr⟩
    · rw [ht.owing, hs] at ho
      cases ho
    · exact hr
  have hcommitted : OutboxInv (after w t (.commit .dispatch [.updateOutbox record edited])
      .committed) := by
    refine hI.update ht.row ht.pending hid hpay ht.lock hw' (by rw [← hsettle]; rfl) ?_ rfl rfl rfl
    intro k v hv hk
    simp [after, settle, World.rollback, hk, hv]
  rcases r with _ | ⟨e, _ | _⟩
  · refine ⟨hcommitted, fun _ _ => trivial, ⟨?_, fun ho => ⟨_, ht.lock, ?_⟩⟩, ?_⟩
    · exact .update ht.row ht.pending hsettle
    · exact hsettle ▸ hstep ho
    · exact ⟨Function.update_self _ _ _, Function.update_self _ _ _⟩
  · refine ⟨hI.forfeit w, fun _ _ => trivial,
      ⟨.of_db (by simp [after]), fun ho => ⟨_, ht.lock, ?_⟩⟩, ?_⟩
    · simpa [after] using Database.SameBut.refl _ t.db
    · exact ⟨by simp [after, ht.staged], forfeit_owing _ _⟩
  · refine ⟨?_, fun _ _ => trivial, ⟨?_, fun ho => ⟨_, ht.lock, ?_⟩⟩, ?_⟩
    · refine hcommitted.congr (by simp [after]) (by simp [after]) (fun id => ?_) ?_ ?_
      · exact lost_le_forfeit (t.settle w .dispatch [.updateOutbox record edited]) w id
      · exact forfeit_owing_eq (t.settle w .dispatch [.updateOutbox record edited]) w
      · intro v id hv
        have := (hcommitted.owing v id hv).1
        simpa [after] using this
    · exact .update ht.row ht.pending (by simpa [after] using hsettle)
    · simpa [after] using hsettle ▸ hstep ho
    · exact ⟨by simp [after, settle, World.rollback], forfeit_owing _ _⟩

theorem deferEvent_safe {exc : PyExc} (h : Holding w record none s) :
    (OutboxDispatcher.deferEvent record exc).Safe (publication env).discipline w
      (fun _ => Idle w) (fun _ => Idle w) s := by
  refine safe_bind.mpr (now_safe fun time t hf => ?_)
  refine safe_bind.mpr (Safe.mono (commit_safe (h.frame hf) ?_ ?_ (.inr ⟨rfl, ?_, ?_⟩))
    (fun _ u hu => hu) fun _ u hu => hu)
  · rfl
  · rfl
  · exact h.pending
  · rfl

theorem markPublished_safe (h : Holding w record (some record.eventId) s) :
    (OutboxDispatcher.markPublished record).Safe (publication env).discipline w
      (fun _ => Idle w) (fun _ => Idle w) s := by
  refine safe_bind.mpr (now_safe fun time t hf => ?_)
  refine safe_bind.mpr (Safe.mono (commit_safe (h.frame hf) ?_ ?_ (.inl ⟨rfl, ?_⟩))
    (fun _ u hu => hu) fun _ u hu => hu)
  · rfl
  · rfl
  · exact Option.some_ne_none time

/-- Closing a session in which nothing is owed. -/
theorem close_safe (h : s.hist.owing w = none) :
    (issue .closeSession).Safe (publication env).discipline w (fun _ => Idle w) X s := by
  refine Protocol.safe_issue fun t hf _ _ hI _ _ => ?_
  have ho := hf.owing.trans h
  exact ⟨hI.rollback ho, fun _ _ => trivial, ⟨.of_db rfl, trivial⟩, Function.update_self _ _ _, ho⟩

theorem withSession_safe {α : Type} {body : Py α} (h : body.Safe (publication env).discipline w
    (fun _ t => t.hist.owing w = none) (fun _ t => t.hist.owing w = none) s) :
    (withSession body).Safe (publication env).discipline w (fun _ => Idle w) (fun _ => Idle w) s :=
  safe_andFinally (h.mono (fun _ _ ht => close_safe ht) fun _ _ ht => close_safe ht)

/-- **One dispatch attempt** leaves nothing owed, whichever way it ends. -/
theorem dispatchEvent_safe (eventId : Uuid) (h : Idle w s) :
    (OutboxDispatcher.dispatchEvent eventId).Safe (publication env).discipline w
      (fun _ => Idle w) (fun _ => Idle w) s := by
  refine withSession_safe (safe_bind.mpr (Protocol.safe_issue fun t hf _ _ hI r hp => ?_))
  have ht := h.frame hf
  rcases r with e | _ | record
  · exact ⟨hI, fun _ _ => trivial, ⟨.of_db rfl, trivial⟩, ht.owing⟩
  · exact ⟨hI, fun _ _ => trivial, ⟨.of_db rfl, trivial⟩, ht.owing⟩
  · obtain ⟨hrow, hpend, hfree⟩ := dispatchable_eq_some.mp (show _ = _ from hp).symm
    have hid : record.eventId = eventId := by simpa using List.find?_some hrow
    subst hid
    refine ⟨hI.lock (by simpa using hfree), fun _ _ => trivial, ⟨.of_db rfl, trivial⟩, ?_⟩
    have hold : Holding w record none (t.lock w [.outbox record.eventId]) :=
      ⟨ht.staged, ht.owing, if_pos (by simp), hrow, hpend⟩
    refine safe_bind.mpr (safe_answer.mpr ⟨fun found hfound => ?_, nofun⟩)
    cases hfound
    refine safe_bind.mpr ((attemptPublish_safe hold).mono (fun failure u hu => ?_)
      fun _ u hu => hu.owing)
    cases failure with
    | none => exact (markPublished_safe hu).mono (fun _ _ hv => hv.owing) fun _ _ hv => hv.owing
    | some exc => exact (deferEvent_safe hu).mono (fun _ _ hv => hv.owing) fun _ _ hv => hv.owing

theorem dispatchAll_safe (eventIds : List Uuid) (published : Nat) (h : Idle w s) :
    (OutboxDispatcher.dispatchAll eventIds published).Safe (publication env).discipline w
      (fun _ => Idle w) (fun _ => Idle w) s := by
  induction eventIds generalizing published s with
  | nil => exact h
  | cons eventId eventIds ih =>
      refine safe_bind.mpr ((dispatchEvent_safe eventId h).mono (fun outcome t ht => ?_)
        fun _ _ ht => ht)
      cases outcome with
      | published => exact ih _ ht
      | deferred => exact ht
      | unavailable => exact ih _ ht

theorem dispatchPending_safe (batchSize : Nat) (h : Idle w s) :
    (OutboxDispatcher.dispatchPending batchSize).Safe (publication env).discipline w
      (fun _ => Idle w) (fun _ => Idle w) s := by
  refine safe_bind.mpr ((withSession_safe ?_).mono (fun eventIds t ht => ?_) fun _ _ ht => ht)
  · refine safe_bind.mpr (now_safe fun time t hf => ?_)
    refine safe_bind.mpr (safe_quiet (fun _ _ => rfl) (fun _ => trivial) fun u r hf' _ _ => ?_)
    have hu := ((h.frame hf).frame hf').owing
    exact safe_answer.mpr ⟨fun _ _ => hu, fun _ _ => hu⟩
  · exact dispatchAll_safe eventIds 0 ht

theorem retryLoop_safe (batchSize fuel : Nat) (h : Idle w s) :
    (OutboxDispatcher.retryLoop batchSize fuel).Safe (publication env).discipline w
      (fun _ => Idle w) (fun _ => Idle w) s := by
  induction fuel generalizing s with
  | zero => exact h
  | succ fuel ih =>
      refine safe_bind.mpr (safe_quiet (fun _ _ => rfl) (fun _ => trivial) fun t stop hf _ _ => ?_)
      cases stop with
      | true => exact h.frame hf
      | false =>
          refine safe_bind.mpr (safe_tryCatch.mpr (safe_bind.mpr ?_))
          exact (dispatchPending_safe batchSize (h.frame hf)).mono (fun _ u hu => ih hu)
            fun _ u hu => ih hu

/-! ## The intake -/

/-- An intake that has sent its incident and, once `row` is there, its outbox row. -/
structure Staging (w : W) (row : Option OutboxEvent) (s : World W) : Prop where
  owing : s.hist.owing w = none
  staged : ∃ incident, s.staged w =
    .insertIncident incident :: row.toList.map Change.insertOutbox
  sound : ∀ r ∈ row, r.Staged ∧ r.publishedAt = none

omit [Runtime] [DecidableEq W] in
theorem Staging.frame {row : Option OutboxEvent} (h : Staging w row s) (hf : Frame w s t) :
    Staging w row t :=
  ⟨hf.owing.trans h.owing, hf.staged ▸ h.staged, h.sound⟩

theorem createIncident_safe (incident : IncidentRequest) (analysis : IncidentAnalysis)
    (h : Idle w s) :
    (createIncident incident analysis).Safe (publication env).discipline w
      (fun _ => Staging w none) (fun _ t => t.hist.owing w = none) s := by
  refine safe_bind.mpr (now_safe fun time t hf => ?_)
  refine safe_bind.mpr (Protocol.safe_issue fun u hf' _ _ hI r _ => ?_)
  have hu := (h.frame hf).frame hf'
  rcases r with e | id
  · exact ⟨hI, fun _ _ => trivial, ⟨.of_db rfl, trivial⟩, hu.owing⟩
  · refine ⟨hI.congr, fun _ _ => trivial, ⟨.of_db rfl, trivial⟩, hu.owing,
      ⟨{ incidentRecord incident analysis time with id := id }, ?_⟩, by simp⟩
    simp only [after, hu.staged]
    exact Function.update_self _ _ _

theorem createEvent_safe {record : Incident} {analysis : IncidentAnalysis}
    (h : Staging w none s) :
    (createEvent record analysis).Safe (publication env).discipline w
      (fun _ => Staging w none) (fun _ t => t.hist.owing w = none) s := by
  refine safe_bind.mpr (safe_quiet (fun _ _ => rfl) (fun _ => trivial) fun t id hf _ _ => ?_)
  refine safe_bind.mpr (now_safe fun time u hf' => ?_)
  have hu := (h.frame hf).frame hf'
  split
  · exact hu
  · exact hu.owing

theorem outboxRecord_staged [LawfulPydantic] (event : IncidentCreatedEvent) (topic : Text)
    (time : Timestamp) : (outboxRecord event topic time).Staged := by
  intro e he
  have := event.modelValidate_modelDump.symm.trans he
  cases this
  rfl

/-- The intake stages a pending row that holds the event. -/
theorem stageEvent_safe [LawfulPydantic] {event : IncidentCreatedEvent} {topic : Text}
    (h : Staging w none s) :
    (stageEvent event topic).Safe (publication env).discipline w
      (fun _ t => ∃ row, Staging w (some row) t) (fun _ t => t.hist.owing w = none) s := by
  refine safe_bind.mpr (now_safe fun time t hf => ?_)
  refine safe_bind.mpr (Protocol.safe_issue fun u hf' _ _ hI r hp => ?_)
  have hu := (h.frame hf).frame hf'
  rcases r with e | _
  · exact ⟨hI, fun _ _ => trivial, ⟨.of_db rfl, trivial⟩, hu.owing⟩
  · obtain ⟨incident, hstaged⟩ := hu.staged
    refine ⟨hI.flush hp.1, fun _ _ => trivial, ⟨.of_db rfl, trivial⟩, outboxRecord event topic time, hu.owing,
      ⟨incident, ?_⟩, ?_⟩
    · simp only [after, hstaged]
      exact Function.update_self _ _ _
    · rintro r ⟨⟩
      exact ⟨outboxRecord_staged event topic time, rfl⟩

/-- The intake's commit adds its row, if it takes effect. -/
theorem intakeCommit_safe {row : OutboxEvent} (h : Staging w (some row) s) :
    (commit .intake []).Safe (publication env).discipline w (fun _ => Idle w)
      (fun _ t => t.hist.owing w = none) s := by
  refine safe_bind.mpr (Protocol.safe_issue fun t hf _ hL hI r hp => ?_)
  have ht := h.frame hf
  obtain ⟨incident, hstaged⟩ := ht.staged
  obtain ⟨hrow, hpend⟩ := ht.sound row rfl
  have hsame : t.forfeit w = t := by simp [forfeit, ht.owing]
  have hcommitted : Environment.Accepts t w [] →
      OutboxInv (after w t (.commit .intake []) .committed) := by
    rintro ⟨-, hadm, -⟩
    simp only [hstaged, List.append_nil, Database.admitsAll, Option.toList_some, List.map_cons,
      List.map_nil, Bool.and_eq_true] at hadm
    refine hI.insert hrow hpend hadm.2.1 ?_ ?_ rfl rfl ?_
    · simp [after, settle, hstaged, Database.apply]
    · intro k v hv hk
      have hvw : v ≠ w := fun e => hv (e ▸ ht.owing)
      simp [after, settle, World.rollback, hk, hvw]
    · have hself := Function.update_eq_self w t.hist.owing
      rwa [ht.owing] at hself
  have hmono : Environment.Accepts t w [] → ∀ {u : World W},
      u.db = (t.settle w .intake []).db → t.PublishedMono u := by
    rintro ⟨-, hadm, -⟩ u hu
    simp only [hstaged, List.append_nil, Database.admitsAll, Option.toList_some, List.map_cons,
      List.map_nil, Bool.and_eq_true] at hadm
    refine .insert hadm.2.1 (by simp [hu, settle, hstaged, Database.apply])
  rcases r with _ | ⟨e, _ | _⟩
  · exact ⟨hcommitted hp, fun _ _ => trivial, ⟨hmono hp (by simp [after]), trivial⟩,
      Function.update_self _ _ _, Function.update_self _ _ _⟩
  · exact ⟨hI.forfeit w, fun _ _ => trivial, ⟨.of_db (by simp [after]), trivial⟩,
      forfeit_owing _ _⟩
  · rcases hp with ⟨-, -, hacc⟩ | ⟨hf, -⟩
    · have hc := hcommitted hacc
      refine ⟨?_, fun _ _ => trivial, ⟨hmono hacc (by simp [after]), trivial⟩, forfeit_owing _ _⟩
      refine hc.congr (by simp [after]) (by simp [after]) (fun id => ?_) ?_ ?_
      · exact lost_le_forfeit (t.settle w .intake []) w id
      · exact forfeit_owing_eq (t.settle w .intake []) w
      · intro v id hv
        simpa [after] using (hc.owing v id hv).1
    · cases hf

/-- **The intake** keeps the ledger, and its dispatch is one more attempt. -/
theorem analyzeAndPersistIncident_safe [LawfulPydantic] (topic : Text)
    (incident : IncidentRequest) (h : Idle w s) :
    (analyzeAndPersistIncident topic incident).Safe (publication env).discipline w
      (fun _ => Idle w) (fun _ => Idle w) s := by
  refine withSession_safe (safe_bind.mpr (safe_tryCatch.mpr (Safe.mono
    (Q := fun _ => Idle w) (X := fun _ t => t.hist.owing w = none) ?_ ?_ ?_)))
  · refine safe_bind.mpr ((createIncident_safe incident _ h).mono (fun record t ht => ?_)
      fun _ _ ht => ht)
    refine safe_bind.mpr ((createEvent_safe ht).mono (fun event u hu => ?_) fun _ _ hu => hu)
    refine safe_bind.mpr ((stageEvent_safe hu).mono (fun _ v hv => ?_) fun _ _ hv => hv)
    obtain ⟨row, hrow⟩ := hv
    exact safe_bind.mpr ((intakeCommit_safe hrow).mono (fun _ _ hw => hw) fun _ _ hw => hw)
  · intro event t ht
    refine safe_bind.mpr (safe_tryCatch.mpr (safe_bind.mpr ?_))
    exact (dispatchEvent_safe event.eventId ht).mono (fun _ _ hu => hu.owing)
      fun _ _ hu => hu.owing
  · intro e t ht
    split
    · exact safe_bind.mpr (close_safe ht |>.mono (fun _ _ hu => hu.owing) fun _ _ hu => hu)
    · exact ht

end

/-! ## Runs -/

/-- What a process of the outbox does. -/
inductive OutboxJob
  | intake (topic : Text) (incident : IncidentRequest)
  | dispatchEvent (eventId : Uuid)
  | dispatchPending (batchSize : Nat)
  | retryLoop (batchSize fuel : Nat)

/-- Its program. -/
def OutboxJob.main : OutboxJob → Py Unit
  | intake topic incident => analyzeAndPersistIncident topic incident >>= fun _ => ret ()
  | dispatchEvent eventId => OutboxDispatcher.dispatchEvent eventId >>= fun _ => ret ()
  | dispatchPending batchSize => OutboxDispatcher.dispatchPending batchSize >>= fun _ => ret ()
  | retryLoop batchSize fuel => OutboxDispatcher.retryLoop batchSize fuel

/-- A state from which publications are counted: some pending rows as an intake left them,
and no transaction under way. -/
structure OutboxStart (s : World W) : Prop where
  nodup : (s.db.outbox.map (·.eventId)).Nodup
  rows : ∀ r ∈ s.db.outbox, r.Staged ∧ r.publishedAt = none
  staged : ∀ w, s.staged w = []
  acked : ∀ id, s.hist.acked id = 0
  lost : ∀ id, s.hist.lost id = 0
  owing : ∀ w, s.hist.owing w = none

section
variable {s₀ : World W}

section
omit [Runtime] [DecidableEq W]

theorem OutboxStart.inv (h : OutboxStart s₀) : OutboxInv s₀ where
  nodup := h.nodup
  staged r hr := (h.rows r hr).1
  owing w id hw := by
    rw [h.owing w] at hw
    cases hw
  acked id hp := by
    obtain ⟨r, hr, hn⟩ := hp
    exact absurd (h.rows r (List.mem_of_find?_eq_some hr)).2 hn
  bound id := .inl (by rw [h.acked, h.lost])

theorem OutboxStart.idle (h : OutboxStart s₀) (w : W) : Idle w s₀ := ⟨h.staged w, h.owing w⟩

theorem OutboxStart.locked (h : OutboxStart s₀) : s₀.Locked := by
  intro w c hc
  rw [h.staged w] at hc
  cases hc

end

theorem OutboxJob.safe [LawfulPydantic] (job : OutboxJob) {w : W} (h : Idle w s₀) :
    job.main.Safe (publication env).discipline w (fun _ _ => True) (fun _ _ => True) s₀ := by
  cases job with
  | intake topic incident =>
      exact safe_bind.mpr ((analyzeAndPersistIncident_safe topic incident h).mono
        (fun _ _ _ => trivial) fun _ _ _ => trivial)
  | dispatchEvent eventId =>
      exact safe_bind.mpr ((dispatchEvent_safe eventId h).mono (fun _ _ _ => trivial)
        fun _ _ _ => trivial)
  | dispatchPending batchSize =>
      exact safe_bind.mpr ((dispatchPending_safe batchSize h).mono (fun _ _ _ => trivial)
        fun _ _ _ => trivial)
  | retryLoop batchSize fuel =>
      exact (retryLoop_safe batchSize fuel h).mono (fun _ _ _ => trivial) fun _ _ _ => trivial

omit [DecidableEq W] [Runtime] in
/-- An outbox row is the one that a search for its event finds. -/
theorem OutboxInv.outbox?_of_mem {s : World W} (h : OutboxInv s) {row : OutboxEvent}
    (hr : row ∈ s.db.outbox) : s.db.outbox? row.eventId = some row :=
  Database.outbox?_of_mem h.nodup hr

/-- **Publication is acknowledged before it is marked, and stops once it is marked.**  In
every run of intakes and dispatchers: a marked row was acknowledged; an event is
acknowledged at most once more than an acknowledgement of it was lost; once an event is
marked, no publish of it starts; and the commit of an attempt that was not acknowledged
changes the attempt's own row, in what a failed attempt records, and nothing else. -/
theorem publication_ledger [LawfulPydantic] (jobs : W → OutboxJob) (h₀ : OutboxStart s₀)
    {p : Pool Resp PyExc Unit W (World W)}
    (hp : Pool.Reachable (platform env) (fun w => (jobs w).main) s₀ p) :
    (∀ row ∈ p.world.db.outbox, row.publishedAt ≠ none → 0 < p.world.hist.acked row.eventId) ∧
    (∀ id, p.world.hist.acked id ≤ 1 + p.world.hist.lost id) ∧
    (∀ row ∈ p.world.db.outbox, row.publishedAt ≠ none →
      ∀ q, Relation.ReflTransGen (Pool.Next (platform env)) p q →
        ∀ w event topic r q', Pool.Step (platform env) q (.act w (.produce event topic) r) q' →
          event.eventId ≠ row.eventId) ∧
    (∀ w cs r q, Pool.Step (platform env) p (.act w (.commit .dispatch cs) r) q →
      p.world.hist.owing w = none → ∃ id, p.world.locks (.outbox id) = some w ∧
        p.world.db.SameBut id q.world.db) := by
  have hstart : (publication env).discipline.inv s₀ := ⟨h₀.locked, h₀.inv⟩
  have hsafe : ∀ w, ((jobs w).main).Safe (publication env).discipline w (fun _ _ => True)
      (fun _ _ => True) s₀ := fun w => (jobs w).safe (h₀.idle w)
  have hp' := hp.unrestricted
  have hinv := (hp'.inv hstart hsafe).2
  refine ⟨fun row hr hn => ?_, fun id => ?_, fun row hr hn q hq w event topic r q' hs he => ?_,
    fun w cs r q hs ho => ?_⟩
  · exact hinv.acked _ ⟨row, hinv.outbox?_of_mem hr, hn⟩
  · have := hinv.bound id
    omega
  · have hq' := Pool.Next.unrestricted hq
    have hpub : q.world.Published row.eventId :=
      hp'.stable (P := fun s => s.Published row.eventId) hstart hsafe
        (fun _ _ _ _ _ hg hP => hg.2.1 _ hP) (fun w s hP => (PublishedMono.of_db (by
          simp [platform, System.restrict, World.crash, World.rollback]) : s.PublishedMono _) _ hP)
        hq' ⟨row, hinv.outbox?_of_mem hr, hn⟩
    have hg := (hp'.run hq').guar hstart hsafe hs.unrestricted
    exact OutboxInv.not_published hg.2.2 (he ▸ hpub)
  · exact (hp'.guar hstart hsafe hs.unrestricted).2.2 ho

end

end

/-! ## A run -/

theorem contendedService_length : 1 ≤ ("api" : Text).length ∧ ("api" : Text).length ≤ 100 := by
  decide

/-- An intake and a dispatcher that lists its event before it is published and asks for
it afterwards. -/
def contendingJobs (intake : Bool) : OutboxJob :=
  if intake then
    .intake "incidents" ⟨"api", "boom", "trace", none, contendedService_length, by decide, by decide⟩
  else .dispatchPending 10

/-- The ledger of a run in which two processes attempt the same event and one publishes it. -/
theorem publication_ledger_contended :
    ∃ p : Pool Resp PyExc Unit Bool (World Bool),
      Pool.Reachable (platform Environment.calm) (fun w => (contendingJobs w).main)
        World.blank p ∧
      p.world.db.outbox.map (·.publishedAt) = [some 0] ∧
      0 < p.world.hist.acked 0 ∧ p.world.hist.acked 0 ≤ 1 + p.world.hist.lost 0 := by
  obtain ⟨p, hp, hP⟩ := exists_run Environment.calm (fun w => (contendingJobs w).main)
    World.blank (fun p => p.world.db.outbox.map (fun r => (r.eventId, r.publishedAt)) = [(0, some 0)] ∧
      p.world.hist.owing true = none)
    [plain true 7, plain false 3, plain true 7, plain false 2] (by decide +kernel)
  simp only [decide_eq_true_eq] at hP
  have h₀ : OutboxStart (World.blank : World Bool) :=
    ⟨List.nodup_nil, nofun, fun _ => rfl, fun _ => rfl, fun _ => rfl, fun _ => rfl⟩
  obtain ⟨hacked, hbound, -⟩ := publication_ledger contendingJobs h₀ hp
  obtain ⟨row, hrow⟩ : ∃ row, p.world.db.outbox = [row] :=
    List.length_eq_one_iff.mp (by simpa using congrArg List.length hP.1)
  have hids := hP.1
  rw [hrow] at hids
  simp only [List.map_cons, List.map_nil, List.cons.injEq, Prod.mk.injEq, and_true] at hids
  refine ⟨p, hp, by simp [hrow, hids.2], ?_, hbound 0⟩
  have := hacked row (by simp [hrow]) (by simp [hids.2])
  rwa [hids.1] at this

end SupportPlatform

