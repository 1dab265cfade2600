import SupportPlatform.EventTransport
import SupportPlatform.StepWriters

/-! # The delivery of events

An accepted incident is followed by its event through the outbox, the topic and the table
of processed events.  The intake commits an incident together with its row, a row is marked
only after its event is in the topic, and the messages that were handled are discharged: what
they hold was processed, or is no event (`DeliveryInv`).  Rows, messages and marks are never
taken back (`Persists`), so what a process has seen of them it can rely on.
-/
namespace SupportPlatform
open Program World

/-! ## The tables of the delivery -/

/-- The change concerns none of the tables by which events are delivered. -/
def Change.Aside : Change → Prop
  | .insertIncident _ | .insertOutbox _ | .updateOutbox _ _ | .insertProcessed _ => False
  | _ => True

/-- The rows are those of one event. -/
structure OutboxEvent.SameEvent (r r' : OutboxEvent) : Prop where
  eventId : r'.eventId = r.eventId
  incidentId : r'.incidentId = r.incidentId
  topic : r'.topic = r.topic
  payload : r'.payload = r.payload

namespace Database

/-- The event has been processed. -/
def Marked (db : Database) (eventId : Uuid) : Prop := db.processed? eventId ≠ none

/-- The tables of the delivery are the same. -/
structure SameDelivery (db db' : Database) : Prop where
  incidents : db'.incidents = db.incidents
  outbox : db'.outbox = db.outbox
  processed : db'.processed = db.processed

theorem sameDelivery_apply (db : Database) {c : Change} (h : c.Aside) :
    db.SameDelivery (db.apply c) := by
  cases c with
  | insertIncident | insertOutbox | updateOutbox | insertProcessed => exact h.elim
  | _ => exact ⟨rfl, rfl, rfl⟩

theorem sameDelivery_applyAll {cs : List Change} (h : ∀ c ∈ cs, c.Aside) (db : Database) :
    db.SameDelivery (db.applyAll cs) := by
  induction cs generalizing db with
  | nil => exact ⟨rfl, rfl, rfl⟩
  | cons c cs ih =>
      have hc := db.sameDelivery_apply (h c List.mem_cons_self)
      have hcs := ih (fun d hd => h d (List.mem_cons_of_mem c hd)) (db.apply c)
      exact ⟨hcs.incidents.trans hc.incidents, hcs.outbox.trans hc.outbox,
        hcs.processed.trans hc.processed⟩

theorem Marked.same {db db' : Database} {eventId : Uuid} (h : db.Marked eventId)
    (hp : db'.processed = db.processed) : db'.Marked eventId := by
  rw [Marked, processed?, hp]
  exact h

theorem Marked.append {db db' : Database} {eventId : Uuid} (h : db.Marked eventId)
    {rows : List ProcessedEvent} (hp : db'.processed = db.processed ++ rows) :
    db'.Marked eventId := by
  obtain ⟨row, hrow⟩ := Option.ne_none_iff_exists'.mp h
  have hrow' : db.processed.find? (fun r => r.eventId = eventId) = some row := hrow
  rw [Marked, processed?, hp, List.find?_append, hrow']
  exact Option.some_ne_none row

end Database

namespace OutboxEvent
variable {r r' : OutboxEvent}

theorem SameEvent.refl (r : OutboxEvent) : r.SameEvent r := ⟨rfl, rfl, rfl, rfl⟩

theorem SameEvent.trans {r'' : OutboxEvent} (h : r.SameEvent r') (h' : r'.SameEvent r'') :
    r.SameEvent r'' :=
  ⟨h'.eventId.trans h.eventId, h'.incidentId.trans h.incidentId, h'.topic.trans h.topic,
    h'.payload.trans h.payload⟩

/-- An edit that keeps the event of the row keeps the event of every row it is sent to. -/
theorem SameEvent.merge {l e : OutboxEvent} (h : l.SameEvent e) (cur : OutboxEvent) :
    cur.SameEvent (l.merge e cur) where
  eventId := rfl
  incidentId := by simp [OutboxEvent.merge, h.incidentId]
  topic := by simp [OutboxEvent.merge, h.topic]
  payload := by simp [OutboxEvent.merge, h.payload]

theorem SameEvent.carries [Pydantic] (h : r.SameEvent r') {event : IncidentCreatedEvent}
    {topic : Text} (hr : r.Carries event topic) : r'.Carries event topic :=
  ⟨h.eventId.trans hr.eventId, h.incidentId.trans hr.incidentId, h.topic.trans hr.topic,
    h.payload.trans hr.payload⟩

end OutboxEvent

section
variable [Runtime] [Pydantic] {W : Type} [DecidableEq W] {env : Environment}

/-! ## The invariant -/

/-- A message of the event is in the topic, at an offset from `base` on. -/
def World.Logged (base : TopicPartition → Nat) (s : World W) (topic : Text)
    (event : IncidentCreatedEvent) : Prop :=
  ∃ partition offset, base ⟨topic, partition⟩ ≤ offset ∧
    (s.log ⟨topic, partition⟩)[offset]? = some (some event.serialize)

/-- The event tells of the incident. -/
structure IncidentCreatedEvent.Describes (event : IncidentCreatedEvent) (i : Incident) : Prop where
  incidentId : event.incidentId = i.id
  service : event.service = i.service
  classification : event.classification = i.classification
  severity : event.severity = i.resolvedSeverity

/-- The row carries the event of an incident, that is pending, in the topic or processed. -/
def OutboxEvent.Accounted (base : TopicPartition → Nat) (s : World W) (r : OutboxEvent) : Prop :=
  ∃ event, r.Carries event r.topic ∧ (∃ i ∈ s.db.incidents, event.Describes i) ∧
    (r.publishedAt ≠ none → s.Logged base r.topic event ∨ s.db.Marked event.eventId)

/-- The message is no event, or its event was processed. -/
def Discharged (db : Database) (value : Option Bytes) : Prop :=
  ∀ bytes event, value = some bytes → IncidentCreatedEvent.deserialize bytes = .ok event →
    db.Marked event.eventId

/-- **The state of the delivery**: the rows are those of the incidents, each is accounted
for, and what was handled is discharged. -/
structure DeliveryInv (base : TopicPartition → Nat) (s : World W) : Prop where
  listed : s.db.outbox.map (·.incidentId) = s.db.incidents.map (·.id)
  incidents : (s.db.incidents.map (·.id)).Nodup
  events : (s.db.outbox.map (·.eventId)).Nodup
  rows : ∀ r ∈ s.db.outbox, r.Accounted base s
  room : ∀ source, base source ≤ (s.log source).length
  discharged : ∀ source offset, (source, offset) ∈ s.hist.handled →
    ∃ value, (s.log source)[offset]? = some value ∧ Discharged s.db value

/-- **Nothing is taken back**: incidents, messages, marks and the rows of the outbox stay. -/
structure Persists (s t : World W) : Prop where
  incidents : s.db.incidents <+: t.db.incidents
  log : ∀ source, s.log source <+: t.log source
  marked : ∀ eventId, s.db.Marked eventId → t.db.Marked eventId
  rows : ∀ r ∈ s.db.outbox, ∃ r' ∈ t.db.outbox, r.SameEvent r'

section
variable {base : TopicPartition → Nat} {w : W} {s t u : World W}

namespace Persists

section
omit [Runtime] [Pydantic] [DecidableEq W]

theorem refl (s : World W) : Persists s s :=
  ⟨List.prefix_rfl, fun _ => List.prefix_rfl, fun _ h => h, fun r hr => ⟨r, hr, .refl r⟩⟩

theorem trans (h : Persists s t) (h' : Persists t u) : Persists s u where
  incidents := h.incidents.trans h'.incidents
  log source := (h.log source).trans (h'.log source)
  marked eventId hm := h'.marked eventId (h.marked eventId hm)
  rows r hr := by
    obtain ⟨r', hr', hsame⟩ := h.rows r hr
    obtain ⟨r'', hr'', hsame'⟩ := h'.rows r' hr'
    exact ⟨r'', hr'', hsame.trans hsame'⟩

/-- A message keeps its place. -/
theorem value (h : Persists s t) {source : TopicPartition} {offset : Nat} {value : Option Bytes}
    (hv : (s.log source)[offset]? = some value) : (t.log source)[offset]? = some value := by
  obtain ⟨rest, hrest⟩ := h.log source
  have hlt : offset < (s.log source).length := (List.getElem?_eq_some_iff.mp hv).1
  rw [← hrest, List.getElem?_append_left hlt, hv]

end

omit [DecidableEq W] in
theorem logged (h : Persists s t) {topic : Text} {event : IncidentCreatedEvent}
    (hl : s.Logged base topic event) : t.Logged base topic event := by
  obtain ⟨partition, offset, hb, hv⟩ := hl
  exact ⟨partition, offset, hb, h.value hv⟩

omit [DecidableEq W] in
theorem accounted (h : Persists s t) {r : OutboxEvent} (hr : r.Accounted base s) :
    r.Accounted base t := by
  obtain ⟨event, hcarries, ⟨i, hi, hdescribes⟩, hsent⟩ := hr
  exact ⟨event, hcarries, ⟨i, h.incidents.subset hi, hdescribes⟩,
    fun hn => (hsent hn).imp h.logged (h.marked _)⟩

omit [Runtime] [DecidableEq W] in
theorem discharged (h : Persists s t) {value : Option Bytes} (hv : Discharged s.db value) :
    Discharged t.db value :=
  fun bytes event hb he => h.marked _ (hv bytes event hb he)

end Persists

omit [DecidableEq W] in
/-- What was handled stays discharged. -/
theorem DeliveryInv.handled_discharged (h : DeliveryInv base s) (hp : Persists s t)
    {source : TopicPartition} {offset : Nat} (ho : (source, offset) ∈ s.hist.handled) :
    ∃ value, (t.log source)[offset]? = some value ∧ Discharged t.db value := by
  obtain ⟨value, hv, hdischarged⟩ := h.discharged source offset ho
  exact ⟨value, hp.value hv, hp.discharged hdischarged⟩

omit [DecidableEq W] in
/-- A state with the same tables, more in the logs and the same messages handled. -/
theorem DeliveryInv.congr (h : DeliveryInv base s) (hdb : s.db.SameDelivery t.db)
    (hlog : ∀ source, s.log source <+: t.log source)
    (hh : t.hist.handled = s.hist.handled) : DeliveryInv base t ∧ Persists s t := by
  have hp : Persists s t := by
    refine ⟨by rw [hdb.incidents], hlog, fun eventId hm => ?_,
      fun r hr => ⟨r, hdb.outbox ▸ hr, .refl r⟩⟩
    exact hm.same hdb.processed
  refine ⟨⟨?_, ?_, ?_, fun r hr => ?_, fun source => ?_, fun source offset ho => ?_⟩, hp⟩
  · rw [hdb.outbox, hdb.incidents]
    exact h.listed
  · exact hdb.incidents ▸ h.incidents
  · exact hdb.outbox ▸ h.events
  · exact hp.accounted (h.rows r (hdb.outbox ▸ hr))
  · exact (h.room source).trans (hlog source).length_le
  · exact h.handled_discharged hp (hh ▸ ho)

omit [DecidableEq W] in
/-- **The intake commits** an incident and its row together. -/
theorem DeliveryInv.file (h : DeliveryInv base s) {incident : Incident} {row : OutboxEvent}
    {event : IncidentCreatedEvent} (hdescribes : event.Describes incident)
    (hrow : row.Carries event row.topic) (hnew : row.publishedAt = none)
    (hadmits : s.db.admitsAll [.insertIncident incident, .insertOutbox row] = true)
    (hdb : t.db = s.db.applyAll [.insertIncident incident, .insertOutbox row])
    (hlog : t.log = s.log) (hh : t.hist.handled = s.hist.handled) :
    DeliveryInv base t ∧ Persists s t := by
  simp only [Database.admitsAll, Database.admits, Database.apply, Bool.and_true,
    Bool.and_eq_true, List.all_eq_true, decide_eq_true_eq] at hadmits
  have hincidents : t.db.incidents = s.db.incidents ++ [incident] := by rw [hdb]; rfl
  have houtbox : t.db.outbox = s.db.outbox ++ [row] := by rw [hdb]; rfl
  have hprocessed : t.db.processed = s.db.processed ++ [] := by rw [hdb]; simp [Database.apply]
  have hp : Persists s t := by
    refine ⟨hincidents ▸ List.prefix_append _ _, fun source => by rw [hlog],
      fun eventId hm => hm.append hprocessed, fun r hr => ?_⟩
    exact ⟨r, houtbox ▸ List.mem_append_left [row] hr, .refl r⟩
  refine ⟨⟨?_, ?_, ?_, fun r hr => ?_, fun source => ?_, fun source offset ho => ?_⟩, hp⟩
  · rw [houtbox, hincidents, List.map_append, List.map_append, h.listed]
    simp [hrow.incidentId, hdescribes.incidentId]
  · rw [hincidents, List.map_append, List.nodup_append]
    refine ⟨h.incidents, by simp, fun a ha b hb => ?_⟩
    obtain ⟨i, hi, rfl⟩ := List.mem_map.mp ha
    rw [List.map_singleton, List.mem_singleton] at hb
    exact hb ▸ hadmits.1 i hi
  · rw [houtbox, List.map_append, List.nodup_append]
    refine ⟨h.events, by simp, fun a ha b hb => ?_⟩
    obtain ⟨r, hr, rfl⟩ := List.mem_map.mp ha
    rw [List.map_singleton, List.mem_singleton] at hb
    exact hb ▸ hadmits.2 r hr
  · rw [houtbox, List.mem_append, List.mem_singleton] at hr
    rcases hr with hr | rfl
    · exact hp.accounted (h.rows r hr)
    · have hfiled : incident ∈ t.db.incidents := hincidents ▸ List.mem_append_right _ (by simp)
      exact ⟨event, hrow, ⟨incident, hfiled, hdescribes⟩, fun hn => absurd hnew hn⟩
  · exact hlog ▸ h.room source
  · exact h.handled_discharged hp (hh ▸ ho)

omit [DecidableEq W] in
/-- **An attempt is recorded** in a row: it keeps the row's event, and it marks the row only
if the event is in the topic. -/
theorem DeliveryInv.record [LawfulPydantic] (h : DeliveryInv base s) {l e : OutboxEvent}
    {event : IncidentCreatedEvent} (hl : l.Carries event l.topic) (hsame : l.SameEvent e)
    (hloaded : ∃ r ∈ s.db.outbox, l.SameEvent r)
    (hmark : e.publishedAt = l.publishedAt ∨ s.Logged base l.topic event)
    (hdb : t.db = s.db.apply (.updateOutbox l e)) (hlog : t.log = s.log)
    (hh : t.hist.handled = s.hist.handled) : DeliveryInv base t ∧ Persists s t := by
  have houtbox : t.db.outbox =
      s.db.outbox.map fun r => if r.eventId = l.eventId then l.merge e r else r := by
    rw [hdb]
    rfl
  have hkeeps : ∀ r : OutboxEvent,
      r.SameEvent (if r.eventId = l.eventId then l.merge e r else r) := by
    intro r
    split
    · exact hsame.merge r
    · exact .refl r
  have hp : Persists s t := by
    refine ⟨by rw [hdb]; exact List.prefix_rfl, fun source => by rw [hlog],
      fun eventId hm => ?_, fun r hr => ?_⟩
    · exact hm.same (by rw [hdb]; rfl)
    · exact ⟨_, houtbox ▸ List.mem_map_of_mem hr, hkeeps r⟩
  refine ⟨⟨?_, ?_, ?_, fun r hr => ?_, fun source => ?_, fun source offset ho => ?_⟩, hp⟩
  · rw [houtbox, List.map_map, hdb]
    refine Eq.trans (List.map_congr_left fun r _ => ?_) h.listed
    exact (hkeeps r).incidentId
  · rw [hdb]
    exact h.incidents
  · rw [houtbox, List.map_map]
    rw [show s.db.outbox.map ((·.eventId) ∘ fun r => if r.eventId = l.eventId then l.merge e r
      else r) = s.db.outbox.map (·.eventId) from List.map_congr_left fun r _ => (hkeeps r).eventId]
    exact h.events
  · rw [houtbox, List.mem_map] at hr
    obtain ⟨cur, hcur, rfl⟩ := hr
    obtain ⟨event', hcarries, hdescribed, hsent⟩ := hp.accounted (h.rows cur hcur)
    have htopic := (hkeeps cur).topic
    refine ⟨event', ?_, hdescribed, fun hn => ?_⟩
    · rw [htopic]
      exact (hkeeps cur).carries hcarries
    by_cases hid : cur.eventId = l.eventId
    · simp only [hid, if_true] at hn htopic ⊢
      rw [htopic]
      -- the row that was loaded is this one, and it carries the same event
      obtain ⟨r, hr, hlr⟩ := hloaded
      have hrc : r = cur :=
        List.inj_on_of_nodup_map h.events hr hcur (hlr.eventId.trans hid.symm)
      subst hrc
      have hevent : event' = event := by
        have hread := event.modelValidate_modelDump
        rw [← hl.payload, ← hlr.payload, hcarries.payload, event'.modelValidate_modelDump] at hread
        exact Except.ok.inj hread
      rcases put_eq_or l.publishedAt e.publishedAt r.publishedAt with hput | ⟨hne, -⟩
      · exact hsent (hput ▸ hn)
      · refine .inl (hp.logged ?_)
        rw [hevent, hlr.topic]
        exact hmark.resolve_left hne
    · simp only [hid, if_false] at hn ⊢
      exact hsent hn
  · exact hlog ▸ h.room source
  · exact h.handled_discharged hp (hh ▸ ho)

omit [DecidableEq W] in
/-- **A marker is committed.** -/
theorem DeliveryInv.mark (h : DeliveryInv base s) {row : ProcessedEvent}
    (hdb : t.db = s.db.apply (.insertProcessed row)) (hlog : t.log = s.log)
    (hh : t.hist.handled = s.hist.handled) :
    DeliveryInv base t ∧ Persists s t ∧ t.db.Marked row.eventId := by
  have hprocessed : t.db.processed = s.db.processed ++ [row] := by rw [hdb]; rfl
  have hp : Persists s t := by
    refine ⟨by rw [hdb]; exact List.prefix_rfl, fun source => by rw [hlog],
      fun eventId hm => hm.append hprocessed, fun r hr => ?_⟩
    exact ⟨r, by rw [hdb]; exact hr, .refl r⟩
  refine ⟨⟨?_, ?_, ?_, fun r hr => ?_, fun source => hlog ▸ h.room source,
    fun source offset ho => h.handled_discharged hp (hh ▸ ho)⟩, hp, ?_⟩
  · rw [hdb]
    exact h.listed
  · rw [hdb]
    exact h.incidents
  · rw [hdb]
    exact h.events
  · rw [hdb] at hr
    exact hp.accounted (h.rows r hr)
  · intro hnone
    have := List.find?_eq_none.mp hnone row (hprocessed ▸ List.mem_append_right _ (by simp))
    simp at this

omit [DecidableEq W] in
/-- **A message is handled**: it is discharged by then. -/
theorem DeliveryInv.handle (h : DeliveryInv base s) {source : TopicPartition} {offset : Nat}
    {value : Option Bytes} (hv : (s.log source)[offset]? = some value) (hs : Discharged s.db value)
    (hdb : t.db = s.db) (hlog : t.log = s.log)
    (hh : t.hist.handled = s.hist.handled ++ [(source, offset)]) : DeliveryInv base t ∧
      Persists s t := by
  have hp : Persists s t :=
    ⟨by rw [hdb], fun source => by rw [hlog], fun _ hm => hdb ▸ hm,
      fun r hr => ⟨r, hdb ▸ hr, .refl r⟩⟩
  refine ⟨⟨hdb ▸ h.listed, hdb ▸ h.incidents, hdb ▸ h.events, fun r hr => ?_,
    fun source => hlog ▸ h.room source, fun source' offset' ho => ?_⟩, hp⟩
  · exact hp.accounted (h.rows r (hdb ▸ hr))
  · rw [hh, List.mem_append, List.mem_singleton] at ho
    rcases ho with ho | ho
    · exact h.handled_discharged hp ho
    · cases ho
      exact ⟨value, hp.value hv, hp.discharged hs⟩

end

end

end SupportPlatform

