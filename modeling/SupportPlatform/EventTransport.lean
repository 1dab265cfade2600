import SupportPlatform.Intake
import SupportPlatform.ReferenceCodec

/-! # The two transports of an event

An event travels as JSON bytes through Kafka and as a JSON object through its outbox row.
Both ways lead back to the event: what pydantic writes for a field is read back as that
field (`LawfulPydantic`), and `require_timezone` leaves a UTC instant as it is.

A message from elsewhere may write its fields in another way, its instant with any offset
in particular.  Reading it fixes the event, which is then read back from its own bytes.
-/


namespace SupportPlatform
open Program

/-- The row holds the event as it was staged for the topic. -/
structure OutboxEvent.Carries [Pydantic] (event : IncidentCreatedEvent) (topic : Text)
    (r : OutboxEvent) : Prop where
  eventId : r.eventId = event.eventId
  incidentId : r.incidentId = event.incidentId
  topic : r.topic = topic
  payload : r.payload = event.modelDump

/-- The calls by which an event reaches its topic: its row is staged and updated with the
event in it, and nothing but the event is published. -/
def Delivers [Pydantic] (event : IncidentCreatedEvent) (topic : Text) : Op → Prop
  | .produce e t => e = event ∧ t = topic
  | .flush cs | .commit _ cs => ∀ c ∈ cs,
      (∃ r, c = .insertOutbox r ∧ r.Carries event topic) ∨
      ∃ r r', c = .updateOutbox r r' ∧ r.Carries event topic ∧ r'.Carries event topic
  | _ => True

/-- A row that is found for dispatch holds the event. -/
def Finds [Pydantic] (event : IncidentCreatedEvent) (topic : Text) : (o : Op) → Resp o → Prop
  | .getForDispatch _, .ok (some r) => r.Carries event topic
  | _, _ => True

/-- The instant that `occurred_at` of a message denotes. -/
def OccurredAt [Pydantic] (value : Bytes) (t : Timestamp) : Prop :=
  ∃ entries wall offset, Pydantic.parseJson value = some (.obj entries) ∧
    (Dict.get? entries "occurred_at").bind Pydantic.datetimeOf = some ⟨wall, some offset⟩ ∧
    t = wall - offset

/-! ## Reading a message -/

section
variable [Pydantic] {event : IncidentCreatedEvent}

/-- What `require_timezone` returns is the instant that was written. -/
theorem requireTimezone_eq_some {value : Option Json} {t : Timestamp}
    (h : IncidentCreatedEvent.requireTimezone value = .ok (some t)) :
    ∃ wall offset, value.bind Pydantic.datetimeOf = some ⟨wall, some offset⟩ ∧
      t = wall - offset := by
  rw [IncidentCreatedEvent.requireTimezone] at h
  cases hm : value.bind Pydantic.datetimeOf with
  | none =>
      rw [hm] at h
      cases h
  | some moment =>
      obtain ⟨wall, _ | offset⟩ := moment
      · rw [hm] at h
        cases h
      · rw [hm] at h
        refine ⟨wall, offset, rfl, ?_⟩
        change (Moment.astimezone wall offset).map some = _ at h
        rw [Moment.astimezone] at h
        split at h
        · cases h
          rfl
        · cases h

/-- An event has the instant that was settled for it. -/
theorem ofEntries_occurredAt {entries : Dict Text Json} {occurredAt : Option Timestamp}
    (h : IncidentCreatedEvent.ofEntries entries occurredAt = some event) :
    occurredAt = some event.occurredAt := by
  simp only [IncidentCreatedEvent.ofEntries, Option.bind_eq_bind, Option.bind_eq_some_iff] at h
  obtain ⟨_, _, _, _, _, _, t, ht, _, _, _, _, _, _, _, _, _, _, hfields⟩ := h
  rw [IncidentCreatedEvent.ofFields] at hfields
  split at hfields
  · cases hfields
    exact ht
  · cases hfields

/-- **An accepted message** is an event at the instant that the message denotes. -/
theorem occurredAt_of_deserialize {value : Bytes}
    (h : IncidentCreatedEvent.deserialize value = .ok event) :
    OccurredAt value event.occurredAt := by
  rw [IncidentCreatedEvent.deserialize] at h
  split at h
  case h_2 => cases h
  case h_1 json hjson =>
      cases json with
      | obj entries =>
          simp only [IncidentCreatedEvent.modelValidate] at h
          cases htz : IncidentCreatedEvent.requireTimezone (Dict.get? entries "occurred_at") with
          | error e =>
              rw [htz] at h
              cases h
          | ok occurredAt =>
              rw [htz] at h
              have hentries : IncidentCreatedEvent.ofEntries entries occurredAt = some event := by
                dsimp only [Bind.bind, Except.bind] at h
                split at h
                case h_1 e he =>
                    cases h
                    exact he
                case h_2 => cases h
              rw [ofEntries_occurredAt hentries] at htz
              obtain ⟨wall, offset, hm, ht⟩ := requireTimezone_eq_some htz
              exact ⟨entries, wall, offset, hjson, hm, ht⟩
      | _ => cases h

end

/-! ## Staging and dispatching -/

section
variable [Runtime] [Pydantic] {event : IncidentCreatedEvent} {topic : Text} {record : OutboxEvent}

omit [Runtime] in
theorem outboxRecord_carries (time : Timestamp) :
    (outboxRecord event topic time).Carries event topic := ⟨rfl, rfl, rfl, rfl⟩

omit [Runtime] in
/-- The intake stages a row that holds the event. -/
theorem stageEvent_delivers : (stageEvent event topic).Only (Delivers event topic) := by
  refine Only.bind ⟨trivial, fun _ => trivial⟩ fun time => ?_
  refine Only.bind ⟨fun c hc => ?_, fun _ => trivial⟩ fun r => only_answer r
  exact .inl ⟨_, List.mem_singleton.mp hc, outboxRecord_carries time⟩

variable [LawfulPydantic]

/-- The attempt on a row publishes the event that the row holds. -/
theorem attemptPublish_delivers (h : record.Carries event topic) :
    (OutboxDispatcher.attemptPublish record).Conforms (Delivers event topic) (Finds event topic)
      (fun _ => True) (fun _ => True) := by
  have hval : IncidentCreatedEvent.modelValidate record.payload = .ok event :=
    h.payload ▸ event.modelValidate_modelDump
  refine tryExcept_conforms (Conforms.bind (Q := (· = event))
    (conforms_answer.mpr ⟨fun e he => ?_, fun _ _ => trivial⟩) fun e he => ?_)
    (fun _ _ _ => trivial) fun _ _ _ => trivial
  · rw [hval] at he
    cases he
    rfl
  · subst he
    refine Conforms.bind (Q := fun _ => True) ?_ fun _ _ => trivial
    refine Conforms.bind (Q := fun _ => True) (issue_conforms trivial fun _ _ => trivial) fun r _ => ?_
    refine (conforms_answer.mpr ⟨fun _ _ => trivial, fun _ _ => trivial⟩).bind fun _ _ => ?_
    refine (issue_conforms (Q := fun _ => True) ⟨rfl, h.topic⟩ fun _ _ => trivial).bind
      fun report _ => ?_
    cases report <;> trivial

omit [Runtime] [LawfulPydantic] in
/-- A commit of the row with what an attempt records in it. -/
theorem updateOutbox_delivers {record' : OutboxEvent} (h : record.Carries event topic)
    (h' : record'.Carries event topic) :
    (commit .dispatch [.updateOutbox record record']).Conforms (Delivers event topic)
      (Finds event topic) (fun _ => True) (fun _ => True) := by
  refine commit_conforms (fun c hc => ?_) fun _ _ _ => trivial
  exact .inr ⟨record, record', List.mem_singleton.mp hc, h, h'⟩

/-- **Dispatch delivers**: from a row that holds an event nothing but that event is
published, and the row goes on holding it. -/
theorem dispatchEvent_delivers (eventId : Uuid) :
    (OutboxDispatcher.dispatchEvent eventId).Conforms (Delivers event topic) (Finds event topic)
      (fun _ => True) (fun _ => True) := by
  refine withSession_conforms trivial ?_
  refine (issue_conforms (Q := Finds event topic (.getForDispatch eventId)) trivial
    fun _ hr => hr).bind fun r hr => ?_
  refine Conforms.bind (Q := fun found => ∀ record, found = some record →
    record.Carries event topic)
    (conforms_answer.mpr ⟨fun found hf record hrec => ?_, fun _ _ => trivial⟩) fun found hfound => ?_
  · subst hrec
    subst hf
    exact hr
  · cases found with
    | none => trivial
    | some record =>
        have hrec := hfound record rfl
        refine (attemptPublish_delivers hrec).bind fun failure _ => ?_
        cases failure with
        | none =>
            refine (issue_conforms (Q := fun _ => True) trivial fun _ _ => trivial).bind
              fun time _ => (updateOutbox_delivers hrec ?_).bind fun _ _ => trivial
            exact ⟨hrec.eventId, hrec.incidentId, hrec.topic, hrec.payload⟩
        | some exc =>
            refine (issue_conforms (Q := fun _ => True) trivial fun _ _ => trivial).bind
              fun time _ => (updateOutbox_delivers hrec ?_).bind fun _ _ => trivial
            exact ⟨hrec.eventId, hrec.incidentId, hrec.topic, hrec.payload⟩

/-- **Both transports lead back to the event.**  An event is read back from its bytes and
from its dump; its row is staged with it, and from such a row nothing else is published;
and a message that is accepted gives an event at the message's own instant, which is read
back from the event's bytes. -/
theorem event_transport :
    (∀ event : IncidentCreatedEvent,
      IncidentCreatedEvent.deserialize event.serialize = .ok event) ∧
    (∀ event : IncidentCreatedEvent,
      IncidentCreatedEvent.modelValidate event.modelDump = .ok event) ∧
    (∀ (event : IncidentCreatedEvent) (topic : Text),
      (stageEvent event topic).Only (Delivers event topic) ∧
      ∀ eventId, (OutboxDispatcher.dispatchEvent eventId).Conforms (Delivers event topic)
        (Finds event topic) (fun _ => True) (fun _ => True)) ∧
    ∀ (value : Bytes) (event : IncidentCreatedEvent),
      IncidentCreatedEvent.deserialize value = .ok event →
        IncidentCreatedEvent.deserialize event.serialize = .ok event ∧
        OccurredAt value event.occurredAt :=
  ⟨fun event => event.deserialize_serialize, fun event => event.modelValidate_modelDump,
    fun _ _ => ⟨stageEvent_delivers, dispatchEvent_delivers⟩,
    fun _ event h => ⟨event.deserialize_serialize, occurredAt_of_deserialize h⟩⟩

end

/-- A message at 02:00:00.000001 in an offset of two hours, and the event it is read as. -/
def offsetMessage : Bytes :=
  Text.utf8 (("\x7b\"event_id\":\"00000000-0000-0000-0000-000000000007\"," ++
    "\"event_type\":\"incident.created\",\"event_version\":1," ++
    "\"occurred_at\":\"1970-01-01T02:00:00.000001+02:00\",\"incident_id\":3," ++
    "\"service\":\"api\",\"classification\":\"timeout_error\",\"severity\":\"high\"\x7d" : String) :
    Text)

def offsetEvent : IncidentCreatedEvent where
  eventId := 7
  occurredAt := 1
  incidentId := 3
  service := "api"
  classification := .timeoutError
  severity := .high
  occurredAt_mem := by decide
  incidentId_pos := by decide
  service_length := by decide

theorem event_transport_offset :
    IncidentCreatedEvent.deserialize offsetEvent.serialize = .ok offsetEvent ∧
      OccurredAt offsetMessage 1 := by
  have hread : IncidentCreatedEvent.deserialize offsetMessage = .ok offsetEvent := by
    decide +kernel
  exact event_transport.2.2.2 offsetMessage offsetEvent hread

end SupportPlatform
