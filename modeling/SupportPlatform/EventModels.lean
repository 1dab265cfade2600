import SupportPlatform.Exceptions
import SupportPlatform.Records

/-! # Domain events

`IncidentCreatedEvent` with the constraints of its fields as fields of the structure, so
that an invalid event cannot be built, and its two encodings: JSON bytes for Kafka and a
dictionary for the outbox row.

pydantic is not part of the repository.  `Pydantic` names what is used of it: its JSON
parser, its conversions of a JSON value to a field type, and the texts it writes.  A
model's own constraints and validators are modelled on top of these, from the source.
-/
namespace SupportPlatform

/-- A byte string. -/
abbrev Bytes := List UInt8

/-- `s.encode("utf-8")`. -/
def Text.utf8 (s : Text) : Bytes := s.flatMap String.utf8EncodeChar

namespace Uuid

/-- The digit of a nibble. -/
def nibble (n : Nat) : Char := Nat.digitChar (n % 16)

/-- The last `width` hexadecimal digits of `n`. -/
def digits : Nat → Nat → Text
  | 0, _ => []
  | width + 1, n => digits width (n / 16) ++ [nibble n]

/-- `str(uuid)`: groups of 8, 4, 4, 4 and 12 digits. -/
def toText (u : Uuid) : Text :=
  let ds := digits 32 u.toNat
  Text.join "-" [ds.take 8, (ds.drop 8).take 4, (ds.drop 12).take 4, (ds.drop 16).take 4,
    ds.drop 20]

end Uuid

/-- A `datetime`: the wall clock in microseconds from the epoch, and the offset from UTC
when it has one. -/
structure Moment where
  wall : Int
  offset : Option Int
  deriving DecidableEq

/-- The first and the last instant of the years 1 to 9999. -/
def Timestamp.min : Timestamp := -62135596800000000
def Timestamp.max : Timestamp := 253402300799999999

/-- Whether an instant lies in the years 1 to 9999. -/
def Timestamp.InCalendar (t : Timestamp) : Prop := Timestamp.min ≤ t ∧ t ≤ Timestamp.max

instance : DecidablePred Timestamp.InCalendar := fun t =>
  inferInstanceAs (Decidable (Timestamp.min ≤ t ∧ t ≤ Timestamp.max))

theorem Timestamp.epoch_inCalendar : Timestamp.InCalendar 0 := by decide

/-- **What is used of pydantic**: `parseJson` of `model_validate_json`, the conversions of
its default mode (`none` where it reports an error), the text of a UTC instant in a JSON
dump, and the text of a `ValidationError` of a model for an input. -/
class Pydantic where
  parseJson : Bytes → Option Json
  uuidOf : Json → Option Uuid
  datetimeOf : Json → Option Moment
  intOf : Json → Option Int
  floatOf : Json → Option Float64
  boolOf : Json → Option Bool
  datetimeText : Timestamp → Text
  errorText : Text → Option Json → Text

/-- The `ValidationError` of a model. -/
def validationError [Pydantic] (model : Text) (input : Option Json) : PyExc :=
  ⟨.validationError, Pydantic.errorText model input⟩

/-- A field constrained to a string. -/
def Json.str? : Json → Option Text
  | .str s => some s
  | _ => none

/-- `value.astimezone(UTC)` of an aware moment: `OverflowError` outside the calendar. -/
def Moment.astimezone (wall offset : Int) : Except PyExc Timestamp :=
  if Timestamp.InCalendar (wall - offset) then .ok (wall - offset)
  else .error ⟨.overflowError, "date value out of range"⟩

namespace Severity

/-- `Severity(value)`. -/
def ofValue (s : Text) : Option Severity :=
  [low, medium, high, critical].find? fun v => v.value = s

@[simp] theorem ofValue_value (s : Severity) : ofValue s.value = some s := by
  cases s <;> decide

end Severity

namespace IncidentClassification

/-- `IncidentClassification(value)`. -/
def ofValue (s : Text) : Option IncidentClassification :=
  [authenticationError, databaseConnectionError, timeoutError, unknownError].find?
    fun v => v.value = s

@[simp] theorem ofValue_value (c : IncidentClassification) : ofValue c.value = some c := by
  cases c <;> decide

end IncidentClassification

/-- `INCIDENT_CREATED_EVENT_TYPE`. -/
def incidentCreatedEventType : Text := "incident.created"

/-- `INCIDENT_CREATED_EVENT_VERSION`. -/
def incidentCreatedEventVersion : Nat := 1

/-- **`IncidentCreatedEvent`.**  The literals of the type and the version need no field. -/
structure IncidentCreatedEvent where
  eventId : Uuid
  occurredAt : Timestamp
  incidentId : Int
  service : Text
  classification : IncidentClassification
  severity : Severity
  occurredAt_mem : Timestamp.InCalendar occurredAt
  incidentId_pos : 0 < incidentId
  service_length : 1 ≤ service.length ∧ service.length ≤ 100
  deriving DecidableEq

namespace IncidentCreatedEvent
variable [Pydantic]

/-- The field names of the model, in order. -/
def fieldNames : List Text :=
  ["event_id", "event_type", "event_version", "occurred_at", "incident_id", "service",
    "classification", "severity"]

/-- `require_timezone`, after the conversion to a datetime: `none` when the field is
invalid, which the model reports, and an exception that is not a `ValueError` as raised. -/
def requireTimezone (value : Option Json) : Except PyExc (Option Timestamp) :=
  match value.bind Pydantic.datetimeOf with
  | none => .ok none
  | some ⟨_, none⟩ => .ok none
  | some ⟨wall, some offset⟩ => (Moment.astimezone wall offset).map some

/-- The event made of converted fields, if all of them meet the constraints. -/
def ofFields (eventId : Uuid) (occurredAt : Timestamp) (incidentId : Int) (service : Text)
    (classification : IncidentClassification) (severity : Severity) :
    Option IncidentCreatedEvent :=
  if h : Timestamp.InCalendar occurredAt ∧ 0 < incidentId ∧
      (1 ≤ service.length ∧ service.length ≤ 100) then
    some ⟨eventId, occurredAt, incidentId, service, classification, severity, h.1, h.2.1, h.2.2⟩
  else none

/-- The event that the entries of a JSON object hold, once `occurred_at` is settled. -/
def ofEntries (entries : Dict Text Json) (occurredAt : Option Timestamp) :
    Option IncidentCreatedEvent := do
  let eventId ← (Dict.get? entries "event_id").bind Pydantic.uuidOf
  guard (Dict.get? entries "event_type" = some (.str incidentCreatedEventType))
  -- a literal is compared with `==`, so that `true` and `1.0` are the version 1 as well
  guard ((Dict.get? entries "event_version").any (Json.eqInt incidentCreatedEventVersion))
  let occurredAt ← occurredAt
  let incidentId ← (Dict.get? entries "incident_id").bind Pydantic.intOf
  let service ← (Dict.get? entries "service").bind Json.str?
  let classification ← ((Dict.get? entries "classification").bind Json.str?).bind
    IncidentClassification.ofValue
  let severity ← ((Dict.get? entries "severity").bind Json.str?).bind Severity.ofValue
  guard (entries.all fun e => e.1 ∈ fieldNames)
  ofFields eventId occurredAt incidentId service classification severity

/-- `IncidentCreatedEvent.model_validate(value)`. -/
def modelValidate (value : Json) : Except PyExc IncidentCreatedEvent :=
  match value with
  | .obj entries => do
      let occurredAt ← requireTimezone (Dict.get? entries "occurred_at")
      match ofEntries entries occurredAt with
      | some event => .ok event
      | none => .error (validationError "IncidentCreatedEvent" (some value))
  | _ => .error (validationError "IncidentCreatedEvent" (some value))

/-- `IncidentCreatedEvent.deserialize(value)`. -/
def deserialize (value : Bytes) : Except PyExc IncidentCreatedEvent :=
  match Pydantic.parseJson value with
  | some json => modelValidate json
  | none => .error (validationError "IncidentCreatedEvent" none)

/-- The fields of an event as JSON values, in order. -/
def modelDumpEntries (event : IncidentCreatedEvent) : Dict Text Json :=
  [("event_id", .str event.eventId.toText),
    ("event_type", .str incidentCreatedEventType),
    ("event_version", .int incidentCreatedEventVersion),
    ("occurred_at", .str (Pydantic.datetimeText event.occurredAt)),
    ("incident_id", .int event.incidentId),
    ("service", .str event.service),
    ("classification", .str event.classification.value),
    ("severity", .str event.severity.value)]

/-- `event.model_dump(mode="json")`. -/
def modelDump (event : IncidentCreatedEvent) : Json := .obj event.modelDumpEntries

/-- `event.model_dump_json()`. -/
def modelDumpJson [Runtime] (event : IncidentCreatedEvent) : Text := event.modelDump.modelDumpJson

/-- `event.serialize()`. -/
def serialize [Runtime] (event : IncidentCreatedEvent) : Bytes := event.modelDumpJson.utf8

end IncidentCreatedEvent

/-! ## Round trips -/

/-- What pydantic documents of its encodings: a UUID, an integer and a UTC instant of
the calendar are read back from what is written for them, and the JSON of an event is
parsed back. -/
class LawfulPydantic [Runtime] [Pydantic] : Prop where
  uuidOf_toText : ∀ u : Uuid, Pydantic.uuidOf (.str u.toText) = some u
  intOf_int : ∀ i : Int, Pydantic.intOf (.int i) = some i
  datetimeOf_text : ∀ t : Timestamp, Timestamp.InCalendar t →
    Pydantic.datetimeOf (.str (Pydantic.datetimeText t)) = some ⟨t, some 0⟩
  parseJson_dump : ∀ event : IncidentCreatedEvent,
    Pydantic.parseJson event.serialize = some event.modelDump

namespace IncidentCreatedEvent
variable [Runtime] [Pydantic] [LawfulPydantic]

omit [Runtime] [LawfulPydantic] in
theorem modelDumpEntries_known (event : IncidentCreatedEvent) :
    event.modelDumpEntries.all (fun e => e.1 ∈ fieldNames) = true := by
  simp [modelDumpEntries, fieldNames]

omit [Pydantic] [LawfulPydantic] [Runtime] in
theorem ofFields_self (event : IncidentCreatedEvent) :
    ofFields event.eventId event.occurredAt event.incidentId event.service event.classification
      event.severity = some event :=
  dif_pos ⟨event.occurredAt_mem, event.incidentId_pos, event.service_length⟩

/-- The dump of an event holds the event. -/
theorem ofEntries_modelDumpEntries (event : IncidentCreatedEvent) :
    ofEntries event.modelDumpEntries (some event.occurredAt) = some event := by
  have hid : Dict.get? event.modelDumpEntries "event_id" = some (.str event.eventId.toText) := rfl
  have hty : Dict.get? event.modelDumpEntries "event_type" =
      some (.str incidentCreatedEventType) := rfl
  have hve : Dict.get? event.modelDumpEntries "event_version" =
      some (.int incidentCreatedEventVersion) := rfl
  have hin : Dict.get? event.modelDumpEntries "incident_id" = some (.int event.incidentId) := rfl
  have hsv : Dict.get? event.modelDumpEntries "service" = some (.str event.service) := rfl
  have hcl : Dict.get? event.modelDumpEntries "classification" =
      some (.str event.classification.value) := rfl
  have hse : Dict.get? event.modelDumpEntries "severity" = some (.str event.severity.value) := rfl
  simp only [ofEntries, hid, hty, hve, hin, hsv, hcl, hse, modelDumpEntries_known]
  simp [LawfulPydantic.uuidOf_toText, LawfulPydantic.intOf_int, Json.str?, Json.eqInt, ofFields_self,
    guard]

/-- **The outbox payload of an event is that event.** -/
theorem modelValidate_modelDump (event : IncidentCreatedEvent) :
    modelValidate event.modelDump = .ok event := by
  have hz : (event.occurredAt - 0 : Int) = event.occurredAt := Int.sub_zero _
  have hoc : Dict.get? event.modelDumpEntries "occurred_at" =
      some (.str (Pydantic.datetimeText event.occurredAt)) := rfl
  have ht : requireTimezone (some (.str (Pydantic.datetimeText event.occurredAt))) =
      .ok (some event.occurredAt) := by
    simp [requireTimezone, LawfulPydantic.datetimeOf_text _ event.occurredAt_mem,
      Moment.astimezone, event.occurredAt_mem, hz, Except.map]
  simp only [modelValidate, modelDump, hoc, ht]
  show (match ofEntries event.modelDumpEntries (some event.occurredAt) with
    | some event => Except.ok event
    | none => _) = _
  rw [ofEntries_modelDumpEntries]

/-- **A self-produced message is never malformed.** -/
theorem deserialize_serialize (event : IncidentCreatedEvent) :
    deserialize event.serialize = .ok event := by
  rw [deserialize, LawfulPydantic.parseJson_dump]
  exact modelValidate_modelDump event

end IncidentCreatedEvent

end SupportPlatform
