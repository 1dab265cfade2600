import SupportPlatform.ReferenceCodec
import SupportPlatform.Worker

/-! # Malformed messages

What a message value decodes to, and when `IncidentMessageHandler.handle` settles one that
decodes to nothing.  pydantic turns the `ValueError` of a validator into a
`ValidationError`, which the handler catches; `astimezone` raises an `OverflowError`, which
neither of them does.
-/
namespace SupportPlatform
open Program

section
variable [Pydantic]

/-- The event that a message value holds. -/
def Message.event? (value : Option Bytes) : Option IncidentCreatedEvent :=
  value.bind fun bytes => (IncidentCreatedEvent.deserialize bytes).toOption

/-- **A malformed message does not hold up its partition**: it is classified as malformed,
so that the consumer loop commits past it, and what is raised while a message is handled
was raised by the processing of its event. -/
structure SettlesMalformed (process : IncidentCreatedEvent → Py ProcessingOutcome)
    (value : Option Bytes) : Prop where
  malformed : Message.event? value = none →
    IncidentMessageHandler.handle process value = ret .malformed
  commits : Message.event? value = none → ∀ m : Message, m.value = value →
    KafkaIncidentWorker.processMessage (IncidentMessageHandler.handle process) m = do
      issue (.observe m .malformed)
      tryExcept (KafkaIncidentWorker.commitMessage m) [.kafkaException] fun _ =>
        KafkaIncidentWorker.seekToMessage m
  raises : ∀ {S : Type} (act : (o : Op) → S → Resp o → S → Prop) (s : S) (e : PyExc) (s' : S),
    Exec act (IncidentMessageHandler.handle process value) s (.error e) s' →
      ∃ event, Message.event? value = some event ∧ Exec act (process event) s (.error e) s'

/-- The value is a JSON object whose `occurred_at` carries an offset and is, in UTC, outside
the years 1 to 9999. -/
def OutsideCalendar (value : Option Bytes) : Prop :=
  ∃ bytes entries wall offset, value = some bytes ∧
    Pydantic.parseJson bytes = some (.obj entries) ∧
    (Dict.get? entries "occurred_at").bind Pydantic.datetimeOf = some ⟨wall, some offset⟩ ∧
    ¬ Timestamp.InCalendar (wall - offset)

/-! ## Decoding -/

/-- The exception of an instant outside the calendar. -/
def calendarOverflow : PyExc := ⟨.overflowError, "date value out of range"⟩

/-- The timezone validator settles the field, or overflows. -/
theorem requireTimezone_cases (value : Option Json) :
    (∃ occurredAt, IncidentCreatedEvent.requireTimezone value = .ok occurredAt) ∨
      IncidentCreatedEvent.requireTimezone value = .error calendarOverflow ∧
        ∃ wall offset, value.bind Pydantic.datetimeOf = some ⟨wall, some offset⟩ ∧
          ¬ Timestamp.InCalendar (wall - offset) := by
  rw [IncidentCreatedEvent.requireTimezone]
  cases value.bind Pydantic.datetimeOf with
  | none => exact .inl ⟨none, rfl⟩
  | some moment =>
      obtain ⟨wall, _ | offset⟩ := moment
      · exact .inl ⟨none, rfl⟩
      · by_cases h : Timestamp.InCalendar (wall - offset)
        · refine .inl ⟨some (wall - offset), ?_⟩
          show (Moment.astimezone wall offset).map some = _
          rw [Moment.astimezone, if_pos h]
          rfl
        · exact .inr ⟨congrArg (Except.map some) (if_neg h), wall, offset, rfl, h⟩

theorem modelValidate_obj (entries : Dict Text Json) :
    IncidentCreatedEvent.modelValidate (.obj entries) =
      (IncidentCreatedEvent.requireTimezone (Dict.get? entries "occurred_at")).bind
        fun occurredAt =>
          match IncidentCreatedEvent.ofEntries entries occurredAt with
          | some event => .ok event
          | none => .error (validationError "IncidentCreatedEvent" (some (.obj entries))) := rfl

/-- A JSON value is an event, or reported as invalid, or overflows the calendar. -/
theorem modelValidate_cases (value : Json) :
    (∃ event, IncidentCreatedEvent.modelValidate value = .ok event) ∨
      (∃ e, IncidentCreatedEvent.modelValidate value = .error e ∧ e.cls = .validationError) ∨
      ∃ entries wall offset, value = .obj entries ∧
        (Dict.get? entries "occurred_at").bind Pydantic.datetimeOf = some ⟨wall, some offset⟩ ∧
        ¬ Timestamp.InCalendar (wall - offset) := by
  cases value with
  | obj entries =>
      rw [modelValidate_obj]
      rcases requireTimezone_cases (Dict.get? entries "occurred_at") with
        ⟨occurredAt, hok⟩ | ⟨-, wall, offset, hdt, hout⟩
      · rw [hok]
        cases hev : IncidentCreatedEvent.ofEntries entries occurredAt with
        | some event => exact .inl ⟨event, by simp [Except.bind, hev]⟩
        | none =>
            refine .inr (.inl ⟨validationError "IncidentCreatedEvent" (some (.obj entries)), ?_, rfl⟩)
            simp only [Except.bind, hev]
      · exact .inr (.inr ⟨entries, wall, offset, rfl, hdt, hout⟩)
  | null | bool | int | float | str | arr => exact .inr (.inl ⟨_, rfl, rfl⟩)

/-- A message whose instant leaves the calendar overflows. -/
theorem deserialize_outside {bytes : Bytes} (h : OutsideCalendar (some bytes)) :
    IncidentCreatedEvent.deserialize bytes = .error calendarOverflow := by
  obtain ⟨b, entries, wall, offset, hb, hparse, hdt, hout⟩ := h
  cases hb
  have htz : IncidentCreatedEvent.requireTimezone (Dict.get? entries "occurred_at") =
      .error calendarOverflow := by
    rw [IncidentCreatedEvent.requireTimezone, hdt]
    exact congrArg (Except.map some) (if_neg hout)
  rw [IncidentCreatedEvent.deserialize, hparse]
  show IncidentCreatedEvent.modelValidate (.obj entries) = _
  rw [modelValidate_obj, htz]
  rfl

/-- Every other message holds an event or is reported as invalid. -/
theorem deserialize_inside {bytes : Bytes} (h : ¬ OutsideCalendar (some bytes)) :
    (∃ event, IncidentCreatedEvent.deserialize bytes = .ok event) ∨
      ∃ e, IncidentCreatedEvent.deserialize bytes = .error e ∧ e.cls = .validationError := by
  cases hparse : Pydantic.parseJson bytes with
  | none =>
      exact .inr ⟨_, by rw [IncidentCreatedEvent.deserialize, hparse], rfl⟩
  | some value =>
      have hde : IncidentCreatedEvent.deserialize bytes =
          IncidentCreatedEvent.modelValidate value := by
        rw [IncidentCreatedEvent.deserialize, hparse]
      rw [hde]
      rcases modelValidate_cases value with hok | herr | ⟨entries, wall, offset, rfl, hdt, hout⟩
      · exact .inl hok
      · exact .inr herr
      · exact absurd ⟨bytes, entries, wall, offset, rfl, hparse, hdt, hout⟩ h

/-! ## Handling -/

section
variable {process : IncidentCreatedEvent → Py ProcessingOutcome} {bytes : Bytes}

/-- A message that is reported as invalid is malformed. -/
theorem handle_invalid {e : PyExc} (h : IncidentCreatedEvent.deserialize bytes = .error e)
    (he : e.cls = .validationError) :
    IncidentMessageHandler.handle process (some bytes) = ret .malformed := by
  have hcatch : e.isAny [.validationError, .valueError, .unicodeDecodeError] = true := by
    simp [PyExc.isAny, PyExc.isA, ExcClass.bases, he]
  simp only [IncidentMessageHandler.handle, h, answer_error]
  show (if e.isAny [.validationError, .valueError, .unicodeDecodeError] = true then _ else _) >>= _
    = _
  rw [if_pos hcatch]
  rfl

/-- An overflow is passed on. -/
theorem handle_overflow {e : PyExc} (h : IncidentCreatedEvent.deserialize bytes = .error e)
    (he : e.cls = .overflowError) :
    IncidentMessageHandler.handle process (some bytes) = raise e := by
  have hcatch : e.isAny [.validationError, .valueError, .unicodeDecodeError] = false := by
    simp [PyExc.isAny, PyExc.isA, ExcClass.bases, he]
  simp only [IncidentMessageHandler.handle, h, answer_error]
  show (if e.isAny [.validationError, .valueError, .unicodeDecodeError] = true then _ else _) >>= _
    = _
  rw [hcatch]
  rfl

end

section
variable {S : Type} {act : (o : Op) → S → Resp o → S → Prop} {s s' : S}

omit [Pydantic]

/-- A run of two parts in sequence that raises: the first raised, or the second did. -/
theorem exec_bind_error {α β : Type} {p : Py α} {f : α → Py β} {e : PyExc}
    (h : Exec act (p >>= f) s (.error e) s') :
    Exec act p s (.error e) s' ∨ ∃ a t, Exec act p s (.ok a) t ∧ Exec act (f a) t (.error e) s' := by
  induction p generalizing s with
  | ret a => exact .inr ⟨a, s, .ret a s, h⟩
  | raise e' =>
      cases h
      exact .inl (.raise _ _)
  | call o k ih =>
      cases h with
      | call ha hk =>
          rcases ih _ hk with h | ⟨a, t, h₁, h₂⟩
          · exact .inl (.call ha h)
          · exact .inr ⟨a, t, .call ha h₁, h₂⟩

/-- A run that raises although one list of classes is handled by returning: the guarded part
raised it. -/
theorem exec_tryExcept_error {α : Type} {p : Py α} {classes : List ExcClass} {a : α} {e : PyExc}
    (h : Exec act (tryExcept p classes fun _ => ret a) s (.error e) s') :
    Exec act p s (.error e) s' := by
  induction p generalizing s with
  | ret b => cases h
  | raise e' =>
      change Exec act (if e'.isAny classes then ret a else raise e') s (.error e) s' at h
      split at h
      · cases h
      · exact h
  | call o k ih =>
      cases h with
      | call ha hk => exact .call ha (ih _ hk)

end

/-- What is raised while an event is handled was raised by its processing. -/
theorem handle_raises {process : IncidentCreatedEvent → Py ProcessingOutcome} {bytes : Bytes}
    {S : Type} {act : (o : Op) → S → Resp o → S → Prop} {s s' : S}
    {event : IncidentCreatedEvent} {e : PyExc}
    (hev : IncidentCreatedEvent.deserialize bytes = .ok event)
    (h : Exec act (IncidentMessageHandler.handle process (some bytes)) s (.error e) s') :
    Exec act (process event) s (.error e) s' := by
  simp only [IncidentMessageHandler.handle, hev] at h
  rcases exec_bind_error (p := tryExcept (some <$> process event) [.retryableProcessingError]
    fun _ => return none) h with h | ⟨outcome, t, -, h⟩
  · rcases exec_bind_error (f := fun outcome => ret (some outcome)) (exec_tryExcept_error h) with
      h | ⟨_, _, -, h⟩
    · exact h
    · cases h
  · rcases outcome with _ | _ | _ | _ <;> cases h

/-- **A malformed message never holds up its partition, unless its instant leaves the
calendar**: exactly then the handler raises what nobody handles. -/
theorem settlesMalformed_iff (process : IncidentCreatedEvent → Py ProcessingOutcome)
    (value : Option Bytes) : SettlesMalformed process value ↔ ¬ OutsideCalendar value := by
  constructor
  · rintro hs hout
    cases value with
    | none =>
        obtain ⟨_, _, _, _, h, -⟩ := hout
        cases h
    | some bytes =>
        have hde := deserialize_outside hout
        have hnone : Message.event? (some bytes) = none := by
          simp [Message.event?, hde, Except.toOption]
        have hraise := (handle_overflow hde rfl).symm.trans
          (hs.malformed hnone)
        cases hraise
  · intro hin
    have hmal : Message.event? value = none →
        IncidentMessageHandler.handle process value = ret .malformed := by
      intro hnone
      cases value with
      | none => rfl
      | some bytes =>
          rcases deserialize_inside hin with ⟨event, hok⟩ | ⟨e, herr, hcls⟩
          · simp [Message.event?, hok, Except.toOption] at hnone
          · exact handle_invalid herr hcls
    refine ⟨hmal, fun hnone m hm => ?_, fun act s e s' hexec => ?_⟩
    · rw [KafkaIncidentWorker.processMessage, hm, hmal hnone]
      rfl
    · cases hev : Message.event? value with
      | none =>
          rw [hmal hev] at hexec
          cases hexec
      | some event =>
          cases value with
          | none => cases hev
          | some bytes =>
              refine ⟨event, rfl, ?_⟩
              cases hde : IncidentCreatedEvent.deserialize bytes with
              | error e' => simp [Message.event?, hde, Except.toOption] at hev
              | ok event' =>
                  simp only [Message.event?, Option.bind_some, hde, Except.toOption,
                    Option.some.injEq] at hev
                  subst hev
                  exact handle_raises hde hexec

end

/-! ## A message that is not settled -/

/-- The fields of a message from the first day of the calendar, east of Greenwich. -/
def earlyEntries : Dict Text Json := [("occurred_at", .str "0001-01-01T00:00:00+14:00")]

/-- Its bytes. -/
def earlyMessage : Bytes := (Json.modelDumpJson (.obj earlyEntries)).utf8

theorem earlyMessage_outside : OutsideCalendar (some earlyMessage) := by
  refine ⟨earlyMessage, earlyEntries, -62135596800000000, 50400000000, rfl, ?_, ?_, by decide⟩
  · show (ReferenceCodec.decodeUtf8 earlyMessage).bind ReferenceCodec.parseObject = _
    rw [earlyMessage, ReferenceCodec.decodeUtf8_utf8, Option.bind_some]
    exact ReferenceCodec.parseObject_modelDumpJson (by simp [earlyEntries, ReferenceCodec.Flat])
      (List.cons_ne_nil _ _) (by decide)
  · show ReferenceCodec.datetimeOfText "0001-01-01T00:00:00+14:00" = _
    decide +kernel

/-- It is not an event, and handling it raises. -/
theorem earlyMessage_raises :
    Message.event? (some earlyMessage) = none ∧
      IncidentMessageHandler.handle (fun _ => ret .processed) (some earlyMessage) =
        raise calendarOverflow ∧
      ¬ SettlesMalformed (fun _ => ret .processed) (some earlyMessage) := by
  have hde := deserialize_outside earlyMessage_outside
  have hnone : Message.event? (some earlyMessage) = none := by
    simp [Message.event?, hde, Except.toOption]
  have hraise : IncidentMessageHandler.handle (fun _ => ret .processed) (some earlyMessage) =
      raise calendarOverflow := handle_overflow hde rfl
  refine ⟨hnone, hraise, fun hs => ?_⟩
  cases hraise.symm.trans (hs.malformed hnone)

end SupportPlatform
