import SupportPlatform.ReferenceCodec

/-! # Trace contexts on their way

`app/observability/context.py`: the trace context of an intake is stored in the outbox row, taken
up when the row is dispatched, sent along with the message in its Kafka headers, and taken up
again by the worker.  The propagator, which writes a context as W3C headers and reads them back, is
OpenTelemetry's and a parameter here.

Headers that are there already cannot get in the way: their names are compared without regard to
case, and whatever claims to be a trace header is dropped before the context is added.
-/
namespace SupportPlatform

/-! ## The carriers -/

/-- `_ALLOWED_TRACE_HEADERS`. -/
def allowedTraceHeaders : List Text := ["traceparent", "tracestate"]

/-- `TraceContextTextMapPropagator`: what it injects into an empty carrier, and what it extracts
from one. -/
structure TracePropagator (Context : Type) where
  inject : Context → Dict Text Text
  extract : Dict Text Text → Context

/-- The value of a Kafka header: bytes, a string or `None`. -/
inductive HeaderValue
  | bytes (value : Bytes)
  | text (value : Text)
  | none

/-- A Kafka header. -/
abbrev KafkaHeader := Text × HeaderValue

/-- `value.encode("ascii")`: `none` where it raises a `UnicodeEncodeError`. -/
def encodeAscii (value : Text) : Option Bytes :=
  if value.all Text.ascii then some (value.map fun c => UInt8.ofNat c.toNat) else none

/-- `value.decode("ascii")`: `none` where it raises a `UnicodeDecodeError`. -/
def decodeAscii (value : Bytes) : Option Text :=
  if value.all (· < 128) then some (value.map fun b => Char.ofNat b.toNat) else none

section
variable [Runtime] {Context : Type} (propagator : TracePropagator Context)

/-- `key.lower() in _ALLOWED_TRACE_HEADERS`. -/
def isTraceHeader (key : Text) : Bool := key.lower ∈ allowedTraceHeaders

/-- `capture_trace_context()` in a context. -/
def captureTraceContext (context : Context) : Dict Text Text :=
  (propagator.inject context).filter fun e => isTraceHeader e.1

/-- `capture_trace_context() or None`, as the outbox row stores it. -/
def storedTraceContext (context : Context) : Option (Dict Text Json) :=
  match captureTraceContext propagator context with
  | [] => none
  | carrier => some (carrier.map fun e => (e.1, .str e.2))

/-- One entry of a `safe_carrier`. -/
def safeEntry (e : Text × Json) : Option (Text × Text) :=
  match e.2 with
  | .str value => if isTraceHeader e.1 then some (e.1.lower, value.take 512) else none
  | _ => none

/-- The `safe_carrier` of `extract_trace_context`. -/
def safeCarrier (carrier : Option (Dict Text Json)) : Dict Text Text :=
  Dict.ofList ((carrier.getD []).filterMap safeEntry)

/-- `extract_trace_context(carrier)`. -/
def extractTraceContext (carrier : Option (Dict Text Json)) : Context :=
  propagator.extract (safeCarrier carrier)

/-- `inject_kafka_headers(existing)` in a context. -/
def injectKafkaHeaders (context : Context) (existing : List KafkaHeader) :
    Option (List KafkaHeader) := do
  let added ← (captureTraceContext propagator context).mapM fun e =>
    (encodeAscii e.2).map fun value => (e.1, HeaderValue.bytes value)
  return (existing.filter fun h => !isTraceHeader h.1) ++ added

/-- What `extract_kafka_context` takes of a header. -/
def headerEntry (h : KafkaHeader) : Option (Text × Text) :=
  if isTraceHeader h.1 then
    match h.2 with
    | .none => none
    | .bytes value => (decodeAscii value).map fun decoded => (h.1.lower, decoded.take 512)
    | .text value => some (h.1.lower, value.take 512)
  else none

/-- The `carrier` of `extract_kafka_context`. -/
def headerCarrier (headers : List KafkaHeader) : Dict Text Json :=
  (Dict.ofList (headers.filterMap headerEntry)).map fun e => (e.1, .str e.2)

/-- `extract_kafka_context(headers)`. -/
def extractKafkaContext (headers : List KafkaHeader) : Context :=
  extractTraceContext propagator (some (headerCarrier headers))

/-- **What W3C trace headers are**: the two headers in lower case, each at most once, of ASCII
characters and within the bound, from which the context is read back. -/
structure TracePropagator.Writes (context : Context) : Prop where
  names : ∀ e ∈ propagator.inject context, e.1 ∈ allowedTraceHeaders
  distinct : (Dict.keys (propagator.inject context)).Nodup
  ascii : ∀ e ∈ propagator.inject context, e.2.all Text.ascii = true
  bounded : ∀ e ∈ propagator.inject context, e.2.length ≤ 512
  readBack : propagator.extract (propagator.inject context) = context

/-! ## ASCII -/

omit [Runtime] in
theorem decodeAscii_encodeAscii {value : Text} {encoded : Bytes}
    (h : encodeAscii value = some encoded) : decodeAscii encoded = some value := by
  rw [encodeAscii] at h
  split at h
  · rename_i hascii
    cases h
    have hchars : ∀ c ∈ value, (UInt8.ofNat c.toNat).toNat = c.toNat := by
      intro c hc
      have hlt : c.toNat < 128 := of_decide_eq_true (List.all_eq_true.mp hascii c hc)
      rw [UInt8.toNat_ofNat', Nat.mod_eq_of_lt (by omega)]
    have hall : (value.map fun c => UInt8.ofNat c.toNat).all (· < 128) = true := by
      refine List.all_eq_true.mpr fun b hb => ?_
      obtain ⟨c, hc, rfl⟩ := List.mem_map.mp hb
      have hlt : c.toNat < 128 := of_decide_eq_true (List.all_eq_true.mp hascii c hc)
      refine decide_eq_true ?_
      rw [UInt8.lt_iff_toNat_lt, hchars c hc]
      exact hlt
    rw [decodeAscii, if_pos hall, List.map_map]
    refine congrArg some ?_
    calc value.map ((fun b : UInt8 => Char.ofNat b.toNat) ∘ fun c => UInt8.ofNat c.toNat)
        = value.map id := List.map_congr_left fun c hc => by
          rw [Function.comp_apply, hchars c hc, Char.ofNat_toNat, id]
      _ = value := List.map_id value
  · cases h

/-! ## Names -/

theorem lower_of_allowed {key : Text} (h : key ∈ allowedTraceHeaders) : key.lower = key := by
  rcases List.mem_pair.mp h with rfl | rfl <;> rfl

theorem isTraceHeader_of_allowed {key : Text} (h : key ∈ allowedTraceHeaders) :
    isTraceHeader key = true := by
  rw [isTraceHeader, lower_of_allowed h]
  exact decide_eq_true h

theorem allowed_of_isTraceHeader {key : Text} (h : isTraceHeader key = true) :
    key.lower ∈ allowedTraceHeaders := of_decide_eq_true h

/-! ## The way there and back -/

section
variable {propagator} {context : Context}

theorem capture_eq (h : propagator.Writes context) :
    captureTraceContext propagator context = propagator.inject context :=
  List.filter_eq_self.mpr fun e he => isTraceHeader_of_allowed (h.names e he)

/-- A carrier of W3C headers is safe as it is. -/
theorem safeCarrier_writes (h : propagator.Writes context) :
    safeCarrier (some ((propagator.inject context).map fun e => (e.1, .str e.2))) =
      propagator.inject context := by
  have hentries : ((propagator.inject context).map fun e => (e.1, Json.str e.2)).filterMap
      safeEntry = propagator.inject context := by
    rw [List.filterMap_map]
    refine (List.filterMap_congr fun e he => ?_).trans List.filterMap_some
    have hname := h.names e he
    rw [Function.comp_apply, safeEntry]
    dsimp only
    rw [if_pos (isTraceHeader_of_allowed hname), lower_of_allowed hname,
      List.take_of_length_le (h.bounded e he)]
  rw [safeCarrier, Option.getD_some, hentries, Dict.ofList_of_nodup h.distinct]

omit propagator context in
/-- Whatever a row or a message holds, the propagator is given the two headers only, within the
bound. -/
theorem safeCarrier_bounded (carrier : Option (Dict Text Json)) :
    ∀ e ∈ safeCarrier carrier, e.1 ∈ allowedTraceHeaders ∧ e.2.length ≤ 512 := by
  intro e he
  obtain ⟨⟨key, value⟩, -, hentry⟩ := List.mem_filterMap.mp (Dict.mem_of_mem_ofList he)
  rw [safeEntry] at hentry
  split at hentry
  · split at hentry
    · rename_i hname
      cases hentry
      exact ⟨allowed_of_isTraceHeader hname, List.length_take_le 512 _⟩
    · cases hentry
  · cases hentry

/-- **The row carries the context.** -/
theorem extract_stored (h : propagator.Writes context) :
    extractTraceContext propagator (storedTraceContext propagator context) = context := by
  rw [extractTraceContext, storedTraceContext, capture_eq h]
  have hsafe := safeCarrier_writes h
  cases hcarrier : propagator.inject context with
  | nil =>
      have hread := h.readBack
      rw [hcarrier] at hread
      exact hread
  | cons e carrier =>
      rw [hcarrier] at hsafe
      rw [hsafe, ← hcarrier]
      exact h.readBack

/-- The headers that are added are read as they were written. -/
theorem added_read (h : propagator.Writes context) {added : List KafkaHeader}
    (hadded : ((propagator.inject context).mapM fun e =>
      (encodeAscii e.2).map fun value => (e.1, HeaderValue.bytes value)) = some added) :
    added.filterMap headerEntry = propagator.inject context ∧
      ∀ a ∈ added, isTraceHeader a.1 = true := by
  have hnames := h.names
  have hbounded := h.bounded
  generalize propagator.inject context = carrier at hadded hnames hbounded
  induction carrier generalizing added with
  | nil =>
      cases hadded
      exact ⟨rfl, List.forall_mem_nil _⟩
  | cons e carrier ih =>
      rw [List.mapM_cons] at hadded
      obtain ⟨header, hheader, hothers⟩ := Option.bind_eq_some_iff.mp hadded
      obtain ⟨rest, hrest, hpair⟩ := Option.bind_eq_some_iff.mp hothers
      obtain ⟨value, hvalue, rfl⟩ := Option.map_eq_some_iff.mp hheader
      cases hpair
      obtain ⟨hread, htrace⟩ := ih hrest (fun a ha => hnames a (List.mem_cons_of_mem e ha))
        fun a ha => hbounded a (List.mem_cons_of_mem e ha)
      have hname := hnames e List.mem_cons_self
      have hhead := isTraceHeader_of_allowed hname
      have hentry : headerEntry (e.1, .bytes value) = some e := by
        rw [headerEntry, if_pos hhead]
        dsimp only
        rw [decodeAscii_encodeAscii hvalue, Option.map_some, lower_of_allowed hname,
          List.take_of_length_le (hbounded e List.mem_cons_self)]
      refine ⟨?_, List.forall_mem_cons.mpr ⟨hhead, htrace⟩⟩
      rw [List.filterMap_cons_some hentry, hread]

omit [Runtime] in
theorem exists_added (h : propagator.Writes context) :
    ∃ added, ((propagator.inject context).mapM fun e =>
      (encodeAscii e.2).map fun value => (e.1, HeaderValue.bytes value)) = some added := by
  have hascii := h.ascii
  generalize propagator.inject context = carrier at hascii
  induction carrier with
  | nil => exact ⟨[], rfl⟩
  | cons e carrier ih =>
      obtain ⟨rest, hrest⟩ := ih fun a ha => hascii a (List.mem_cons_of_mem e ha)
      refine ⟨(e.1, .bytes (e.2.map fun c => UInt8.ofNat c.toNat)) :: rest, ?_⟩
      rw [List.mapM_cons, hrest, encodeAscii, if_pos (hascii e List.mem_cons_self)]
      rfl

/-- **A trace context arrives.**  The context of an intake is read back from its outbox row; and
sent along with a message, it is read back from the message's headers, whatever headers the
message has already, in whatever case and how often they claim to be the trace's, and the
others among them are kept in their order. -/
theorem trace_context_arrives (h : propagator.Writes context) (existing : List KafkaHeader) :
    extractTraceContext propagator (storedTraceContext propagator context) = context ∧
    ∃ headers, injectKafkaHeaders propagator context existing = some headers ∧
      extractKafkaContext propagator headers = context ∧
      (headers.filter fun h => !isTraceHeader h.1) =
        existing.filter fun h => !isTraceHeader h.1 := by
  obtain ⟨added, hadded⟩ := exists_added h
  obtain ⟨hread, htrace⟩ := added_read h hadded
  refine ⟨extract_stored h, (existing.filter fun h => !isTraceHeader h.1) ++ added, ?_, ?_, ?_⟩
  · rw [injectKafkaHeaders, capture_eq h, hadded]
    rfl
  · -- the kept headers are none of the trace's, so only the added ones are read
    have hkept : (existing.filter fun h => !isTraceHeader h.1).filterMap headerEntry = [] := by
      refine List.filterMap_eq_nil_iff.mpr fun a ha => ?_
      have hnot := (List.mem_filter.mp ha).2
      rw [headerEntry, if_neg (by simpa using hnot)]
    rw [extractKafkaContext, extractTraceContext, headerCarrier, List.filterMap_append, hkept,
      List.nil_append, hread, Dict.ofList_of_nodup h.distinct, safeCarrier_writes h]
    exact h.readBack
  · have hnone : (added.filter fun h => !isTraceHeader h.1) = [] :=
      List.filter_eq_nil_iff.mpr fun a ha => by simp [htrace a ha]
    rw [List.filter_append, List.filter_filter, hnone, List.append_nil]
    simp only [Bool.and_self]

end

end

/-! ## A trace -/

/-- The propagator on contexts that are given by their `traceparent`. -/
def parentPropagator : TracePropagator Text where
  inject context := if context = [] then [] else [("traceparent", context)]
  extract carrier := (Dict.get? carrier "traceparent").getD []

/-- A sampled trace. -/
def sampledParent : Text := "00-0af7651916cd43dd8448eb211c80319c-b7ad6b7169203331-01"

theorem sampledParent_writes : parentPropagator.Writes sampledParent where
  names := by decide
  distinct := by decide
  ascii := by decide
  bounded := by decide
  readBack := by decide

/-- A message that comes with a forged header in another case and one of its own. -/
theorem trace_context_arrives_forged :
    ∃ headers, injectKafkaHeaders parentPropagator sampledParent
        [("TraceParent", .text "forged"), ("x-request-id", .bytes [49])] = some headers ∧
      extractKafkaContext parentPropagator headers = sampledParent ∧
      (headers.filter fun h => !isTraceHeader h.1) =
        [(("x-request-id" : Text), HeaderValue.bytes [49])] :=
  (trace_context_arrives sampledParent_writes
    [("TraceParent", .text "forged"), ("x-request-id", .bytes [49])]).2

end SupportPlatform
