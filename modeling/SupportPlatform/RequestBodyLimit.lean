import SupportPlatform.EncodedSizes
import SupportPlatform.Intake
import SupportPlatform.ReferenceCodec

/-! # The limit of request bodies

`RequestBodyLimitMiddleware` of `app/core/http.py`, between a server that hands out the messages
of a request and any application that reads them.  A request passes when the application cannot
tell that the middleware is there.  It passes exactly when neither its announced length nor what
is received exceeds the limit (`passes_iff`).

The limit counts bytes and the schema of an incident counts characters, so some incidents that
the schema accepts are turned away; `incident_passes_iff` says which.
-/
namespace SupportPlatform

/-! ## The middleware -/

/-- An ASGI message from the server. -/
inductive AsgiMessage
  | httpRequest (body : Bytes) (moreBody : Bool)
  | httpDisconnect
  deriving DecidableEq

/-- What an application or the middleware raises. -/
inductive AsgiError
  | requestBodyTooLarge
  | other (message : Text)
  deriving DecidableEq

/-- A call of an application: it receives a message, sends one, or has a JSON response sent. -/
inductive AsgiOp (Sent : Type)
  | receive
  | send (message : Sent)
  | respond (statusCode : Nat) (content : Json)

/-- The answers to a call. -/
def AsgiOp.Resp {Sent : Type} : AsgiOp Sent → Type
  | .receive => Except AsgiError AsgiMessage
  | .send _ | .respond _ _ => Unit

/-- `await app(scope, receive, send)`. -/
abbrev AsgiApp (Sent : Type) := Program (@AsgiOp.Resp Sent) AsgiError Unit

/-- What the middleware reads of a scope. -/
structure Scope where
  type : Option Text
  headers : List (Bytes × Bytes)

/-- `int(raw)` of bytes: `none` where it raises a `ValueError`. -/
def intOfBytes (raw : Bytes) : Option Int :=
  let white (b : UInt8) : Bool := (9 ≤ b && b ≤ 13) || b == 32
  let digit (b : UInt8) : Bool := 48 ≤ b && b ≤ 57
  let magnitude (digits : Bytes) : Option Int :=
    -- single underscores may stand between digits, of which there may be 4300
    if (digits.splitOn 95).all (fun group => group ≠ [] ∧ group.all digit) ∧
        (digits.filter digit).length ≤ 4300 then
      some ((digits.filter digit).foldl (fun n b => 10 * n + (b.toNat - 48)) 0 : Nat)
    else none
  match ((raw.dropWhile white).reverse.dropWhile white).reverse with
  | 43 :: digits => magnitude digits
  | 45 :: digits => (magnitude digits).map (- ·)
  | digits => magnitude digits

namespace RequestBodyLimitMiddleware
open Program

variable {Sent : Type}

/-- The length that a request announces, where it is a number. -/
def announced (scope : Scope) : Option Int :=
  (Dict.get? (Dict.ofList scope.headers) (Text.utf8 "content-length")).bind intOfBytes

/-- `_reject(scope, receive, send)`. -/
def reject : AsgiApp Sent :=
  .call (.respond 413 (.obj [("detail", .str "Request body exceeds the configured limit")])) .ret

/-- The application, reading by `limited_receive` after so many bytes. -/
def limited (maxBodyBytes : Nat) : Nat → AsgiApp Sent → AsgiApp Sent
  | _, .ret a => .ret a
  | _, .raise e => .raise e
  | received, .call .receive k =>
      .call .receive fun message => match message with
        | .ok (.httpRequest body moreBody) =>
            if received + body.length > maxBodyBytes then
              limited maxBodyBytes (received + body.length) (k (.error .requestBodyTooLarge))
            else
              limited maxBodyBytes (received + body.length) (k (.ok (.httpRequest body moreBody)))
        | message => limited maxBodyBytes received (k message)
  | received, .call (.send message) k =>
      .call (.send message) fun r => limited maxBodyBytes received (k r)
  | received, .call (.respond statusCode content) k =>
      .call (.respond statusCode content) fun r => limited maxBodyBytes received (k r)

/-- `__call__(scope, receive, send)`. -/
def call (maxBodyBytes : Nat) (app : AsgiApp Sent) (scope : Scope) : AsgiApp Sent :=
  if scope.type ≠ some ("http" : Text) then app
  else if (announced scope).any fun length => (maxBodyBytes : Int) < length then reject
  else tryCatch (limited maxBodyBytes 0 app) fun e =>
    if e = .requestBodyTooLarge then reject else .raise e

/-! ## What passes -/

/-- What a client gets: messages of the application, and responses. -/
inductive Event (Sent : Type)
  | sent (message : Sent)
  | responded (statusCode : Nat) (content : Json)

/-- A request with these messages: what is sent while they are read, and how it ends.  After the
last of them the client is gone. -/
def serve : List AsgiMessage → AsgiApp Sent → List (Event Sent) × Except AsgiError Unit
  | _, .ret a => ([], .ok a)
  | _, .raise e => ([], .error e)
  | [], .call .receive k => serve [] (k (.ok .httpDisconnect))
  | message :: messages, .call .receive k => serve messages (k (.ok message))
  | messages, .call (.send message) k =>
      let served := serve messages (k ())
      (.sent message :: served.1, served.2)
  | messages, .call (.respond statusCode content) k =>
      let served := serve messages (k ())
      (.responded statusCode content :: served.1, served.2)

/-- The body that the messages bring. -/
def bodyOf (messages : List AsgiMessage) : Bytes :=
  messages.flatMap fun message => match message with
    | .httpRequest body _ => body
    | .httpDisconnect => []

/-- No application can tell that the middleware is there, unless it raises what only the
middleware does. -/
def Passes (Sent : Type) (maxBodyBytes : Nat) (scope : Scope) (messages : List AsgiMessage) : Prop :=
  ∀ app : AsgiApp Sent, (serve messages app).2 ≠ .error .requestBodyTooLarge →
    serve messages (call maxBodyBytes app scope) = serve messages app

variable {maxBodyBytes : Nat}

/-- Within the limit every message is handed on. -/
theorem serve_limited {received : Nat} {messages : List AsgiMessage} (app : AsgiApp Sent)
    (h : received + (bodyOf messages).length ≤ maxBodyBytes) :
    serve messages (limited maxBodyBytes received app) = serve messages app := by
  induction app generalizing received messages with
  | ret a => cases messages <;> rfl
  | raise e => cases messages <;> rfl
  | call o k ih =>
      cases o with
      | receive =>
          cases messages with
          | nil =>
              rw [limited, serve, serve]
              exact ih (.ok .httpDisconnect) h
          | cons message messages =>
              cases message with
              | httpDisconnect =>
                  rw [limited, serve, serve]
                  exact ih (.ok .httpDisconnect) h
              | httpRequest body moreBody =>
                  have hbody : (bodyOf (.httpRequest body moreBody :: messages)).length =
                      body.length + (bodyOf messages).length := by
                    rw [bodyOf, List.flatMap_cons, List.length_append]
                    rfl
                  have hwithin : ¬ received + body.length > maxBodyBytes := by omega
                  rw [limited, serve, serve]
                  dsimp only
                  rw [if_neg hwithin]
                  exact ih (.ok (.httpRequest body moreBody)) (by omega)
      | send message =>
          cases messages <;> exact congrArg (fun served : List (Event Sent) × Except AsgiError Unit =>
            (Event.sent message :: served.1, served.2)) (ih () h)
      | respond statusCode content =>
          cases messages <;> exact congrArg (fun served : List (Event Sent) × Except AsgiError Unit =>
            (Event.responded statusCode content :: served.1, served.2)) (ih () h)

/-- What catches one exception makes no difference where it is not raised. -/
theorem serve_tryCatch {messages : List AsgiMessage} {app handled : AsgiApp Sent}
    (h : (serve messages app).2 ≠ .error .requestBodyTooLarge) :
    serve messages (tryCatch app fun e => if e = .requestBodyTooLarge then handled else .raise e) =
      serve messages app := by
  induction app generalizing messages with
  | ret a => cases messages <;> rfl
  | raise e =>
      have hne : e ≠ .requestBodyTooLarge := by
        rintro rfl
        cases messages <;> exact h rfl
      rw [Program.tryCatch, if_neg hne]
  | call o k ih =>
      cases o with
      | receive =>
          cases messages with
          | nil => exact ih (.ok .httpDisconnect) h
          | cons message messages => exact ih (.ok message) h
      | send message =>
          cases messages <;> exact congrArg (fun served : List (Event Sent) × Except AsgiError Unit =>
            (Event.sent message :: served.1, served.2)) (ih () h)
      | respond statusCode content =>
          cases messages <;> exact congrArg (fun served : List (Event Sent) × Except AsgiError Unit =>
            (Event.responded statusCode content :: served.1, served.2)) (ih () h)

/-- An application that reads so many messages. -/
def reader (Sent : Type) : Nat → AsgiApp Sent
  | 0 => .ret ()
  | n + 1 => .call .receive fun message => match message with
      | .ok _ => reader Sent n
      | .error e => .raise e

theorem serve_reader (messages : List AsgiMessage) :
    serve messages (reader Sent messages.length) = ([], .ok ()) := by
  induction messages with
  | nil => rfl
  | cons message messages ih => exact ih

/-- A reader of the whole body is stopped where the limit is exceeded. -/
theorem serve_reader_rejected {received : Nat} {messages : List AsgiMessage}
    (h : maxBodyBytes < received + (bodyOf messages).length) (hreceived : received ≤ maxBodyBytes) :
    serve messages (tryCatch (limited maxBodyBytes received (reader Sent messages.length)) fun e =>
      if e = .requestBodyTooLarge then reject else .raise e) = serve [] reject := by
  induction messages generalizing received with
  | nil =>
      rw [bodyOf, List.flatMap_nil, List.length_nil] at h
      omega
  | cons message messages ih =>
      cases message with
      | httpDisconnect =>
          rw [List.length_cons, reader, limited, Program.tryCatch, serve]
          exact ih h hreceived
      | httpRequest body moreBody =>
          have hbody : (bodyOf (.httpRequest body moreBody :: messages)).length =
              body.length + (bodyOf messages).length := by
            rw [bodyOf, List.flatMap_cons, List.length_append]
            rfl
          rw [List.length_cons, reader, limited, Program.tryCatch, serve]
          dsimp only
          by_cases hover : received + body.length > maxBodyBytes
          · rw [if_pos hover]
            cases messages <;> rfl
          · rw [if_neg hover]
            exact ih (by omega) (by omega)

/-- **What passes**: a request that neither announces nor brings more than the limit. -/
theorem passes_iff {scope : Scope} {messages : List AsgiMessage}
    (htype : scope.type = some ("http" : Text)) :
    Passes Sent maxBodyBytes scope messages ↔
      (∀ length ∈ announced scope, length ≤ maxBodyBytes) ∧
        (bodyOf messages).length ≤ maxBodyBytes := by
  have hhttp : ¬ scope.type ≠ some ("http" : Text) := fun h => h htype
  have hreject : ∀ messages : List AsgiMessage,
      serve messages (reject : AsgiApp Sent) ≠ ([], .ok ()) := by
    intro messages
    cases messages <;> exact nofun
  constructor
  · intro h
    have hread := h (reader Sent messages.length)
    rw [serve_reader, call, if_neg hhttp] at hread
    have hread := hread nofun
    by_cases hannounced : (announced scope).any fun length => (maxBodyBytes : Int) < length
    · rw [if_pos hannounced] at hread
      exact absurd hread (hreject messages)
    · rw [if_neg hannounced] at hread
      refine ⟨fun length hlength => ?_, ?_⟩
      · rw [Option.mem_def.mp hlength] at hannounced
        simpa using hannounced
      · by_contra hover
        rw [serve_reader_rejected (by omega) (Nat.zero_le _)] at hread
        exact hreject [] hread
  · rintro ⟨hannounced, hbody⟩ app happ
    have hshort : ¬ (announced scope).any (fun length => (maxBodyBytes : Int) < length) = true := by
      cases hlength : announced scope with
      | none => exact nofun
      | some length => simpa using hannounced length hlength
    have hwithin : 0 + (bodyOf messages).length ≤ maxBodyBytes := by omega
    have hsame := serve_limited app hwithin
    rw [call, if_neg hhttp, if_neg hshort, serve_tryCatch (hsame ▸ happ), hsame]

end RequestBodyLimitMiddleware

/-! ## Incidents -/

open RequestBodyLimitMiddleware

/-- `request.model_dump(mode="json")`. -/
def IncidentRequest.modelDump (request : IncidentRequest) : Json :=
  .obj [("service", .str request.service), ("error", .str request.error), ("log", .str request.log),
    ("severity", match request.severity with
      | none => .null
      | some severity => .str severity.value)]

/-- The request as a client sends it: compact, and nothing escaped but what must be. -/
def IncidentRequest.body [Runtime] (request : IncidentRequest) : Bytes :=
  Text.utf8 (Json.modelDumpJson request.modelDump)

/-- The bytes of the request: what stands around the fields, and the fields in quotes. -/
def IncidentRequest.bytes (request : IncidentRequest) : Nat :=
  40 + Json.quotedBytes request.service + Json.quotedBytes request.error +
    Json.quotedBytes request.log +
    match request.severity with
    | none => 4
    | some severity => 2 + severity.value.length

theorem Text.length_utf8 (s : Text) : s.utf8.length = s.utf8Length := by
  induction s with
  | nil => rfl
  | cons c s ih =>
      have hcons : Text.utf8 (c :: s) = String.utf8EncodeChar c ++ Text.utf8 s := rfl
      rw [hcons, List.length_append, String.length_utf8EncodeChar, ih, Text.utf8Length_cons]

theorem IncidentRequest.length_body [Runtime] (request : IncidentRequest) :
    request.body.length = request.bytes := by
  have hvalue : Json.bytes (match request.severity with
      | none => .null
      | some severity => .str severity.value) = match request.severity with
      | none => 4
      | some severity => 2 + severity.value.length := by
    cases request.severity with
    | none => exact Json.bytes_null
    | some severity =>
        rw [Json.bytes_str]
        cases severity <;> rfl
  have hkeys : Json.quotedBytes "service" = 9 ∧ Json.quotedBytes "error" = 7 ∧
      Json.quotedBytes "log" = 5 ∧ Json.quotedBytes "severity" = 10 := by decide
  have hbytes := Json.bytes_obj [("service", .str request.service), ("error", .str request.error),
    ("log", .str request.log), ("severity", match request.severity with
      | none => .null
      | some severity => .str severity.value)]
  simp only [List.map_cons, List.map_nil, List.sum_cons, List.sum_nil, List.length_cons,
    List.length_nil, Json.bytes_str, hkeys, hvalue] at hbytes
  rw [IncidentRequest.body, Text.length_utf8, IncidentRequest.modelDump]
  refine hbytes.trans ?_
  rw [IncidentRequest.bytes]
  omega

/-- The largest size of a request: every character of a field takes a six-byte escape. -/
theorem IncidentRequest.bytes_le (request : IncidentRequest) : request.bytes ≤ 126656 := by
  have hservice := Json.quotedBytes_le request.service
  have herror := Json.quotedBytes_le request.error
  have hlog := Json.quotedBytes_le request.log
  have hseverity : (match request.severity with
      | none => 4
      | some severity => 2 + severity.value.length) ≤ 10 := by
    cases request.severity with
    | none => decide
    | some severity => cases severity <;> decide
  have hbounds := request.service_length
  have hbounds' := request.error_length
  have hbounds'' := request.log_length
  rw [IncidentRequest.bytes]
  omega

/-- The setting of the limit, within its bounds. -/
structure BodyLimitSettings where
  apiMaxRequestBodyBytes : Nat
  bounds : 21000 ≤ apiMaxRequestBodyBytes ∧ apiMaxRequestBodyBytes ≤ 1048576

/-- **Which incidents pass**, however they are split into messages and whatever announces their
size: those whose encoding is within the limit, and so all of them where the limit leaves six bytes
for every character. -/
theorem incident_passes_iff [Runtime] {Sent : Type} (settings : BodyLimitSettings)
    (request : IncidentRequest) (scope : Scope) (messages : List AsgiMessage)
    (htype : scope.type = some ("http" : Text))
    (hannounced : ∀ length ∈ announced scope, length = request.body.length)
    (hbody : bodyOf messages = request.body) :
    (Passes Sent settings.apiMaxRequestBodyBytes scope messages ↔
      request.bytes ≤ settings.apiMaxRequestBodyBytes) ∧
    (126656 ≤ settings.apiMaxRequestBodyBytes →
      Passes Sent settings.apiMaxRequestBodyBytes scope messages) := by
  have hpasses : Passes Sent settings.apiMaxRequestBodyBytes scope messages ↔
      request.bytes ≤ settings.apiMaxRequestBodyBytes := by
    rw [passes_iff htype, hbody, request.length_body]
    constructor
    · intro h
      exact h.2
    · intro h
      refine ⟨fun length hlength => ?_, h⟩
      have hsize := hannounced length hlength
      rw [request.length_body] at hsize
      omega
  refine ⟨hpasses, fun hlimit => hpasses.mpr ?_⟩
  have hlargest := request.bytes_le
  omega

/-- A scope that announces a length. -/
def announcing (length : Text) : Scope := ⟨some "http", [(Text.utf8 "content-length", length.utf8)]⟩

/-- An incident of three letters. -/
def shortIncident : IncidentRequest :=
  ⟨"a", "b", "c", none, by decide, by decide, by decide⟩

/-- A short incident passes in two messages. -/
theorem short_incident_passes :
    Passes Unit 24576 (announcing "53") [.httpRequest (shortIncident.body.take 20) true,
      .httpRequest (shortIncident.body.drop 20) false] := by
  have hbytes : shortIncident.bytes = 53 := by decide
  have hannounced : announced (announcing "53") = some 53 := by decide +kernel
  have hwithin : shortIncident.bytes ≤ 24576 := by
    rw [hbytes]
    decide
  refine (incident_passes_iff ⟨24576, by decide⟩ shortIncident (announcing "53")
    [.httpRequest (shortIncident.body.take 20) true, .httpRequest (shortIncident.body.drop 20) false]
    rfl (fun length hlength => ?_) ?_).1.mpr hwithin
  · rw [hannounced] at hlength
    rw [shortIncident.length_body, hbytes]
    exact (Option.some.inj hlength).symm
  · simp [bodyOf]

/-- An incident with as long a log as the schema allows, in characters of two bytes. -/
def accentedIncident : IncidentRequest :=
  ⟨"a", "b", List.replicate 20000 'é', none, by decide, by decide,
    by rw [List.length_replicate]; decide⟩

/-- The incident exceeds the default limit. -/
theorem accented_incident_rejected :
    ¬ ∀ (settings : BodyLimitSettings) (request : IncidentRequest) (scope : Scope)
      (messages : List AsgiMessage), scope.type = some ("http" : Text) →
        announced scope = some (request.body.length : Int) → bodyOf messages = request.body →
          Passes Unit settings.apiMaxRequestBodyBytes scope messages := by
  intro h
  have hlog : ∀ n, Json.quotedBytes (List.replicate n 'é') = 2 + 2 * n := by
    intro n
    have hchar : Json.escapedBytes 'é' = 2 := by decide
    rw [Json.quotedBytes]
    induction n with
    | zero => rfl
    | succ n ih =>
        rw [List.replicate_succ, List.map_cons, List.sum_cons, hchar]
        omega
  have hbytes : accentedIncident.bytes = 40052 := by
    have hshort : Json.quotedBytes "a" = 3 ∧ Json.quotedBytes "b" = 3 := by decide
    have hseverity : accentedIncident.severity = none := rfl
    rw [IncidentRequest.bytes, hseverity]
    dsimp only [accentedIncident]
    rw [hlog, hshort.1, hshort.2]
  have hannounced : announced (announcing "40052") = some (accentedIncident.body.length : Int) := by
    rw [accentedIncident.length_body, hbytes]
    decide +kernel
  have hpasses := h ⟨24576, by decide⟩ accentedIncident (announcing "40052")
    [.httpRequest accentedIncident.body false] rfl hannounced (by simp [bodyOf])
  have hwithin := ((passes_iff rfl).mp hpasses).2
  rw [bodyOf, List.flatMap_singleton, accentedIncident.length_body, hbytes] at hwithin
  exact absurd hwithin (by decide)

end SupportPlatform
