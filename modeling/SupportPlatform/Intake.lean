import SupportPlatform.OutboxDispatcher
import SupportPlatform.Regex

/-! # Incident intake

The rule-based analyzer (`app/services/analyzer.py`) and
`analyze_and_persist_incident` (`app/services/incidents.py`): the incident and its outbox
row are one transaction, and the event is dispatched once right after it.
-/
namespace SupportPlatform
open Program

/-- `IncidentRequest`, stripped and within the bounds of its schema. -/
structure IncidentRequest where
  service : Text
  error : Text
  log : Text
  severity : Option Severity
  service_length : 1 ≤ service.length ∧ service.length ≤ 100
  error_length : 1 ≤ error.length ∧ error.length ≤ 1000
  log_length : 1 ≤ log.length ∧ log.length ≤ 20000

/-- `IncidentAnalysisResponse`. -/
structure IncidentAnalysis where
  classification : IncidentClassification
  severity : Severity
  probableCause : Text
  recommendedActions : List Text

/-! ## The analyzer -/

/-- `AnalysisRule`.  A pattern is a list of expressions that must all be found: a rule
with lookaheads from the start of the text has one for each. -/
structure AnalysisRule where
  classification : IncidentClassification
  defaultSeverity : Severity
  patterns : List (List Regex)
  probableCause : Text
  recommendedActions : List Text

namespace Analyzer
open Regex

/-- A case-insensitive literal, written in lower case. -/
def word (s : String) : Regex := literalIgnoreCase s

/-- `(?:a|b|...)`. -/
def oneOf : List String → Regex
  | [] => all []
  | [s] => word s
  | s :: rest => alt (word s) (oneOf rest)

/-- `(?:s)?`. -/
def maybe (r : Regex) : Regex := alt r (all [])

/-- `\b...\b`. -/
def bounded (parts : List Regex) : Regex := all (boundary :: parts ++ [boundary])

def authenticationPatterns : List (List Regex) :=
  [[bounded [word "jwt"]],
    [bounded [word "json web token"]],
    [bounded [oneOf ["invalid", "expired", "malformed"], word " ", maybe (word "access "),
      word "token"]],
    [bounded [word "token ", maybe (word "has "), word "expired"]],
    [bounded [word "authentication ", oneOf ["failed", "error", "failure"]]],
    [bounded [word "unauthori", char fun c => foldsTo 's' c || foldsTo 'z' c, word "ed"]],
    [bounded [word "bearer token"]],
    [bounded [word "signature verification failed"]],
    [bounded [literal "401"]]]

def databasePatterns : List (List Regex) :=
  [[bounded [word "database connection"]],
    [bounded [oneOf ["could not", "unable to", "failed to"], word " connect to ",
      maybe (word "the "),
      alt (word "database") (alt (all [word "postgres", maybe (word "ql")])
        (oneOf ["mysql", "mariadb"]))]],
    [bounded [alt (word "database") (alt (all [word "postgres", maybe (word "ql")])
        (oneOf ["mysql", "mariadb", "oracle", "sql server"]))],
      bounded [word "connection ", oneOf ["refused", "reset"]]],
    [bounded [word "connection pool ", oneOf ["exhausted", "timeout", "timed out"]]],
    [bounded [alt (all [word "psycopg", maybe (word "2")]) (word "sqlalchemy.exc"), word ".",
        oneOf ["operationalerror", "interfaceerror"]],
      bounded [oneOf ["connection refused", "could not connect", "server closed the connection"]]],
    [bounded [word "too many connections"]]]

def timeoutPatterns : List (List Regex) :=
  [[bounded [word "time", maybe (word "d"), opt fun c => c == ' ' || c == '-', word "out"]],
    [bounded [word "timeout", maybe (oneOf ["error", "exception"])]],
    [bounded [word "deadline exceeded"]],
    [bounded [word "gateway timeout"]],
    [bounded [literal "504"]]]

/-- `RULES`, in order of precedence. -/
def rules : List AnalysisRule :=
  [{ classification := .authenticationError
     defaultSeverity := .high
     patterns := authenticationPatterns
     probableCause :=
       ("The request could not be authenticated because its credentials or " ++
        "token were missing, invalid, expired, or failed verification." : String)
     recommendedActions :=
      ["Verify that the client sends a valid bearer token.",
        "Check token expiry, issuer, audience, and signing-key configuration.",
        "Review authentication service logs for rejected credentials."] },
    { classification := .databaseConnectionError
      defaultSeverity := .critical
      patterns := databasePatterns
      probableCause :=
        ("The application could not establish or retain a database " ++
         "connection, possibly because the database is unavailable, unreachable, or out of " ++
         "connections." : String)
      recommendedActions :=
        ["Confirm that the database service is running and reachable.",
          "Validate the connection settings and credentials.",
          "Inspect database and connection-pool capacity and logs."] },
    { classification := .timeoutError
      defaultSeverity := .medium
      patterns := timeoutPatterns
      probableCause :=
        ("An operation exceeded its allowed response time, likely because a " ++
         "dependency was slow, unavailable, or the configured deadline was too short." : String)
      recommendedActions :=
        ["Identify the timed-out dependency and check its health and latency.",
          "Review timeout thresholds against expected operation duration.",
          "Inspect resource saturation and recent latency changes."] }]

/-- `UNKNOWN_CAUSE` and `UNKNOWN_ACTIONS`. -/
def unknownCause : Text :=
  "The supplied error and log do not match a known Phase 1 classification rule."

def unknownActions : List Text :=
  ["Review the complete application logs and stack trace.",
    "Correlate the incident with recent deployments or configuration changes.",
    "Add a new deterministic rule if this failure pattern recurs."]

end Analyzer

variable [Runtime]

/-- `rule.matches(content)`. -/
def AnalysisRule.matches (rule : AnalysisRule) (content : Text) : Bool :=
  rule.patterns.any fun pattern => pattern.all fun r => r.search content

/-- `analyze_incident(incident)`. -/
def analyzeIncident (incident : IncidentRequest) : IncidentAnalysis :=
  let content := incident.error ++ "\n" ++ incident.log
  match Analyzer.rules.find? fun rule => rule.matches content with
  | some rule =>
      { classification := rule.classification
        severity := incident.severity.getD rule.defaultSeverity
        probableCause := rule.probableCause
        recommendedActions := rule.recommendedActions }
  | none =>
      { classification := .unknownError
        severity := incident.severity.getD .medium
        probableCause := Analyzer.unknownCause
        recommendedActions := Analyzer.unknownActions }

/-! ## Persistence -/

variable [Pydantic]

/-- The row of a new incident, before it is numbered. -/
def incidentRecord (incident : IncidentRequest) (analysis : IncidentAnalysis)
    (serverTime : Timestamp) : Incident :=
  { id := 0
    service := incident.service
    error := incident.error
    log := incident.log
    requestedSeverity := incident.severity
    resolvedSeverity := analysis.severity
    classification := analysis.classification
    probableCause := analysis.probableCause
    recommendedActions := analysis.recommendedActions
    createdAt := serverTime }

/-- `IncidentRepository.create`: the row, with the identifier the INSERT returns. -/
def createIncident (incident : IncidentRequest) (analysis : IncidentAnalysis) : Py Incident := do
  let serverTime ← now
  let id ← answer (← issue (.flushIncident (incidentRecord incident analysis serverTime)))
  return { incidentRecord incident analysis serverTime with id := id }

/-- `IncidentCreatedEvent.create`. -/
def createEvent (record : Incident) (analysis : IncidentAnalysis) : Py IncidentCreatedEvent := do
  let eventId ← issue .uuid4
  let occurredAt ← now
  match IncidentCreatedEvent.ofFields eventId occurredAt record.id record.service
      analysis.classification analysis.severity with
  | some event => return event
  | none => throw (validationError "IncidentCreatedEvent" none)

/-- The outbox row of a new event, with the server's defaults. -/
def outboxRecord (event : IncidentCreatedEvent) (topic : Text) (serverTime : Timestamp) :
    OutboxEvent :=
  { eventId := event.eventId
    incidentId := event.incidentId
    eventType := incidentCreatedEventType
    topic := topic
    payload := event.modelDump
    attempts := 0
    nextAttemptAt := serverTime
    lastError := none
    publishedAt := none
    createdAt := serverTime }

/-- `OutboxRepository.add`. -/
def stageEvent (event : IncidentCreatedEvent) (topic : Text) : Py Unit := do
  let serverTime ← now
  flush [.insertOutbox (outboxRecord event topic serverTime)]

/-- `analyze_and_persist_incident(incident, session, dispatcher)`, in the session of its
request. -/
def analyzeAndPersistIncident (topic : Text) (incident : IncidentRequest) :
    Py IncidentAnalysis := withSession do
  let analysis := analyzeIncident incident
  let event ← tryExcept
    (do
      let record ← createIncident incident analysis
      let event ← createEvent record analysis
      stageEvent event topic
      commit .intake []
      return event)
    [.sqlalchemyError] fun exc => do
      issue .closeSession
      throw exc
  tryException (do let _ ← OutboxDispatcher.dispatchEvent event.eventId) fun _ => return
  return analysis

end SupportPlatform
