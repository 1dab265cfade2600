import SupportPlatform.Program
import SupportPlatform.Text
import SupportPlatform.Regex
import SupportPlatform.Json
import SupportPlatform.Exceptions
import SupportPlatform.Records
import SupportPlatform.EventModels
import SupportPlatform.Database
import SupportPlatform.World
import SupportPlatform.Calls
import SupportPlatform.OutboxDispatcher
import SupportPlatform.Intake
import SupportPlatform.Isolation
import SupportPlatform.OutboxLedger
import SupportPlatform.Worker
import SupportPlatform.ConsumerLoop
import SupportPlatform.MalformedMessages
import SupportPlatform.ReferenceCodec
import SupportPlatform.Replay
import SupportPlatform.HumanReview
import SupportPlatform.Sanitization
import SupportPlatform.Prompts
import SupportPlatform.AgentModels
import SupportPlatform.AgentTools
import SupportPlatform.AgentWorkflow
import SupportPlatform.Evidence
import SupportPlatform.PlannerPayloads
import SupportPlatform.AgentRoutines
import SupportPlatform.PromptFilling
import SupportPlatform.EventTransport
import SupportPlatform.Retrieval
import SupportPlatform.Metering
import SupportPlatform.PlanningLoop
import SupportPlatform.Lockstep
import SupportPlatform.WorkflowCalls
import SupportPlatform.LogBlindness
import SupportPlatform.AgentLoop
import SupportPlatform.Session
import SupportPlatform.RetryBudget
import SupportPlatform.StepLog
import SupportPlatform.StepWriters
import SupportPlatform.StepBudgets
import SupportPlatform.Grounding
import SupportPlatform.RepeatedCalls
import SupportPlatform.SanitizedValues
import SupportPlatform.RunbookSearch
import SupportPlatform.EvidenceSummary
import SupportPlatform.Words
import SupportPlatform.Chunking
import SupportPlatform.KnowledgeTables
import SupportPlatform.Ingestion
import SupportPlatform.IngestionRuns
import SupportPlatform.PreviousResolutions
import SupportPlatform.Encoding
import SupportPlatform.ChunkTexts
import SupportPlatform.ResolverPrompt
import SupportPlatform.EncodedSizes
import SupportPlatform.ResultSizes
import SupportPlatform.Substitution
import SupportPlatform.CallSignatures
import SupportPlatform.RequestBodyLimit
import SupportPlatform.ToolMetrics
import SupportPlatform.BatchDispatch
import SupportPlatform.PublicationBackoff
import SupportPlatform.Traversal
import SupportPlatform.JsonSchema
import SupportPlatform.OllamaGrammar
import SupportPlatform.IncidentResolution
import SupportPlatform.ResolutionFencing
import SupportPlatform.EventDelivery
import SupportPlatform.IncidentDelivery
import SupportPlatform.AcceptedIncidents
import SupportPlatform.IncidentListing
import SupportPlatform.BodyLimitEnforcement
import SupportPlatform.TraceContext
