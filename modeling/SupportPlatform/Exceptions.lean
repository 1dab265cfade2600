import SupportPlatform.Text

/-! # Exceptions

The exception classes of the code with their inheritance, over the built-in ones
they derive from.  A handler catches a class with everything below it, so what
matters about a class is the chain of its bases.
-/
namespace SupportPlatform

/-- The exception classes that the modelled code raises or distinguishes.  `other`
is any further `Exception`. -/
inductive ExcClass
  | other
  | typeError
  | overflowError
  | assertionError
  | valueError
  | unicodeDecodeError
  | validationError
  | promptTemplateError
  | runtimeError
  | sqlalchemyError
  | operationalError
  | dataError
  | integrityError
  | kafkaException
  | eventPublishError
  | retryableProcessingError
  | retryableResolutionError
  | agentError
  | agentValidationError
  | agentBudgetExceededError
  | unknownToolError
  | unauthorizedToolArgumentsError
  | toolExecutionError
  | toolTimeoutError
  | providerError
  | providerUnavailableError
  | providerResponseError
  | structuredOutputValidationError
  | httpException (status : Nat)
  deriving DecidableEq, Repr

namespace ExcClass

/-- The classes a class derives from, itself first. -/
def bases : ExcClass → List ExcClass
  | unicodeDecodeError => [unicodeDecodeError, valueError]
  | validationError => [validationError, valueError]
  | promptTemplateError => [promptTemplateError, valueError]
  | operationalError => [operationalError, sqlalchemyError]
  | dataError => [dataError, sqlalchemyError]
  | integrityError => [integrityError, sqlalchemyError]
  | eventPublishError => [eventPublishError, runtimeError]
  | retryableProcessingError => [retryableProcessingError, runtimeError]
  | retryableResolutionError => [retryableResolutionError, runtimeError]
  | agentError => [agentError, runtimeError]
  | agentValidationError => [agentValidationError, agentError, runtimeError]
  | agentBudgetExceededError => [agentBudgetExceededError, agentError, runtimeError]
  | unknownToolError => [unknownToolError, agentValidationError, agentError, runtimeError]
  | unauthorizedToolArgumentsError =>
      [unauthorizedToolArgumentsError, agentValidationError, agentError, runtimeError]
  | toolExecutionError => [toolExecutionError, agentError, runtimeError]
  | toolTimeoutError => [toolTimeoutError, toolExecutionError, agentError, runtimeError]
  | providerError => [providerError, runtimeError]
  | providerUnavailableError => [providerUnavailableError, providerError, runtimeError]
  | providerResponseError => [providerResponseError, providerError, runtimeError]
  | structuredOutputValidationError =>
      [structuredOutputValidationError, providerResponseError, providerError, runtimeError]
  | c => [c]

/-- `type(error).__name__`. -/
def name : ExcClass → Text
  | other => "Exception"
  | typeError => "TypeError"
  | overflowError => "OverflowError"
  | assertionError => "AssertionError"
  | valueError => "ValueError"
  | unicodeDecodeError => "UnicodeDecodeError"
  | validationError => "ValidationError"
  | promptTemplateError => "PromptTemplateError"
  | runtimeError => "RuntimeError"
  | sqlalchemyError => "SQLAlchemyError"
  | operationalError => "OperationalError"
  | dataError => "DataError"
  | integrityError => "IntegrityError"
  | kafkaException => "KafkaException"
  | eventPublishError => "EventPublishError"
  | retryableProcessingError => "RetryableProcessingError"
  | retryableResolutionError => "RetryableResolutionError"
  | agentError => "AgentError"
  | agentValidationError => "AgentValidationError"
  | agentBudgetExceededError => "AgentBudgetExceededError"
  | unknownToolError => "UnknownToolError"
  | unauthorizedToolArgumentsError => "UnauthorizedToolArgumentsError"
  | toolExecutionError => "ToolExecutionError"
  | toolTimeoutError => "ToolTimeoutError"
  | providerError => "ProviderError"
  | providerUnavailableError => "ProviderUnavailableError"
  | providerResponseError => "ProviderResponseError"
  | structuredOutputValidationError => "StructuredOutputValidationError"
  | httpException _ => "HTTPException"

end ExcClass

/-- A raised exception: its class and `str(exc)`. -/
structure PyExc where
  cls : ExcClass
  message : Text
  deriving DecidableEq

namespace PyExc

/-- `isinstance(error, c)`. -/
def isA (e : PyExc) (c : ExcClass) : Bool := c ∈ e.cls.bases

/-- Whether one of the classes catches the exception. -/
def isAny (e : PyExc) (classes : List ExcClass) : Bool := classes.any e.isA

theorem isAny_of_mem {e : PyExc} {classes : List ExcClass} {c : ExcClass} (hc : c ∈ classes)
    (h : e.isA c) : e.isAny classes := List.any_eq_true.mpr ⟨c, hc, h⟩

/-- `safe_error(error)`: the message on one line, bounded. -/
def safeError (e : PyExc) : Text :=
  ((e.message.replace "\n" " ").replace "\r" " ").take 1000

end PyExc

end SupportPlatform
