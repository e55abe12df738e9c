import OneOps.KeyedTable
import OneOps.FulfillmentContracts
import OneOps.FulfillmentDb
import OneOps.FulfillmentPlanning
import OneOps.DependencyClosure
import OneOps.FulfillmentInspection
import OneOps.FulfillmentWorker
import OneOps.FulfillmentApproval
import OneOps.FulfillmentSaga
import OneOps.FulfillmentSubmission
import OneOps.ProcessPool
import OneOps.FulfillmentSystem
import OneOps.FulfillmentTaskProtocol
import OneOps.FulfillmentProvisioning
import OneOps.FulfillmentAdvisoryLock
import OneOps.FulfillmentLifecycle
import OneOps.FulfillmentDuplicateGate
import OneOps.FulfillmentReplay
import OneOps.FulfillmentAtomicity
import OneOps.FulfillmentCreation
import OneOps.FulfillmentWaves
import OneOps.FairExecution
import OneOps.FulfillmentTermination
import OneOps.FulfillmentVerdict
import OneOps.FulfillmentCompletion
import OneOps.FulfillmentPersistence
import OneOps.FulfillmentRelease
import OneOps.ExecutorPlan
import OneOps.ExecutorNodes
import OneOps.ExecutorWaves
import OneOps.BoundedTree
import OneOps.ExecutorGeneration
import OneOps.ExecutorWaveLoop
import OneOps.ExecutorRecursionLimit
import OneOps.DepthFirst
import OneOps.RouterPlan
import OneOps.ExecutorTurns
import OneOps.SessionConversation
import OneOps.ChatInterrupts
import OneOps.SessionLifecycle
import OneOps.SessionListing
import OneOps.SessionWindow
import OneOps.VersionedRegistry
import OneOps.ColourSearch
import OneOps.RegistryReads
import OneOps.ActivationConditions
import OneOps.RegistryService
import OneOps.RouterPlanAssembly
import OneOps.RouterExclusions
import OneOps.ExecutorStepRunner
import OneOps.NatsCircuitBreaker
import OneOps.PythonJson
import OneOps.ToolRunner
import OneOps.ChatSessionBinding
import OneOps.AnswerCache
import OneOps.ChatTurnCache
import OneOps.SemanticTurnCache
import OneOps.AuthzRules
import OneOps.RouterDisambiguation
import OneOps.RouterFunnel
import OneOps.RouteCache
import OneOps.RouterAuthorization
import OneOps.FulfillmentSagaOrder
import OneOps.FulfillmentTemplates
import OneOps.FulfillmentStatusRead
import OneOps.FulfillmentApprovers
import OneOps.PythonFormat
import OneOps.FulfillmentSubstitution
import OneOps.PythonRegex
import OneOps.LlmGateway
import OneOps.FulfillmentRetryBudget
import OneOps.TriageService
import OneOps.TriageDecisions
import OneOps.SimilarTickets
import OneOps.SimilarTicketsConfinement
import OneOps.KleeneLogic
import OneOps.ActivationSemantics
import OneOps.ExecutorToolSelection
import OneOps.PythonText
import OneOps.ExecutorMemory
import OneOps.RegistryResolution
import OneOps.NatsResilientCall
import OneOps.EntityIds
import OneOps.EntityExtraction
import OneOps.SubQueryCleanup
import OneOps.ExceptLoops
import OneOps.QueryDecomposition
import OneOps.SimilarTicketsRanking
import OneOps.TriageStores
import OneOps.StableRanking
import OneOps.TriagePriority
import OneOps.TriageSimilarity
import OneOps.TriageSuggestions
import OneOps.TriageDuplicates
import OneOps.InvertedIndex
import OneOps.LexicalRetrieval
import OneOps.FastPathDispatch
import OneOps.RegexLanguage
import OneOps.RegexSubstitution
import OneOps.PiiRedaction
import OneOps.ExecutorReducers
import OneOps.AuthzService
import OneOps.KbChunker
import OneOps.RankFusion
import OneOps.CatalogSearch
import OneOps.PythonDate
import OneOps.TimeFilters
import OneOps.SqlParameters
import OneOps.SimilarTicketsQuery
import OneOps.KbRerank
import OneOps.LinkedArticles
import OneOps.LiveActivityStream
import OneOps.RegistrySync
import OneOps.RefreshQueue
import OneOps.KbVectors
import OneOps.InProcessAdapter
import OneOps.PolicyEngine
import OneOps.LifecycleHooks
import OneOps.GovernedExecution
import OneOps.TurnReply
import OneOps.ConversationFocus
import OneOps.ConversationControl
import OneOps.TurnGraph
import OneOps.FulfillmentCreation
import OneOps.InProcessExecution
