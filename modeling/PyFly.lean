import PyFly.Library.InsertionDict
import PyFly.Library.ScheduledMachine
import PyFly.TransactionalPorts
import PyFly.SagaDefinition
import PyFly.SagaTopology
import PyFly.StepInvoker
import PyFly.StepExecution
import PyFly.ExecutionOrchestrator
import PyFly.OrchestratorInvariant
import PyFly.OrchestratorContract
import PyFly.Library.Coroutine
import PyFly.Library.Gather
import PyFly.Library.CalmGather
import PyFly.Library.DescendingGather
import PyFly.Compensator
import PyFly.CompensationAttempts
import PyFly.CompensationRetry
import PyFly.CompensationRecovery
import PyFly.CompensatorContract
import PyFly.CompensatorQuiescence
import PyFly.SagaEngine
import PyFly.EngineStages
import PyFly.Library.Rounds
import PyFly.TccDefinition
import PyFly.TccInvoker
import PyFly.TccOrchestrator
import PyFly.TccAttempts
import PyFly.TccPhases
import PyFly.TccContract
import PyFly.TccEngine
import PyFly.TccResultTruth
import PyFly.TccRegistry
import PyFly.DecoratedMethods
import PyFly.MemoryPersistence
import PyFly.CompensationTally
import PyFly.SagaRecovery
import PyFly.TerminalRecords
import PyFly.EngineCompensation
import PyFly.CompensationOrder
import PyFly.CompensationRestores
import PyFly.ForwardContext
import PyFly.ArgumentResolver
import PyFly.SagaComposition
import PyFly.SagaCompositor
import PyFly.CompositorContract
import PyFly.CompensationManager
import PyFly.CompositionCompensation
import PyFly.CompensationTruth
import PyFly.EngineClosing
import PyFly.CompensationSequence
import PyFly.EngineMarking
import PyFly.Library.KleeneLogic
import PyFly.SqlSpecification
import PyFly.SpecificationMeaning
import PyFly.Library.TextPatterns
import PyFly.Library.Histories
import PyFly.Library.CoroutineFunctions
import PyFly.ColumnComparison
import PyFly.MongoSpecification
import PyFly.FilterOperators
import PyFly.SpecificationAgreement
import PyFly.ColumnAgreement
import PyFly.QueryMethodCompiler
import PyFly.MongoQueryMethodCompiler
import PyFly.CompilerAgreement
import PyFly.TextOperators
import PyFly.SqlRepository
import PyFly.SoftDeleteRepository
import PyFly.SoftDeleteVisibility
import PyFly.SessionPropagation
import PyFly.SessionBinding
import PyFly.SessionFinishing
import PyFly.SessionInterleaving
import PyFly.TerminalRecords
import PyFly.MongoParameters
import PyFly.Library.TextReplacement
import PyFly.Container
import PyFly.Library.PartialCourse
import PyFly.Resolution
import PyFly.ResolutionMeaning
import PyFly.ResolutionAgreement
import PyFly.ResolutionSession
import PyFly.OptionalDependencies
import PyFly.BeanConditions
import PyFly.Configurations
import PyFly.FilteredQueries
import PyFly.InterfaceResolution
import PyFly.ActiveProfiles
import PyFly.AuthorizationServer
import PyFly.CircuitBreaker
import PyFly.ConditionEvaluator
import PyFly.Config
import PyFly.ConfigBinding
import PyFly.ConfigSources
import PyFly.ExpressionConstructs
import PyFly.ExpressionGrammar
import PyFly.ExpressionLayout
import PyFly.ExpressionMeaning
import PyFly.LoginStates
import PyFly.LostUpdates
import PyFly.MalformedExpressions
import PyFly.OAuth2Login
import PyFly.PublishedBeans
import PyFly.RequestScope
import PyFly.ResolutionPrograms
import PyFly.Scanning
import PyFly.SecurityContext
import PyFly.SecurityExpressions
import PyFly.SessionFilter
import PyFly.SessionLogout
import PyFly.SessionUpdates
import PyFly.TokenRedemption
import PyFly.Library.PatternSubstitution
import PyFly.AccessDecisions
import PyFly.AdviceChains
import PyFly.AdvisedCalls
import PyFly.AspectWeaving
import PyFly.CacheManager
import PyFly.FilterChain
import PyFly.FixedRateRuns
import PyFly.HttpSecurity
import PyFly.QueryBus
import PyFly.QueryCaching
import PyFly.QueryInvalidation
import PyFly.SchedulerShutdown
import PyFly.SchedulingLoops
import PyFly.TaskScheduler
import PyFly.WebFilters
import PyFly.Library.Globs
import PyFly.Library.UrlSplit
import PyFly.ContextLifecycle
import PyFly.HeldBeans
import PyFly.LifecycleCalls
import PyFly.AdviceOrder
import PyFly.BrokerAdapters
import PyFly.BrokerDelivery
import PyFly.BrokerInterleavings
import PyFly.BrokerIsolation
import PyFly.KafkaDelivery
import PyFly.MemoryBroker
import PyFly.RabbitMQDelivery
import PyFly.Library.RoundRobin
import PyFly.AuthenticationFilters
import PyFly.ControllerDispatch
import PyFly.ParameterBinding
import PyFly.ResponseHeaders
import PyFly.Library.IntegerText
import PyFly.OpenAPIGenerator
import PyFly.OpenAPINames
import PyFly.OpenAPIReferences
import PyFly.OpenAPISchemas
import PyFly.ListenerWiring
import PyFly.PointcutRegex
import PyFly.Library.Regex
import PyFly.Library.RegexText
import PyFly.MemoryCache
import PyFly.QueryMethodParser
import PyFly.Library.Segments
import PyFly.PagedQueries
import PyFly.BeanMethodOrder
import PyFly.Library.Acyclic
import PyFly.PlaceholderChains
import PyFly.MergedLayers
import PyFly.LayerObjects
import PyFly.EventListeners
import PyFly.Library.StableSort
import PyFly.RateLimiter
import PyFly.Library.TokenBucket
import PyFly.Bulkhead
import PyFly.Library.AsyncSemaphore
import PyFly.Library.FallibleMaps
import PyFly.AcceptLanguage
import PyFly.Library.TrimmedText
import PyFly.HttpClients
import PyFly.MessageBundles
import PyFly.Library.Placeholders
import PyFly.ExceptionHandlers
import PyFly.Library.ClassHierarchy
import PyFly.AdminStreams
import PyFly.ServerSentEvents
import PyFly.XmlConversion
import PyFly.Library.RingBuffer
import PyFly.Library.TextLines
import PyFly.CompensationBreaker
import PyFly.DagValidation
import PyFly.LayerDepths
import PyFly.AdaptiveBackpressure
import PyFly.Backpressure
import PyFly.BackpressureBreaker
import PyFly.BackpressureContract
