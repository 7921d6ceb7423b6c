import NexusEtl.SecretFlow
import NexusEtl.SourceDedup
import NexusEtl.PendingOwnership
import NexusEtl.PendingReplay
import NexusEtl.WaitingRows
import NexusEtl.PlanRows
import NexusEtl.PlanningHistory
import NexusEtl.BatchLinks
import NexusEtl.ReplayFreshness
import NexusEtl.DuplicateRows
import NexusEtl.ErrorIsolation
import NexusEtl.Gateway
import NexusEtl.Apply
import NexusEtl.IdAgreement
import NexusEtl.LinkDatasets
import NexusEtl.PendingLifecycle
import NexusEtl.ReplayOverrides
import NexusEtl.PendingRetries
import NexusEtl.Transactions
import NexusEtl.CacheRefresh
import NexusEtl.DedupRuns
import NexusEtl.Library.Programs
import NexusEtl.VaultCipher
import NexusEtl.VaultTables
import NexusEtl.VaultServices
import NexusEtl.VaultFacts
import NexusEtl.VaultHistory
import NexusEtl.SecretRetention
import NexusEtl.KeyRotation
import NexusEtl.KeyConsistency
import NexusEtl.ApplyAccounting
import NexusEtl.Canonicalization
import NexusEtl.PolarsCanonicalization
import NexusEtl.Library.Acyclic
import NexusEtl.TopologySnapshot
import NexusEtl.TargetTopology
import NexusEtl.JsonText
import NexusEtl.SourceTopology
import NexusEtl.Library.Generators
import NexusEtl.PipelineStages
import NexusEtl.PipelineOrchestrator
import NexusEtl.PlanningPipeline
import NexusEtl.CacheDsl
import NexusEtl.CachedRows
import NexusEtl.CacheProjection
import NexusEtl.LinkSteps
import NexusEtl.MaxAttempts
import NexusEtl.RejectedRows
import NexusEtl.MergeFill
import NexusEtl.ResolveDecision
import NexusEtl.DedupNarrowing
import NexusEtl.LinkReplay
import NexusEtl.GatewayAccounting
import NexusEtl.Library.Paging
import NexusEtl.PagedRead
import NexusEtl.Library.Segments
import NexusEtl.PathTemplate
import NexusEtl.JsonDumps
import NexusEtl.EmittedText
import NexusEtl.SourceLocator
import NexusEtl.CommandLifecycle
import NexusEtl.Library.Patches
import NexusEtl.ResolveDiff
import NexusEtl.FingerprintSkip
import NexusEtl.PendingTexts
import NexusEtl.Library.Calendar
import NexusEtl.Timestamps
import NexusEtl.PendingExpiry
import NexusEtl.PendingRetention
import NexusEtl.ExpiredLinks
import NexusEtl.Library.Ladder
import NexusEtl.TopologyLadder
import NexusEtl.Anchoring
import NexusEtl.FuzzyDecision
import NexusEtl.MatchSoundness
import NexusEtl.TopologyQueries
import NexusEtl.CacheDependencyGraph
import NexusEtl.CacheMeta
import NexusEtl.RefreshAccounting
import NexusEtl.VaultWrites
import NexusEtl.StartupGuard
import NexusEtl.NumericText
import NexusEtl.PayloadCompiler
import NexusEtl.TransactionScope
import NexusEtl.MicroBatching
import NexusEtl.StageHooks
import NexusEtl.PlanCounters
import NexusEtl.MatchKeys
import NexusEtl.EnrichCompilation
import NexusEtl.GeneratedValues
import NexusEtl.EnrichFrame
import NexusEtl.CsvSource
import NexusEtl.DictionaryLookup
import NexusEtl.ConfigModels
import NexusEtl.ConfigLoader
import NexusEtl.DeniedSettings
import NexusEtl.ConfigPrecedence
import NexusEtl.CacheQueries
import NexusEtl.ExactFind
import NexusEtl.CanonicalLookup
import NexusEtl.Library.Memo
import NexusEtl.MapDict
import NexusEtl.SourceAdjacency
import NexusEtl.NestedOperations
import NexusEtl.OperationCheck
import NexusEtl.TextLines
import NexusEtl.AdminPasswordGate
import NexusEtl.RetentionSweep
import NexusEtl.RunLedger
import NexusEtl.LedgerLines
import NexusEtl.LedgerSurvival
import NexusEtl.LedgerBackends
import NexusEtl.Library.Substitution
import NexusEtl.LogRedaction
import NexusEtl.RedactionMatches
import NexusEtl.RedactionLeaks
import NexusEtl.KvPairs
import NexusEtl.LookupKeys
import NexusEtl.EngineRuns
import NexusEtl.RuleAtomicity
import NexusEtl.MetaPaths
import NexusEtl.MappingOutcome
import NexusEtl.StageLogs
import NexusEtl.DiagnosticsConserved
import NexusEtl.ReportContext
import NexusEtl.Library.Scanners
import NexusEtl.JsonLoads
import NexusEtl.PlanFile
import NexusEtl.Library.RelyGuarantee
import NexusEtl.ArtifactFiles
import NexusEtl.PlanHandover
import NexusEtl.VaultRollout
import NexusEtl.ApplyRuns
import NexusEtl.ApplyCommand
import NexusEtl.TopologyBootstrap
import NexusEtl.Library.Framing
import NexusEtl.StreamCapture
import NexusEtl.StageReports
import NexusEtl.StageExitCodes
