import OratoriaEngine.FinalizedHistory
import OratoriaEngine.DeletionAtomicity
import OratoriaEngine.RefusedIngest
import OratoriaEngine.MediaGate
import OratoriaEngine.IdempotentCreation
import OratoriaEngine.DeletionFinality
import OratoriaEngine.FrozenConfiguration
import OratoriaEngine.CompletionAtomicity
import OratoriaEngine.Reconciliation
import OratoriaEngine.FailedModality
import OratoriaEngine.ModalityIsolation
import OratoriaEngine.ChunkExactness
import OratoriaEngine.LedgerHistory
import OratoriaEngine.Lifecycle
import OratoriaEngine.VerbatimTranscript
import OratoriaEngine.TranscriptFinality
import OratoriaEngine.FrontierSeparation
import OratoriaEngine.RuntimeOutput
import OratoriaEngine.OutputContainment
import OratoriaEngine.SharedRuntime
import OratoriaEngine.Lib.Lease
import OratoriaEngine.StreamLease
import OratoriaEngine.SessionQuota
import OratoriaEngine.Lib.Lockstep
import OratoriaEngine.Queries
import OratoriaEngine.TenantParts
import OratoriaEngine.TenantConfiguration
import OratoriaEngine.TenantIsolation
import OratoriaEngine.Lib.WriteOnce
import OratoriaEngine.VersionText
import OratoriaEngine.PostgresConfiguration
import OratoriaEngine.SnapshotImmutability
import OratoriaEngine.ModelRegistry
import OratoriaEngine.ModelRollback
import OratoriaEngine.ModelApproval
import OratoriaEngine.Lib.Served
import OratoriaEngine.SocketHandler
import OratoriaEngine.Lib.Enumeration
import OratoriaEngine.PostgresMapping
import OratoriaEngine.PostgresEvidence
import OratoriaEngine.EvidenceRepositories
import OratoriaEngine.MediaDeletion
import OratoriaEngine.Lib.Coroutine
import OratoriaEngine.ConcurrentIngest
import OratoriaEngine.Lib.Alignment
import OratoriaEngine.Corpus.Records
import OratoriaEngine.Corpus.Matching
import OratoriaEngine.Corpus.Traceback
import OratoriaEngine.Corpus.Symmetry
import OratoriaEngine.Corpus.Optimality
import OratoriaEngine.Corpus.Maximality
import OratoriaEngine.Lib.Tally
import OratoriaEngine.Lib.Shuffle
import OratoriaEngine.Lib.Literal
import OratoriaEngine.Corpus.Recording
import OratoriaEngine.Corpus.Measures
import OratoriaEngine.Corpus.Report
import OratoriaEngine.Corpus.Coefficients
import OratoriaEngine.Corpus.Conservation
import OratoriaEngine.Corpus.Reordering
import OratoriaEngine.Corpus.ReorderedReport
import OratoriaEngine.Lib.Grouping
import OratoriaEngine.Lib.Spans
import OratoriaEngine.Corpus.Validation
import OratoriaEngine.Corpus.OverlapFindings
import OratoriaEngine.Lib.Xml
import OratoriaEngine.Corpus.Elan
import OratoriaEngine.Lib.Decides
import OratoriaEngine.Corpus.ElanSteps
import OratoriaEngine.Corpus.ElanErrors
import OratoriaEngine.Corpus.ElanReferences
import OratoriaEngine.Lib.Gaps
import OratoriaEngine.PauseExactness
import OratoriaEngine.VisualGate
import OratoriaEngine.Lib.KeyOrder
import OratoriaEngine.FusionExactness
import OratoriaEngine.Json
import OratoriaEngine.Rendering
import OratoriaEngine.Redelivery
import OratoriaEngine.SpeechSteps
import OratoriaEngine.Retraction
import OratoriaEngine.IncrementalPauses
import OratoriaEngine.Conversions
import OratoriaEngine.Protocol
import OratoriaEngine.ProtocolErrors
import OratoriaEngine.Lib.Base64
import OratoriaEngine.StreamTokens
import OratoriaEngine.Lib.Interpolation
import OratoriaEngine.CalibrationMonotone
import OratoriaEngine.GateOpening
import OratoriaEngine.RetryDelay
import OratoriaEngine.TokenIds
import OratoriaEngine.TokenTotality
import OratoriaEngine.Corpus.AgreementCommand
import OratoriaEngine.Lib.Monitor
import OratoriaEngine.StreamHandler
import OratoriaEngine.StreamProtocol
import OratoriaEngine.StreamJournals
import OratoriaEngine.StreamDeployment
import OratoriaEngine.Lib.Simulation
import OratoriaEngine.PostgresSessions
import OratoriaEngine.PostgresRefinement
import OratoriaEngine.SessionRequests
import OratoriaEngine.SessionRefinement
import OratoriaEngine.PostgresDocuments
import OratoriaEngine.DocumentAgreement
import OratoriaEngine.PublishedEvidence
import OratoriaEngine.Lib.Delimited
import OratoriaEngine.RedisQuota
import OratoriaEngine.MediaStores
import OratoriaEngine.MediaAgreement
import OratoriaEngine.MediaRetention
import OratoriaEngine.ApiKeys
import OratoriaEngine.ApiKeyAgreement
import OratoriaEngine.Lib.ConfinedThreads
import OratoriaEngine.RestSurface
import OratoriaEngine.RestDeployment
import OratoriaEngine.Lib.Refusals
import OratoriaEngine.RestRefusals
