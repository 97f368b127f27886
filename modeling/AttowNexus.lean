import AttowNexus.Library.Checks
import AttowNexus.Library.Fallible
import AttowNexus.Library.Graph.Agreement
import AttowNexus.Library.Graph.FirstHit
import AttowNexus.Library.Graph.ParentsFirst
import AttowNexus.Library.Graph.PostOrder
import AttowNexus.Library.Graph.Reach
import AttowNexus.Library.Graph.StackSearch
import AttowNexus.Library.Graph.Unfolding
import AttowNexus.Library.Interleaving
import AttowNexus.Library.Joined
import AttowNexus.Library.Linked
import AttowNexus.Library.Listing
import AttowNexus.Library.Lossy
import AttowNexus.Library.Paths
import AttowNexus.Library.Regex
import AttowNexus.Library.Regex.Agreement
import AttowNexus.Library.Regex.Anchored
import AttowNexus.Library.Regex.Engine
import AttowNexus.Library.Regex.Matching
import AttowNexus.Library.Regex.Replacement
import AttowNexus.Library.Run
import AttowNexus.Library.Table
import AttowNexus.Library.Window
import AttowNexus.Model.AgentStep
import AttowNexus.Model.Ambient
import AttowNexus.Model.Auth
import AttowNexus.Model.Bus
import AttowNexus.Model.Capture
import AttowNexus.Model.Commit
import AttowNexus.Model.CrewAI
import AttowNexus.Model.DagIndex
import AttowNexus.Model.Diff
import AttowNexus.Model.External
import AttowNexus.Model.HttpApi
import AttowNexus.Model.HttpBodies
import AttowNexus.Model.Interleaved
import AttowNexus.Model.Json
import AttowNexus.Model.LangGraph
import AttowNexus.Model.LangGraphStream
import AttowNexus.Model.LoopDetector
import AttowNexus.Model.Permissions
import AttowNexus.Model.Polling
import AttowNexus.Model.Proto
import AttowNexus.Model.PythonAdapters
import AttowNexus.Model.PythonData
import AttowNexus.Model.PythonEvents
import AttowNexus.Model.PythonValues
import AttowNexus.Model.Race
import AttowNexus.Model.Redaction
import AttowNexus.Model.Replay
import AttowNexus.Model.Rollback
import AttowNexus.Model.SdkEvents
import AttowNexus.Model.SdkRedaction
import AttowNexus.Model.Service
import AttowNexus.Model.SqliteStore
import AttowNexus.Model.Stream
import AttowNexus.Model.StreamText
import AttowNexus.Model.System
import AttowNexus.Model.TypeScriptAdapters
import AttowNexus.Model.TypeScriptEvents
import AttowNexus.Model.UniversalEvent
import AttowNexus.Model.Utf8
import AttowNexus.Model.VercelAi
import AttowNexus.Proofs.Accepted
import AttowNexus.Proofs.Artifacts
import AttowNexus.Proofs.Attempts
import AttowNexus.Proofs.BroadcastLog
import AttowNexus.Proofs.Bus
import AttowNexus.Proofs.Capture
import AttowNexus.Proofs.DagIndex
import AttowNexus.Proofs.DatabaseUrl
import AttowNexus.Proofs.Debts
import AttowNexus.Proofs.Diff
import AttowNexus.Proofs.EngineAgreement
import AttowNexus.Proofs.Fingerprint
import AttowNexus.Proofs.Frame
import AttowNexus.Proofs.History
import AttowNexus.Proofs.Intact
import AttowNexus.Proofs.Interleaved
import AttowNexus.Proofs.JsonPaths
import AttowNexus.Proofs.Jsonable
import AttowNexus.Proofs.LangGraph
import AttowNexus.Proofs.LangGraphStream
import AttowNexus.Proofs.LoopDetector
import AttowNexus.Proofs.Merge
import AttowNexus.Proofs.Naming
import AttowNexus.Proofs.Outcomes
import AttowNexus.Proofs.Patterns
import AttowNexus.Proofs.Payload
import AttowNexus.Proofs.PlainEvents
import AttowNexus.Proofs.PythonAdapters
import AttowNexus.Proofs.PythonEvents
import AttowNexus.Proofs.PythonValues
import AttowNexus.Proofs.Recording
import AttowNexus.Proofs.RedactedText
import AttowNexus.Proofs.Replay
import AttowNexus.Proofs.SdkChannels
import AttowNexus.Proofs.SdkData
import AttowNexus.Proofs.SdkEvents
import AttowNexus.Proofs.SdkPayloads
import AttowNexus.Proofs.SdkRedaction
import AttowNexus.Proofs.Service
import AttowNexus.Proofs.Store
import AttowNexus.Proofs.TypeScriptAdapters
import AttowNexus.Proofs.TypeScriptEvents
import AttowNexus.Proofs.UniversalEvent
import AttowNexus.Proofs.Utf8
import AttowNexus.Soundness.AncestryQueries
import AttowNexus.Soundness.AppendRuns
import AttowNexus.Soundness.ArtifactReads
import AttowNexus.Soundness.AuditTables
import AttowNexus.Soundness.Authentication
import AttowNexus.Soundness.Backpressure
import AttowNexus.Soundness.BranchReplay
import AttowNexus.Soundness.BusSummary
import AttowNexus.Soundness.CapturedStrings
import AttowNexus.Soundness.CommitDiff
import AttowNexus.Soundness.CommitScopes
import AttowNexus.Soundness.Counters
import AttowNexus.Soundness.CrashRecovery
import AttowNexus.Soundness.CrewChains
import AttowNexus.Soundness.Delivery
import AttowNexus.Soundness.EventGrammar
import AttowNexus.Soundness.FailedRequests
import AttowNexus.Soundness.FailureRecords
import AttowNexus.Soundness.ForkIsolation
import AttowNexus.Soundness.Gauges
import AttowNexus.Soundness.GenerateTextTrace
import AttowNexus.Soundness.GenerateTextTransparency
import AttowNexus.Soundness.HeadFrames
import AttowNexus.Soundness.HeadRace
import AttowNexus.Soundness.Heads
import AttowNexus.Soundness.HttpReadBack
import AttowNexus.Soundness.HttpSessions
import AttowNexus.Soundness.Idempotence
import AttowNexus.Soundness.Immutability
import AttowNexus.Soundness.IncrementalReplay
import AttowNexus.Soundness.InterleavedLedger
import AttowNexus.Soundness.JsonableEvents
import AttowNexus.Soundness.LangGraphAncestry
import AttowNexus.Soundness.LangGraphTransparency
import AttowNexus.Soundness.ListingOrder
import AttowNexus.Soundness.LiveSubscribers
import AttowNexus.Soundness.LoadOrder
import AttowNexus.Soundness.LoopWindow
import AttowNexus.Soundness.MergePaths
import AttowNexus.Soundness.MerkleIdentity
import AttowNexus.Soundness.NearestAncestor
import AttowNexus.Soundness.PayloadHashes
import AttowNexus.Soundness.Polling
import AttowNexus.Soundness.Quiescence
import AttowNexus.Soundness.RedactedPaths
import AttowNexus.Soundness.RedactedPayloads
import AttowNexus.Soundness.RedactorAgreement
import AttowNexus.Soundness.Redelivery
import AttowNexus.Soundness.Repetition
import AttowNexus.Soundness.ReplayCoverage
import AttowNexus.Soundness.ReplayOrder
import AttowNexus.Soundness.ReplayReads
import AttowNexus.Soundness.Restart
import AttowNexus.Soundness.Resume
import AttowNexus.Soundness.RollbackWarnings
import AttowNexus.Soundness.RoundTrip
import AttowNexus.Soundness.SdkAcceptance
import AttowNexus.Soundness.SdkEvents
import AttowNexus.Soundness.SecretIndependence
import AttowNexus.Soundness.SerialRuns
import AttowNexus.Soundness.SnapshotRace
import AttowNexus.Soundness.StaleRollback
import AttowNexus.Soundness.StateDiff
import AttowNexus.Soundness.StreamNotices
import AttowNexus.Soundness.StreamTrace
import AttowNexus.Soundness.StreamedRuns
import AttowNexus.Soundness.TupleRedaction
