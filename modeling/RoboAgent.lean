import RoboAgent.FalliblePrograms
import RoboAgent.FrozenJson
import RoboAgent.ToolErrors
import RoboAgent.ToolEffects
import RoboAgent.Messages
import RoboAgent.PatchTruthfulness
import RoboAgent.SessionDelivery
import RoboAgent.SessionSoleOwner
import RoboAgent.SessionDeletion
import RoboAgent.SessionRefinement
import RoboAgent.SessionSteps
import RoboAgent.SessionTranscript
import RoboAgent.SessionCommits
import RoboAgent.SessionRepository
import RoboAgent.SnapshotCodec
import RoboAgent.SnapshotRoundTrip
import RoboAgent.SessionRestore
import RoboAgent.SnapshotStorage
import RoboAgent.WorldConflicts
import RoboAgent.ExchangeGrammar
import RoboAgent.ScopeCleanup
import RoboAgent.ContextPreparation
import RoboAgent.SpeechPlayback
import RoboAgent.StreamCollector
import RoboAgent.StreamChunking
import RoboAgent.EventLog
import RoboAgent.WorldOrders
import RoboAgent.UsageTotals
import RoboAgent.EventDelivery
import RoboAgent.ToolResults
import RoboAgent.SettlementBarriers
import RoboAgent.SchemaMigration
import RoboAgent.PatchRoundTrip
import RoboAgent.PatchLines
import RoboAgent.SafeMatches
import RoboAgent.TrackerDiscipline
import RoboAgent.TrackIdentities
import RoboAgent.JsonSameness
import RoboAgent.FileTrees
import RoboAgent.TextOccurrences
import RoboAgent.FilesystemTools
import RoboAgent.FilesystemConfinement
import RoboAgent.EditUniqueness
import RoboAgent.SearchHits
import RoboAgent.VoiceActivity
import RoboAgent.TextSegmentation
import RoboAgent.AudioFraming
import RoboAgent.CancellationTrees
import RoboAgent.StreamProtocol
import RoboAgent.WindowSelection
import RoboAgent.MaterializedBlobs
import RoboAgent.OutputPromotion
import RoboAgent.WorkspaceArtifacts
import RoboAgent.ExecutionRecords
import RoboAgent.CanonicalDigests
import RoboAgent.ContextEncoding
import RoboAgent.TokenEstimation
import RoboAgent.TokenCoverage
import RoboAgent.ImageDimensions
import RoboAgent.JsonDepth
import RoboAgent.ArtifactUris
import RoboAgent.CaptureMetadata
import RoboAgent.VisualBuffers
import RoboAgent.BufferRuns
import RoboAgent.PriorityTrimming
import RoboAgent.WorldRanking
import RoboAgent.WorldProjection
import RoboAgent.WorldPublications
import RoboAgent.WorldAdmission
import RoboAgent.WorldSplitting
import RoboAgent.PublicationRetries
