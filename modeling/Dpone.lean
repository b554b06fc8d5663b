import Dpone.NativeWire.Split
import Dpone.Window.Publication
import Dpone.Window.ChunkAttempts
import Dpone.Cdc.CaptureRuns
import Dpone.Cdc.ChangeTracking
import Dpone.Backfill.LeaseSafety
import Dpone.Backfill.CampaignSafety
import Dpone.Backfill.LaneAccounting
import Dpone.Backfill.LaneTerminals
import Dpone.Partitioning.ExactCover
import Dpone.Cdc.Reconstruction
import Dpone.Cdc.SlotAccounting
import Dpone.Backfill.PlanExact
import Dpone.NativeWire.RoundTrip
import Dpone.Window.StoreRuns
import Dpone.ClickHouse.PublicationLaw
import Dpone.Reconciliation.DeletionRuns
import Dpone.Manifest.MigrationBuilder
import Dpone.Manifest.Overlay
import Dpone.Normalization.StagedSafety
import Dpone.Manifest.MigrationExact
import Dpone.Confined.Files
import Dpone.Confined.CrashPoints
import Dpone.Confined.Recovery
import Dpone.Confined.Replacement
import Dpone.BulkText.FileRoundTrip
import Dpone.TabSeparated.Agreement
import Dpone.NativeWire.Validators
import Dpone.Backfill.PlanTermination
import Dpone.Backfill.AdmissionLanes
import Dpone.Cdc.OffsetSafety
import Dpone.Cdc.PgOutputFaithful
import Dpone.Cdc.TestDecodingFaithful
import Dpone.PhysicalChunks.Writer
import Dpone.NativeWire.DecimalTranscoding
import Dpone.Xmin.Manager
import Dpone.Partitioning.SnapshotCover
import Dpone.Kafka.NeverSkip
import Dpone.Schemes.Consecutive
import Dpone.Airflow.MappingAgreement
import Dpone.Schemes.Ranges
import Dpone.Partitioning.ExplicitRanges
import Dpone.Partitioning.ExplicitSound
import Dpone.Kafka.Patience
import Dpone.Cdc.PgOutputTruncated
import Dpone.BoundedWindow.FreezeSound
import Dpone.BoundedWindow.PlanCodec
import Dpone.Cdc.Retention
import Dpone.Contracts.DecimalLiterals
import Dpone.Backfill.LedgerReload
import Dpone.ColumnarRanges.ExecutorEnds
import Dpone.Schemes.Kahn
import Dpone.Schemes.CycleSearch
import Dpone.Schemes.PosixPath
import Dpone.Dag.GraphAlgorithms
import Dpone.Dag.EdgeResolver
import Dpone.Dag.DependencyEdges
import Dpone.NativeWire.SourceRows
import Dpone.NativeWire.SizedFrames
import Dpone.Schemes.JsonValue
import Dpone.Schemes.JsonRoundTrip
import Dpone.Schemes.FloatHex
import Dpone.Normalization.SemanticSpill
import Dpone.Normalization.SpillRoundTrip
import Dpone.Schemes.Sorted
import Dpone.Schemes.BreadthFirst
import Dpone.Schemes.JsonSorted
import Dpone.Contracts.CanonicalJson
import Dpone.Manifest.SelectionModels
import Dpone.Manifest.SelectionEngine
import Dpone.Manifest.SelectionMeaning
import Dpone.Manifest.SelectionExact
import Dpone.SqlClient.RequestFrames
import Dpone.SqlClient.RequestFramesExact
import Dpone.NativeWire.NativeBlocks
import Dpone.Partitioning.NativeSlices
import Dpone.Manifest.ExplainMerge
import Dpone.Manifest.ExplainOrigins
import Dpone.Manifest.ExplainLayers
import Dpone.Manifest.ExplainRuns
import Dpone.TypeSystem.Validation
import Dpone.TypeSystem.Enforcement
import Dpone.Schemes.CsvText
import Dpone.Normalization.FileRows
import Dpone.Schemes.JsonIndented
import Dpone.Normalization.SnapshotStore
import Dpone.ClickHouse.ExternalAuthority
import Dpone.Contracts.MssqlTypes
import Dpone.Contracts.LosslessProjection
