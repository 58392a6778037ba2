import Milona.Foundation.Action
import Milona.Foundation.HashMap
import Milona.Foundation.Float32Order
import Milona.Foundation.Collection
import Milona.Foundation.Selection
import Milona.Foundation.Digits
import Milona.Foundation.FixedPoint
import Milona.Foundation.Runs
import Milona.Foundation.Reachability
import Milona.Foundation.Trace
import Milona.Foundation.Congruence
import Milona.Foundation.Tally
import Milona.Foundation.Supply
import Milona.Foundation.Quota
import Milona.Foundation.Calendar
import Milona.Foundation.MachineInt
import Milona.Foundation.Numerals
import Milona.Foundation.Text
import Milona.Foundation.ClampedGrowth
import Milona.Foundation.Spacing
import Milona.Foundation.Words
import Milona.Foundation.DecimalText
import Milona.Foundation.Forest
import Milona.Foundation.RoundToNearest
import Milona.Foundation.RoundingError
import Milona.Foundation.Cosine
import Milona.Foundation.FloatPacking
import Milona.Foundation.FloatRounding
import Milona.Foundation.FloatArithmetic
import Milona.Foundation.Binary64
import Milona.Foundation.Binary64Whole
import Milona.Foundation.Binary32
import Milona.Foundation.Binary32Error
import Milona.Core.Tenant
import Milona.Core.Traits
import Milona.Storage.Memory.Vector
import Milona.Storage.Memory.VectorRuns
import Milona.Storage.Memory.VectorHistory
import Milona.Storage.Memory.ModerateVectors
import Milona.Storage.Memory.CosineAccuracy
import Milona.Storage.Memory.NearestNeighbours
import Milona.Storage.Memory.VectorIsolation
import Milona.Storage.Memory.Graph
import Milona.Storage.Memory.Traversal
import Milona.Storage.Memory.Stores
import Milona.Storage.Memory.WriteAccess
import Milona.Storage.Mongo.Aggregation
import Milona.Storage.Mongo.Graph
import Milona.Storage.Mongo.Vector
import Milona.Storage.Mongo.VectorFrame
import Milona.Storage.GraphAgreement
import Milona.Storage.ResultBound
import Milona.Storage.VectorRefinement
import Milona.Storage.UnsharedWrites
import Milona.Retrieval.Knowledge
import Milona.Retrieval.Isolation
import Milona.Retrieval.GenaiLoop
import Milona.Retrieval.Effects
import Milona.Retrieval.GraphFailures
import Milona.Retrieval.TrustBoundary
import Milona.Retrieval.ReferenceText
import Milona.Retrieval.InterruptedRetrieval
import Milona.Retrieval.MongoRetrieval
import Milona.Adapter.Budget
import Milona.Adapter.Concurrency
import Milona.Adapter.Ceiling
import Milona.Adapter.Retry
import Milona.Adapter.OutcomeStream
import Milona.Adapter.BackoffSchedule
import Milona.Adapter.Mock
import Milona.Adapter.Outage
import Milona.Presenter.State
import Milona.Presenter.Metering
import Milona.Presenter.Http
import Milona.Presenter.ApiKeys
import Milona.Presenter.Router
import Milona.Presenter.TenantCap
import Milona.Presenter.Environment
import Milona.Presenter.Cli
import Milona.Presenter.Agreement
import Milona.Presenter.ServedRuns
import Milona.Presenter.ReplyIsolation
import Milona.Presenter.Startup
import Milona.Presenter.MongoServing
import Milona.Tools.CurrentTime
import Milona.Tools.Timestamp
import Milona.Ingest.Web
import Milona.Ingest.Embedder
import Milona.Ingest.EmbeddingNorm
import Milona.Ingest.Whitespace
import Milona.Ingest.EmbeddedPages
import Milona.Tools.Calculator
import Milona.Tools.ExactArithmetic
import Milona.Ingest.Sources
import Milona.Ingest.Chunker
import Milona.Ingest.Ingestion
import Milona.Tools.Registry
