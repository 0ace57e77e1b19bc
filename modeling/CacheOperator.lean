import CacheOperator.Lib.Prog
import CacheOperator.Lib.Sat
import CacheOperator.Lib.Decimal
import CacheOperator.Lib.Clock
import CacheOperator.Lib.SliceSort
import CacheOperator.Lib.Json
import CacheOperator.Lib.JsonRoundTrip
import CacheOperator.Lib.Dict
import CacheOperator.Lib.Run
import CacheOperator.Lib.Interleave
import CacheOperator.Lib.Informed
import CacheOperator.Lib.Timeline
import CacheOperator.Lib.Poll
import CacheOperator.Lib.Linearize
import CacheOperator.Lib.LossyStore
import CacheOperator.Lib.Versioned
import CacheOperator.Lib.Cyclic
import CacheOperator.Lib.Url
import CacheOperator.Model.Objects
import CacheOperator.Model.Cluster
import CacheOperator.Model.Ring
import CacheOperator.Model.Controller
import CacheOperator.Model.Reconcile
import CacheOperator.Model.Client
import CacheOperator.Model.TinyCache
import CacheOperator.Model.Handlers
import CacheOperator.Model.Cli
import CacheOperator.Model.SpecJson
import CacheOperator.Proofs.Server
import CacheOperator.Proofs.Calls
import CacheOperator.Proofs.CreateOrUpdate
import CacheOperator.Proofs.Phases
import CacheOperator.Proofs.Drain
import CacheOperator.Proofs.Ordinals
import CacheOperator.Proofs.RingPhase
import CacheOperator.Proofs.Live
import CacheOperator.Proofs.Release
import CacheOperator.Proofs.Object
import CacheOperator.Proofs.Published
import CacheOperator.Proofs.Versions
import CacheOperator.Proofs.DrainRuns
import CacheOperator.Proofs.Cancelled
import CacheOperator.Proofs.Views
import CacheOperator.Proofs.Race
import CacheOperator.Proofs.Lookup
import CacheOperator.Proofs.TinyCache
import CacheOperator.Proofs.Keys
import CacheOperator.Proofs.SpecRoundTrip
import CacheOperator.Proofs.Status
import CacheOperator.Proofs.Settled
import CacheOperator.Proofs.Quota
import CacheOperator.Proofs.Idempotent
import CacheOperator.Proofs.Cells
import CacheOperator.Proofs.Neighbours
import CacheOperator.Proofs.Undisturbed
import CacheOperator.Proofs.Contract
import CacheOperator.Proofs.Grace
import CacheOperator.Proofs.Members
import CacheOperator.Proofs.Justified
import CacheOperator.Proofs.Turns
import CacheOperator.Proofs.Ownership
import CacheOperator.Proofs.DrainPhases
import CacheOperator.Proofs.Footprint
import CacheOperator.Proofs.Provenance
import CacheOperator.Proofs.Conditions
import CacheOperator.Proofs.Converges
import CacheOperator.Proofs.Handlers
import CacheOperator.Proofs.Concurrent
import CacheOperator.Proofs.Cli
import CacheOperator.Proofs.Fleet
import CacheOperator.Proofs.Deletion
import CacheOperator.Proofs.Recovery
import CacheOperator.Proofs.Reach
import CacheOperator.Proofs.Requeue
