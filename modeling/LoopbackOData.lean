import LoopbackOData.Apply.Accumulators
import LoopbackOData.Apply.Aggregation
import LoopbackOData.Apply.Groups
import LoopbackOData.Apply.Ordering
import LoopbackOData.Apply.Paging
import LoopbackOData.Apply.PlanExecution
import LoopbackOData.Apply.PlanMeaning
import LoopbackOData.Apply.Planner
import LoopbackOData.Apply.PlannerOrder
import LoopbackOData.Apply.PlannerRuns
import LoopbackOData.Apply.Resuming
import LoopbackOData.Apply.StagePages
import LoopbackOData.Apply.Variants
import LoopbackOData.Apply.Window
import LoopbackOData.Batch.BufferQueue
import LoopbackOData.Batch.ChangesetParts
import LoopbackOData.Batch.Chunking
import LoopbackOData.Batch.ContentIds
import LoopbackOData.Batch.Controller
import LoopbackOData.Batch.Delimiters
import LoopbackOData.Batch.Failures
import LoopbackOData.Batch.HandleBatch
import LoopbackOData.Batch.MultipartParser
import LoopbackOData.Batch.Planning
import LoopbackOData.Batch.QueueCalls
import LoopbackOData.Batch.QueueRefinement
import LoopbackOData.Batch.Requests
import LoopbackOData.Batch.ResponseSize
import LoopbackOData.Batch.Responses
import LoopbackOData.Batch.RolledBack
import LoopbackOData.Batch.Serializer
import LoopbackOData.Batch.ServiceUrls
import LoopbackOData.Batch.Stages
import LoopbackOData.Entities.CanonicalDecimals
import LoopbackOData.Entities.CascadeDelete
import LoopbackOData.Entities.CascadePlan
import LoopbackOData.Entities.CascadeSteps
import LoopbackOData.Entities.Composition
import LoopbackOData.Entities.DataModel
import LoopbackOData.Entities.Decimals
import LoopbackOData.Entities.DeepInsert
import LoopbackOData.Entities.DeepUpdate
import LoopbackOData.Entities.Durations
import LoopbackOData.Entities.KeyLiterals
import LoopbackOData.Entities.KeyPaths
import LoopbackOData.Entities.KeyRoundTrip
import LoopbackOData.Entities.KeySegments
import LoopbackOData.Entities.Properties
import LoopbackOData.Entities.References
import LoopbackOData.Entities.Store
import LoopbackOData.Entities.Subtree
import LoopbackOData.Entities.TimesOfDay
import LoopbackOData.Etag.Concurrency
import LoopbackOData.Etag.Echo
import LoopbackOData.Etag.Preconditions
import LoopbackOData.Etag.Tokens
import LoopbackOData.Expand.Inclusion
import LoopbackOData.Expand.Injecting
import LoopbackOData.Expand.Merging
import LoopbackOData.Expand.Parser
import LoopbackOData.Expand.Scanning
import LoopbackOData.Expand.Spelling
import LoopbackOData.Expand.Stripping
import LoopbackOData.Expand.Trees
import LoopbackOData.Expand.Writing
import LoopbackOData.Filter.Combining
import LoopbackOData.Filter.Complement
import LoopbackOData.Filter.Copies
import LoopbackOData.Filter.Decompose
import LoopbackOData.Filter.Dividing
import LoopbackOData.Filter.Expression
import LoopbackOData.Filter.FieldPaths
import LoopbackOData.Filter.Grammar
import LoopbackOData.Filter.Hereditary
import LoopbackOData.Filter.InMemory
import LoopbackOData.Filter.Including
import LoopbackOData.Filter.Intervals
import LoopbackOData.Filter.Literals
import LoopbackOData.Filter.Meaning
import LoopbackOData.Filter.Negation
import LoopbackOData.Filter.Parser
import LoopbackOData.Filter.Patterns
import LoopbackOData.Filter.Populated
import LoopbackOData.Filter.RoundTrip
import LoopbackOData.Filter.Selected
import LoopbackOData.Filter.Selecting
import LoopbackOData.Filter.Spelling
import LoopbackOData.Filter.Splitting
import LoopbackOData.Filter.Termination
import LoopbackOData.Filter.Where
import LoopbackOData.Filter.WhereMeaning
import LoopbackOData.Filter.Years
import LoopbackOData.Js
import LoopbackOData.Library.Base64
import LoopbackOData.Library.ByteQueue
import LoopbackOData.Library.Cycles
import LoopbackOData.Library.Dictionary
import LoopbackOData.Library.Effect
import LoopbackOData.Library.Expiring
import LoopbackOData.Library.Grouping
import LoopbackOData.Library.Json
import LoopbackOData.Library.LeftJoins
import LoopbackOData.Library.Like
import LoopbackOData.Library.ListRelations
import LoopbackOData.Library.Memo
import LoopbackOData.Library.Occurrence
import LoopbackOData.Library.Outcome
import LoopbackOData.Library.Pages
import LoopbackOData.Library.Preorders
import LoopbackOData.Library.Runs
import LoopbackOData.Library.Separated
import LoopbackOData.Library.Table
import LoopbackOData.Library.ThreeValued
import LoopbackOData.Library.Unfolding
import LoopbackOData.Library.Utf8
import LoopbackOData.Logging.Bounds
import LoopbackOData.Logging.Capture
import LoopbackOData.Logging.Complete
import LoopbackOData.Logging.MaskPaths
import LoopbackOData.Logging.Masking
import LoopbackOData.Metadata.CascadeCycles
import LoopbackOData.Metadata.Freshness
import LoopbackOData.Metadata.Generator
import LoopbackOData.Metadata.Registry
import LoopbackOData.Metadata.Reregistration
import LoopbackOData.Paging.BadTokens
import LoopbackOData.Paging.Binding
import LoopbackOData.Paging.Buckets
import LoopbackOData.Paging.CollectionPages
import LoopbackOData.Paging.Constraint
import LoopbackOData.Paging.DeltaRoundTrip
import LoopbackOData.Paging.DeltaToken
import LoopbackOData.Paging.NextLink
import LoopbackOData.Paging.Order
import LoopbackOData.Paging.SkipToken
import LoopbackOData.Paging.TokenSigning
import LoopbackOData.Request
import LoopbackOData.Routing.KeyPredicates
import LoopbackOData.Routing.PathRewriter
import LoopbackOData.Search.Parser
import LoopbackOData.Search.Scanner
import LoopbackOData.Search.Where
import LoopbackOData.Security.Assigned
import LoopbackOData.Security.Carrying
import LoopbackOData.Security.Collected
import LoopbackOData.Security.Metadata
import LoopbackOData.Throttle.LeaseTimers
import LoopbackOData.Throttle.Leases
import LoopbackOData.Throttle.Lifecycle
import LoopbackOData.Throttle.Limits
import LoopbackOData.Throttle.Quota
import LoopbackOData.Throttle.Redis
import LoopbackOData.Throttle.Store
import LoopbackOData.Throttle.StoreRuns
import LoopbackOData.Throttle.Turns
import LoopbackOData.Transactions.AllOrNothing
import LoopbackOData.Transactions.Requests
