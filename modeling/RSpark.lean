import RSpark.FloatText
import RSpark.Value
import RSpark.Batch
import RSpark.Expr
import RSpark.Plan
import RSpark.Listing
import RSpark.OrderedMap
import RSpark.Operators
import RSpark.Executor
import RSpark.SqlAst
import RSpark.ExprBuilder
import RSpark.Planner
import RSpark.Calls
import RSpark.InsertionMap
import RSpark.SchemaContract
import RSpark.ThreeValued
import RSpark.PredicateTruth
import RSpark.HavingAgreement
import RSpark.JoinLaw
import RSpark.SeededExecution
import RSpark.ClusterState
import RSpark.Master
import RSpark.Api
import RSpark.Dispatch
import RSpark.MasterSteps
import RSpark.StatusFinality
import RSpark.DistributedRows
import RSpark.JobStatuses
import RSpark.StageMirror
import RSpark.SqlEndpoint
import RSpark.QueueLeftovers
import RSpark.MasterPhases
import RSpark.UpdateSafety
import RSpark.Publication
import RSpark.Layering
import RSpark.PipelineDag
import RSpark.PipelineRunner
import RSpark.Clauses
import RSpark.Grouping
import RSpark.HavingRewrite
import RSpark.Ndjson
import RSpark.FileTail
import RSpark.CsvSource
import RSpark.Writer
import RSpark.TableScan
import RSpark.FlowOutput
import RSpark.Stages
import RSpark.SchemaFit
import RSpark.ValueKinds
import RSpark.ColumnTypes
import RSpark.GroupedRows
import RSpark.ClauseLaw
import RSpark.ScalarItems
import RSpark.PlanExecutor
import RSpark.UnionLaw
import RSpark.Snapshot
import RSpark.CsvTypes
import RSpark.JsonSource
import RSpark.ArrowBatch
import RSpark.ArrowRoundTrip
import RSpark.ArrowSort
import RSpark.NestedJoin
import RSpark.JoinRows
import RSpark.JoinPredicate
import RSpark.WorkerPlanning
import RSpark.GroupRows
import RSpark.Accumulators
import RSpark.ValueTexts
import RSpark.GroupOrder
import RSpark.GlobalAggregate
import RSpark.AggregateNames
import RSpark.Rounding
import RSpark.DecimalRounding
import RSpark.FloatFields
import RSpark.PositionalText
import RSpark.ShortestDigits
import RSpark.FloatRoundTrip
import RSpark.GroupKeys
import RSpark.AliasErasure
import RSpark.FirstOccurrences
import RSpark.DistinctRows
import RSpark.Coalesce
import RSpark.ScalarCalls
import RSpark.Comparisons
import RSpark.Comparators
import RSpark.SortOrder
import RSpark.FloatOrder
import RSpark.SortComparator
import RSpark.CheckedRuns
import RSpark.Overflow
import RSpark.RingTrees
import RSpark.FloatTruncation
import RSpark.ExactArithmetic
import RSpark.CountedLanguages
import RSpark.LikePatterns
import RSpark.Membership
import RSpark.RowCounts
import RSpark.UnionSchema
import RSpark.CsvHeader
import RSpark.PipelineSubmit
import RSpark.JsonWriter
import RSpark.LiveAppend
import RSpark.CsvRoundTrip
import RSpark.NaturalRows
import RSpark.Qualifiers
import RSpark.References
import RSpark.AggregateDetection
import RSpark.TreeWalks
import RSpark.PlanTraversals
import RSpark.TotalRuns
import RSpark.SourceNames
import RSpark.Delimited
import RSpark.CreateTable
import RSpark.TableNames
import RSpark.ArrowSelect
import RSpark.Tracker
import RSpark.Lowering
import RSpark.Locks
import RSpark.Ownership
import RSpark.Custody
import RSpark.LiveRuns
import RSpark.Operator
import RSpark.OperatorRounds
import RSpark.OperatorRuns
import RSpark.PipelineFreshness
import RSpark.PanicFreedom
import RSpark.Moments
import RSpark.CatalogReads
import RSpark.PipelineRoutes
import RSpark.Framing
import RSpark.Shell
import RSpark.OwnHistory
import RSpark.LiveFlows
import RSpark.LiveRounds
import RSpark.LiveTopics
import RSpark.LiveTails
import RSpark.LiveDelivery
import RSpark.LiveEndToEnd
