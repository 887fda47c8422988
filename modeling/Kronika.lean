import Kronika.Writer.DictionaryInserts
import Kronika.Dictionary.StrictHot
import Kronika.Dictionary.CallOrder
import Kronika.Slice.DictionaryConflicts
import Kronika.Store.Agreement
import Kronika.Format.CheckedPart
import Kronika.Segment.FinishedZms
import Kronika.Registry.PageAccounting
import Kronika.Writer.SegmentPlan
import Kronika.Collector.Completeness
import Kronika.Collector.Scheduler
import Kronika.Store.CachedScan
import Kronika.Query.PartitionSearch
import Kronika.Query.ActiveTail
import Kronika.Registry.BodyBound
import Kronika.Registry.CanonicalSort
import Kronika.Registry.ThriftSkip
import Kronika.Index.Health
import Kronika.SourceLog.Offsets
import Kronika.SourceLog.LogEvents
import Kronika.Layout.Names
import Kronika.Reader.Dictionaries
import Kronika.SourceLog.CsvFraming
import Kronika.SourceLog.Retention
import Kronika.Store.PinnedReads
import Kronika.Slice.SelectedRows
import Kronika.Query.QuantityText
import Kronika.Query.ExactProduct
import Kronika.Query.PageTotal
import Kronika.Index.DetectCuts
import Kronika.Index.Publication
import Kronika.Query.SnapshotNeighbor
import Kronika.Query.RowsBinding
import Kronika.Heatmap.CounterFold
import Kronika.Query.RowDetail
import Kronika.SourceOs.CgroupLimits
import Kronika.Query.ProcessCuts
import Kronika.Query.RelationParts
import Kronika.Query.LockCutoff
import Kronika.Journal.Lives
import Kronika.Collector.Kept
