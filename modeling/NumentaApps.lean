import NumentaApps.TransitionSystem
import NumentaApps.MessageBroker
import NumentaApps.SlotAgent
import NumentaApps.SwapController
import NumentaApps.SchedulerHandshake
import NumentaApps.SchedulerWakeup
import NumentaApps.MetricRepository
import NumentaApps.MetricStreamer
import NumentaApps.MetricDataOrder
import NumentaApps.StreamRetries
import NumentaApps.MetricStreaming
import NumentaApps.MetricStatusLifeCycle
import NumentaApps.ModelArchive
import NumentaApps.ModelArchiver
import NumentaApps.ModelRunner
import NumentaApps.InputDelivery
import NumentaApps.ModelDeletion
import NumentaApps.AnomalyLikelihood
import NumentaApps.AnomalyService
import NumentaApps.ResultRedelivery
import NumentaApps.SchedulerShutdown
import NumentaApps.CheckpointEquivalence
import NumentaApps.KeysetPage
import NumentaApps.TweetForwarder
import NumentaApps.TweetEmission
import NumentaApps.TweetForwarding
import NumentaApps.HourlyMaxMerge
import NumentaApps.TweetDeletion
import NumentaApps.TweetDeletionNotices
import NumentaApps.ModelService
import NumentaApps.ModelServiceTable
import NumentaApps.MobileCacheCoherence
import NumentaApps.CsvReaders
import NumentaApps.CsvAgreement
import NumentaApps.MomentFormat
import NumentaApps.OrderedChoice
import NumentaApps.Strptime
import NumentaApps.TimestampAgreement
import NumentaApps.CrashScript
import NumentaApps.FileSystem
import NumentaApps.ModelCheckpointMgr
import NumentaApps.CheckpointAtomicity
import NumentaApps.BatchScoring
import NumentaApps.LikelihoodLoop
import NumentaApps.GreedyRefresh
import NumentaApps.SchedulerPreemption
import NumentaApps.LoadAllOrNothing
import NumentaApps.InstanceQuota
import NumentaApps.QuotaEnforcement
import NumentaApps.RecordStore
import NumentaApps.RecordUpdates
import NumentaApps.MobileDataGaps
import NumentaApps.JsonReader
import NumentaApps.MetricDataHandler
import NumentaApps.MetricDataParser
import NumentaApps.MetricDataWire
import NumentaApps.GroupedByKey
import NumentaApps.MetricListener
import NumentaApps.MetricStorer
import NumentaApps.MalformedMessages
import NumentaApps.MetricCollectionIterator
import NumentaApps.MetricCollections
import NumentaApps.JsonText
import NumentaApps.ModelSwapperInterface
import NumentaApps.WireRoundTrip
import NumentaApps.MetricTransactions
import NumentaApps.ModelCreation
import NumentaApps.ModelCreationFailure
import NumentaApps.UnmonitoredMetrics
import NumentaApps.MetricGarbageCollector
import NumentaApps.OldEndTrimming
import NumentaApps.PublishStages
import NumentaApps.PublishSteps
import NumentaApps.PublishFates
import NumentaApps.ConsumerStages
import NumentaApps.ConsumerSteps
import NumentaApps.ConsumerRuns
import NumentaApps.ConsumerEvents
import NumentaApps.CloudWatchTimeRange
import NumentaApps.CloudWatchMetricData
import NumentaApps.CollectionTiling
import NumentaApps.TaurusDatabase
import NumentaApps.UtcCalendar
import NumentaApps.TaurusClient
import NumentaApps.TaurusDataSync
import NumentaApps.TaurusDataHoles
import NumentaApps.MetricDataAnswers
import NumentaApps.EC2InstanceTagMatcher
import NumentaApps.ModelDataNotifications
import NumentaApps.DatabaseKeys
import NumentaApps.DatabaseService
import NumentaApps.DatabaseContents
import NumentaApps.FileDeletion
import NumentaApps.FileDeletionCalls
import NumentaApps.JsonParse
import NumentaApps.ModelOutput
import NumentaApps.ParamFinder
import NumentaApps.SampleStatistics
import NumentaApps.TimeAggregator
import NumentaApps.FileStatistics
import NumentaApps.HTMITDatabase
import NumentaApps.InstanceScores
import NumentaApps.SeriesScores
import NumentaApps.SeriesCaches
import NumentaApps.SeriesOperations
import NumentaApps.AggregatedScores
import NumentaApps.BinarySearch
import NumentaApps.DataUtils
import NumentaApps.RenderedNumbers
import NumentaApps.SqlCondition
import NumentaApps.CoreDatabaseImpl
import NumentaApps.QuerySelections
import NumentaApps.ClosedHours
import NumentaApps.ClosedHourAgreement
import NumentaApps.CalendarTexts
import NumentaApps.HourlyQueries
import NumentaApps.CallbackDelivery
import NumentaApps.MetricValues
import NumentaApps.MetricValueCache
import NumentaApps.NotificationLimits
import NumentaApps.BackwardFill
import NumentaApps.MetricAnomalyChartData
import NumentaApps.ChartWindow
import NumentaApps.ChartAlignment
import NumentaApps.LoadedCharts
import NumentaApps.NotificationService
import NumentaApps.NotificationRedelivery
import NumentaApps.NotificationSync
import NumentaApps.MonotoneConsumer
import NumentaApps.StockForwarding
import NumentaApps.MetricCollection
import NumentaApps.CollectorGuarantees
import NumentaApps.MonitorDispatcher
import NumentaApps.DispatchedFailures
import NumentaApps.TweetTagging
import NumentaApps.TweetReaping
