import SystemyOperacyjne.Library.Transition
import SystemyOperacyjne.Library.Census
import SystemyOperacyjne.Model.Semaphore
import SystemyOperacyjne.Model.SemReadersWriters
import SystemyOperacyjne.Analysis.SemReadersWritersInvariant
import SystemyOperacyjne.Analysis.CondReadersWritersInvariant
import SystemyOperacyjne.Analysis.SemReadersWritersProgress
import SystemyOperacyjne.Analysis.CondReadersWritersProgress
import SystemyOperacyjne.Analysis.BarberShopLocks
import SystemyOperacyjne.Analysis.BarberShopMoves
import SystemyOperacyjne.Analysis.BarberShopResults
import SystemyOperacyjne.Analysis.BarberShopRules
import SystemyOperacyjne.Analysis.ClientRegistryRuns
import SystemyOperacyjne.Analysis.ServerTaskBatch
import SystemyOperacyjne.Analysis.DatagramRouting
import SystemyOperacyjne.Analysis.MessageFraming
import SystemyOperacyjne.Analysis.PingBookkeeping
import SystemyOperacyjne.Analysis.TaskCorrelation
import SystemyOperacyjne.Analysis.CondConsistentReads
import SystemyOperacyjne.Analysis.ConsistentReads
import SystemyOperacyjne.Analysis.PosixLogout
import SystemyOperacyjne.Analysis.SysVLockstep
import SystemyOperacyjne.Analysis.OrderlyTermination
import SystemyOperacyjne.Analysis.BatchReplays
import SystemyOperacyjne.Analysis.InFileSort
import SystemyOperacyjne.Analysis.PermissionAccounts
import SystemyOperacyjne.Analysis.PermissionGrants
import SystemyOperacyjne.Analysis.RequestCounting
import SystemyOperacyjne.Analysis.StopOnError
import SystemyOperacyjne.Analysis.WordSearchCalm
import SystemyOperacyjne.Analysis.WordSearchHits
import SystemyOperacyjne.Analysis.WordSearchJoins
import SystemyOperacyjne.Analysis.WordSearchReports
import SystemyOperacyjne.Analysis.PipelinePlumbing
import SystemyOperacyjne.Analysis.PipelineProgress
import SystemyOperacyjne.Analysis.BatchDirectives
import SystemyOperacyjne.Analysis.ConsoleTaskOrigins
import SystemyOperacyjne.Analysis.DatagramDispatch
import SystemyOperacyjne.Analysis.EchoCounting
import SystemyOperacyjne.Analysis.FifoRefinement
import SystemyOperacyjne.Analysis.PipelineVectors
import SystemyOperacyjne.Analysis.PixelMapping
import SystemyOperacyjne.Analysis.ShuffleOrders
import SystemyOperacyjne.Analysis.SortKey
import SystemyOperacyjne.Analysis.AlphabetLetters
import SystemyOperacyjne.Analysis.ArgumentBounds
import SystemyOperacyjne.Analysis.DirectoryReports
import SystemyOperacyjne.Analysis.PathValidation
import SystemyOperacyjne.Analysis.RecordIds
import SystemyOperacyjne.Analysis.RecordOffsets
import SystemyOperacyjne.Analysis.ShuffleCounts
import SystemyOperacyjne.Analysis.WordSearchCrossing
import SystemyOperacyjne.Analysis.WordSearchEnds
import SystemyOperacyjne.Analysis.CondReadersWritersReturn
import SystemyOperacyjne.Analysis.RecordSessions
import SystemyOperacyjne.Analysis.PictureProgress
import SystemyOperacyjne.Analysis.WordSearchTruth
import SystemyOperacyjne.Analysis.PipelineMeaning
import SystemyOperacyjne.Analysis.PosixLockstep
import SystemyOperacyjne.Analysis.TaskCompletion
import SystemyOperacyjne.Analysis.SysVWaiting
import SystemyOperacyjne.Analysis.EchoOutcomes
import SystemyOperacyjne.Analysis.PermissionEnd
