import Blockvisor.Babel.Blueprint
import Blockvisor.Babel.Compression
import Blockvisor.Babel.ChunkReader
import Blockvisor.Babel.ChunkWriter
import Blockvisor.Babel.RoundTrip
import Blockvisor.Lib.Machine
import Blockvisor.Lib.Persist
import Blockvisor.Babel.DownloadJob
import Blockvisor.Babel.DownloadComplete
import Blockvisor.Babel.UploadJob
import Blockvisor.Babel.UploadFacts
import Blockvisor.Babel.UploadFaithful
import Blockvisor.Lib.Effect
import Blockvisor.Bv.CpuRegistry
import Blockvisor.Bv.NodeState
import Blockvisor.Bv.ApptainerMachine
import Blockvisor.Bv.BabelEngine
import Blockvisor.Bv.Commands
import Blockvisor.Bv.CommandsWatch
import Blockvisor.BvUtils.RunFlag
import Blockvisor.Babel.MultiUpload
import Blockvisor.Babel.JobSlot
import Blockvisor.Babel.JobsManager
import Blockvisor.Babel.JobStarts
import Blockvisor.Babel.JobWaits
import Blockvisor.Babel.JobReload
import Blockvisor.Bv.Node
import Blockvisor.Bv.NodeCalls
import Blockvisor.Bv.NodeFacts
import Blockvisor.Bv.Recovery
import Blockvisor.Bv.NodesManager
import Blockvisor.Bv.Indexed
import Blockvisor.Bv.Indexes
import Blockvisor.Babel.MultiDownload
import Blockvisor.Bv.Scheduler
import Blockvisor.Bv.UfwWrapper
import Blockvisor.Bv.Archive
import Blockvisor.Bv.Snapshot.DownloadEngine
import Blockvisor.Bv.Snapshot.Checksums
import Blockvisor.Bv.Snapshot.SameTree
import Blockvisor.Bv.Snapshot.DownloadRun
import Blockvisor.Bv.SchedulerLocks
import Blockvisor.Bv.BvConfig
import Blockvisor.Babel.TargetDir
import Blockvisor.Babel.TargetFacts
import Blockvisor.Babel.TargetContent
import Blockvisor.Bv.Initialized
import Blockvisor.Babel.EndOfChunk
import Blockvisor.Bv.NodeDelete
import Blockvisor.BabelApi.PluginConfig
import Blockvisor.BabelApi.RhaiPlugin
import Blockvisor.BabelApi.PluginJobs
import Blockvisor.Lib.Path
import Blockvisor.Babel.MultiClient
import Blockvisor.BabelApi.InitGraph
import Blockvisor.Babel.JobCleanup
import Blockvisor.Bv.Snapshot.ApiService
import Blockvisor.Babel.OneTime
import Blockvisor.Babel.JobMoves
import Blockvisor.BabelApi.PluginRun
import Blockvisor.BabelApi.JobOrder
import Blockvisor.BabelApi.UploadAlone
import Blockvisor.BabelApi.DataFirst
import Blockvisor.Bv.UfwCleanup
import Blockvisor.Bv.Installer
import Blockvisor.Bv.InstallRuns
import Blockvisor.Bv.SelfUpdater
import Blockvisor.Babel.JobLogs
import Blockvisor.Babel.UploadSteps
import Blockvisor.Babel.WriterCache
import Blockvisor.Bv.Resources
import Blockvisor.Bv.Snapshot.Validated
import Blockvisor.Bv.StateSaves
import Blockvisor.Babel.UploadSlots
import Blockvisor.Babel.UploadProgress
import Blockvisor.Bv.Upgraded
import Blockvisor.Bv.Admission
import Blockvisor.Bv.ShParam
import Blockvisor.Babel.Backoff
import Blockvisor.Lib.PrefixCode
import Blockvisor.Lib.LineLog
import Blockvisor.Babel.ChunkJson
import Blockvisor.Babel.ChunkLog
import Blockvisor.Babel.LogHandler
import Blockvisor.Babel.JobKills
import Blockvisor.Babel.JobStop
import Blockvisor.Bv.Services
import Blockvisor.Lib.Subnet
import Blockvisor.Bv.NetConf
import Blockvisor.Bv.Snapshot.Discovery
import Blockvisor.Bv.ImageProperties
import Blockvisor.Bv.PushImage
import Blockvisor.Bv.Snapshot.ArchiveId
import Blockvisor.Bv.Snapshot.ProtocolResolver
import Blockvisor.Babel.BuildDestinations
import Blockvisor.Bv.UpgradeRecord
import Blockvisor.Bv.Rollback
import Blockvisor.Bv.Cores
import Blockvisor.Bv.HostCores
import Blockvisor.Bv.PluginCalls
import Blockvisor.Lib.Crc
import Blockvisor.BvUtils.Binary
import Blockvisor.Bv.FileRequests
import Blockvisor.Bv.RunnerBinary
