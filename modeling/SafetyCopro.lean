import SafetyCopro.Lib.Machine
import SafetyCopro.Lib.FlatRecord
import SafetyCopro.Protocol.Wire
import SafetyCopro.Protocol.Detection
import SafetyCopro.Supervisor.HealthStateMachine
import SafetyCopro.Supervisor.RecoveryWorker
import SafetyCopro.Supervisor.LiveReplay
import SafetyCopro.Supervisor.MockReplay
import SafetyCopro.Supervisor.ModesAgree
import SafetyCopro.Supervisor.LoggerWorker
import SafetyCopro.Supervisor.ReportQueue
import SafetyCopro.Supervisor.RecoveryReports
import SafetyCopro.Supervisor.Insertions
import SafetyCopro.Supervisor.MockOutcome
import SafetyCopro.Firmware.SafetyProtocol
import SafetyCopro.Firmware.Transmitter
import SafetyCopro.Firmware.Receiver
import SafetyCopro.Firmware.SafeMode
import SafetyCopro.Firmware.FaultScan
import SafetyCopro.Firmware.TxOrder
import SafetyCopro.Firmware.Replies
import SafetyCopro.Linkd.LinkFramer
import SafetyCopro.Bridge.ByteFramer
import SafetyCopro.Driver.TxQueue
import SafetyCopro.Driver.Counters
import SafetyCopro.Driver.Consumers
import SafetyCopro.Driver.Watchdog
import SafetyCopro.Driver.LinkState
import SafetyCopro.Ebpf.SafetyTrace
import SafetyCopro.Supervisor.Live
import SafetyCopro.Supervisor.RecoveryDeadline
import SafetyCopro.Supervisor.StaleReports
import SafetyCopro.System.Codec
import SafetyCopro.System.Receivers
import SafetyCopro.System.RxPath
import SafetyCopro.System.TxPath
import SafetyCopro.System.Link
import SafetyCopro.System.Nacks
import SafetyCopro.System.Injection
import SafetyCopro.System.Timeline
import SafetyCopro.Supervisor.EpollLoop
import SafetyCopro.Driver.Debugfs
import SafetyCopro.Ebpf.Histogram
import SafetyCopro.Ebpf.Percentile
import SafetyCopro.Ebpf.FaultTimeline
import SafetyCopro.Protocol.Checksum
import SafetyCopro.Firmware.RxBuffer
import SafetyCopro.Bridge.Forwarding
import SafetyCopro.System.Chunking
import SafetyCopro.Supervisor.Recoverability
import SafetyCopro.Ebpf.Latency
import SafetyCopro.System.LinkDaemon
import SafetyCopro.Driver.Blocking
import SafetyCopro.System.TraceReport
import SafetyCopro.Driver.Interleaving
import SafetyCopro.Driver.Snapshot
import SafetyCopro.Driver.Lifecycle
import SafetyCopro.Supervisor.TornLog
import SafetyCopro.Firmware.Injections
import SafetyCopro.System.Chain
