import Cyclone10TPG.Sync.Run
import Cyclone10TPG.Sync.Since
import Cyclone10TPG.Sync.Pace
import Cyclone10TPG.Sync.Turns
import Cyclone10TPG.Sync.Backlog
import Cyclone10TPG.Sync.Memory
import Cyclone10TPG.Sync.LineCode
import Cyclone10TPG.Sync.Serial
import Cyclone10TPG.Sync.Elastic
import Cyclone10TPG.Sync.Transduce
import Cyclone10TPG.Sync.Circular
import Cyclone10TPG.Sdram.Efifo
import Cyclone10TPG.Sdram.Controller
import Cyclone10TPG.Sdram.Transition
import Cyclone10TPG.Sdram.Invariant
import Cyclone10TPG.Sdram.Command
import Cyclone10TPG.Sdram.Banks
import Cyclone10TPG.Sdram.Issue
import Cyclone10TPG.Sdram.Queue
import Cyclone10TPG.Sdram.Protocol
import Cyclone10TPG.Sdram.Refresh
import Cyclone10TPG.Sdram.Startup
import Cyclone10TPG.Sdram.PowerUp
import Cyclone10TPG.Sdram.Progress
import Cyclone10TPG.Sdram.Timing
import Cyclone10TPG.Sdram.Spacing
import Cyclone10TPG.Sdram.Clock
import Cyclone10TPG.Sdram.Retention
import Cyclone10TPG.Sdram.Device
import Cyclone10TPG.Sdram.ReadPath
import Cyclone10TPG.Sdram.Contention
import Cyclone10TPG.Sdram.Consistency
import Cyclone10TPG.Sdram.Latency
import Cyclone10TPG.Sdram.Throughput
import Cyclone10TPG.Tmds.Encoder
import Cyclone10TPG.Tmds.Disparity
import Cyclone10TPG.Tmds.RoundTrip
import Cyclone10TPG.Tmds.Transitions
import Cyclone10TPG.Tmds.Link
import Cyclone10TPG.Smg.Interface
import Cyclone10TPG.Smg.Multiplex
import Cyclone10TPG.Video.Tpg
import Cyclone10TPG.Video.Stalls
import Cyclone10TPG.Video.Frame
import Cyclone10TPG.Video.Schedule
import Cyclone10TPG.Video.CtrlPacketOverride
import Cyclone10TPG.Video.Pipeline
import Cyclone10TPG.Video.Padding
import Cyclone10TPG.Video.Refinement
import Cyclone10TPG.Video.LineBuffer
import Cyclone10TPG.Video.PaddingStall
import Cyclone10TPG.Video.Cropping
import Cyclone10TPG.Video.Coherence
import Cyclone10TPG.Software.Uart
import Cyclone10TPG.Software.Mixer
import Cyclone10TPG.Software.FastUart
import Cyclone10TPG.Software.Transmit
import Cyclone10TPG.Software.Drain
import Cyclone10TPG.Software.Receive
