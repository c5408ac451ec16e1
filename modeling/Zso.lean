import Zso.Lib.Transition
import Zso.Lib.Bits
import Zso.Lib.BoundedMap
import Zso.Lib.Histories
import Zso.Lib.Ledger
import Zso.Lib.Fairness
import Zso.Tape.Command
import Zso.Tape.Plan
import Zso.Tape.Device
import Zso.Tape.Geometry
import Zso.Tape.Pieces
import Zso.Tape.Walk
import Zso.Tape.Splitting
import Zso.Tape.Replay
import Zso.Tape.Section
import Zso.Tape.InFlight
import Zso.Tape.QueueShape
import Zso.Tape.History
import Zso.Tape.Completion
import Zso.Tape.Submission
import Zso.Tape.Resources
import Zso.Tape.Probe
import Zso.Tape.SharedLine
import Zso.Tape.Ioctl
import Zso.Tape.CurrentTape
import Zso.Tape.Success
import Zso.Tape.Dma
import Zso.Tape.Machine
import Zso.Tape.Registers
import Zso.Tape.Mmio
import Zso.Tape.DeviceSafety
import Zso.Tape.FastMode
import Zso.Tape.Lifecycle
import Zso.Tape.HostFile
import Zso.Tape.FailedSection
import Zso.Tape.Rig
import Zso.Tape.Devices
import Zso.Tape.WireFormat
import Zso.Tape.FlatDisk
import Zso.Tape.OneTape
import Zso.Tape.TapeCommands
import Zso.Tape.Serving
import Zso.Tape.FlatRuns
import Zso.Tape.Progress
import Zso.Tape.Refinement
import Zso.Oomk.Name
import Zso.Oomk.Probes
import Zso.Oomk.Deeds
import Zso.Oomk.Limits
import Zso.Oomk.Reuse
import Zso.Oomk.MemSwitch
import Zso.Oomk.Descriptors
import Zso.Oomk.Packets
import Zso.Oomk.Isolation
import Zso.Oomk.Offset
import Zso.Adler.Driver
import Zso.Adler.Places
import Zso.Adler.Suspend
import Zso.Adler.Waiters
import Zso.Adler.Checksum
import Zso.Adler.Mmap
import Zso.Adler.Devices
import Zso.Adler.Drain
