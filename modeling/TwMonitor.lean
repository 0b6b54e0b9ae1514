import TwMonitor.AbsoluteAddress
import TwMonitor.Allocator
import TwMonitor.AssemblyFrame
import TwMonitor.BaudRate
import TwMonitor.BoardInit
import TwMonitor.BranchConditions
import TwMonitor.CriticalSection
import TwMonitor.Debugger
import TwMonitor.EnterEffects
import TwMonitor.FaultExit
import TwMonitor.FileTransfer
import TwMonitor.InstructionBoundaries
import TwMonitor.InterruptControl
import TwMonitor.LabelLoads
import TwMonitor.LabelTable
import TwMonitor.LongDivision
import TwMonitor.LostWakeup
import TwMonitor.MenuNumber
import TwMonitor.MonitorInvariants
import TwMonitor.NumberParse
import TwMonitor.PinConfiguration
import TwMonitor.PopLists
import TwMonitor.Printable
import TwMonitor.Reassembly
import TwMonitor.ReceiveBuffers
import TwMonitor.RegisterAliases
import TwMonitor.RoundTrip
import TwMonitor.SectionSize
import TwMonitor.SessionSafety
import TwMonitor.SteppingSessions
import TwMonitor.StoreRefinement
import TwMonitor.StoreWrites
import TwMonitor.Syscall
import TwMonitor.WidthFallback
