import Shogun.Async.Equiv.Actions
import Shogun.Async.Equiv.Halt
import Shogun.Async.Equiv.HeapExecutor
import Shogun.Async.Equiv.HeapPass
import Shogun.Async.Equiv.HeapQueue
import Shogun.Async.Equiv.HeapRun
import Shogun.Async.Equiv.HeapSpawn
import Shogun.Async.Equiv.Machine
import Shogun.Async.Equiv.Pass
import Shogun.Async.Equiv.Release
import Shogun.Async.Equiv.Run
import Shogun.Async.Equiv.Serial
import Shogun.Async.Equiv.Spawn
import Shogun.Async.Equiv.Tasks
import Shogun.Async.Equiv.Visit
import Shogun.Async.HeapExecutor
import Shogun.Async.HeapRun
import Shogun.Async.Machine
import Shogun.Async.Pass
import Shogun.Async.Serial
import Shogun.Async.Tasks
import Shogun.Cpu.Descriptor
import Shogun.Cpu.Equiv.Descriptor
import Shogun.Cpu.Equiv.Tables
import Shogun.Cpu.Processor
import Shogun.Cpu.Tables
import Shogun.Interrupt.Deliver
import Shogun.Interrupt.Dispatch
import Shogun.Interrupt.Equiv.Deliver
import Shogun.Interrupt.Equiv.Dispatch
import Shogun.Interrupt.Equiv.Irq
import Shogun.Interrupt.Equiv.Pic
import Shogun.Interrupt.Equiv.Stub
import Shogun.Interrupt.Irq
import Shogun.Interrupt.Pic
import Shogun.Interrupt.Stub
import Shogun.Kernel.Boot
import Shogun.Kernel.Equiv.Boot
import Shogun.Kernel.Equiv.MemoryTests
import Shogun.Kernel.Equiv.RunTests
import Shogun.Kernel.MemoryTests
import Shogun.Kernel.RunTests
import Shogun.Logger.Buffer
import Shogun.Logger.Equiv.Buffer
import Shogun.Logger.Equiv.Format
import Shogun.Logger.Equiv.Hex
import Shogun.Logger.Equiv.InterruptGuard
import Shogun.Logger.Equiv.Log
import Shogun.Logger.Format
import Shogun.Logger.InterruptGuard
import Shogun.Logger.Log
import Shogun.Memory.Allocator
import Shogun.Memory.Client
import Shogun.Memory.DebugPrint
import Shogun.Memory.Equiv.Allocate
import Shogun.Memory.Equiv.AllocateRun
import Shogun.Memory.Equiv.BlockStore
import Shogun.Memory.Equiv.Blocks
import Shogun.Memory.Equiv.Client
import Shogun.Memory.Equiv.ClientDecide
import Shogun.Memory.Equiv.Coalesce
import Shogun.Memory.Equiv.Deallocate
import Shogun.Memory.Equiv.DebugPrint
import Shogun.Memory.Equiv.Drift
import Shogun.Memory.Equiv.FirstFit
import Shogun.Memory.Equiv.FreeList
import Shogun.Memory.Equiv.HeapRun
import Shogun.Memory.Equiv.InitAllocator
import Shogun.Memory.Equiv.Libc
import Shogun.Memory.Equiv.MemoryMap
import Shogun.Memory.Equiv.Oversized
import Shogun.Memory.Equiv.Scatter
import Shogun.Memory.Equiv.Sorted
import Shogun.Memory.InitAllocator
import Shogun.Memory.Libc
import Shogun.Port.Equiv.Clients
import Shogun.Port.Equiv.PortManager
import Shogun.Port.PortIo
import Shogun.Port.PortManager
import Shogun.Rtc.AddMachine
import Shogun.Rtc.Clock
import Shogun.Rtc.Cmos
import Shogun.Rtc.Equiv.AddMachine
import Shogun.Rtc.Equiv.Check
import Shogun.Rtc.Equiv.Clock
import Shogun.Rtc.Equiv.Cmos
import Shogun.Rtc.Equiv.HeapQueue
import Shogun.Rtc.Equiv.HeapRun
import Shogun.Rtc.Equiv.HeapTimers
import Shogun.Rtc.Equiv.Holding
import Shogun.Rtc.Equiv.InitRtc
import Shogun.Rtc.Equiv.Periodic
import Shogun.Rtc.Equiv.ReadTime
import Shogun.Rtc.Equiv.Rearm
import Shogun.Rtc.Equiv.Sleep
import Shogun.Rtc.Equiv.SleepTicks
import Shogun.Rtc.Equiv.WakeUpRun
import Shogun.Rtc.Equiv.WriteTime
import Shogun.Rtc.HeapTimers
import Shogun.Rtc.InitRtc
import Shogun.Rtc.Periodic
import Shogun.Rtc.ReadTime
import Shogun.Rtc.Sleep
import Shogun.Rtc.WakeUpList
import Shogun.Rtc.WriteTime
import Shogun.Serial.Equiv.InitSerial
import Shogun.Serial.Equiv.WriteSerial
import Shogun.Serial.Uart
import Shogun.Terminal.Equiv.Attribute
import Shogun.Terminal.Equiv.IntToString
import Shogun.Terminal.Equiv.Interleave
import Shogun.Terminal.Equiv.PutNumber
import Shogun.Terminal.Equiv.Serialize
import Shogun.Terminal.Equiv.Vga
import Shogun.Terminal.IntToString
import Shogun.Terminal.Interleave
import Shogun.Terminal.PutNumber
import Shogun.Terminal.Vga
import Shogun.Util.BitRange
import Shogun.Util.BoundedQueue
import Shogun.Util.ByteMask
import Shogun.Util.ByteMemory
import Shogun.Util.ByteTable
import Shogun.Util.CString
import Shogun.Util.CircularWindow
import Shogun.Util.LastWrite
import Shogun.Util.LineEnd
import Shogun.Util.LinkedList
import Shogun.Util.Loop
import Shogun.Util.Numeral
import Shogun.Util.Rounds
import Shogun.Util.RunningMax
import Shogun.Util.Sweep
import Shogun.Util.Walk
import Shogun.Util.Word32
import Shogun.Util.WordStack
import Shogun.Util.WrapClock
