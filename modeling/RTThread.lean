import RTThread.Lib.Word32
import RTThread.Lib.ByteMem
import RTThread.Lib.Tiling
import RTThread.Lib.Runs
import RTThread.Rtdef
import RTThread.Mem.SmallMem
import RTThread.Mem.MemHeapRun
import RTThread.Mem.MemHeapFrame
import RTThread.Mem.MemHeapSizes
import RTThread.Mem.SmallMemRun
import RTThread.Mem.SmallMemFrame
import RTThread.Mem.SmallMemSizes
import RTThread.Mem.SmallMemSearch
import RTThread.Lib.Ring
import RTThread.Lib.BoundedFifo
import RTThread.Drivers.RingBufferFifo
import RTThread.Lib.Ascending
import RTThread.Drivers.RingBlkBufQueue
import RTThread.Mem.KService
import RTThread.Kernel.TimerActive
import RTThread.Kernel.TimerOrder
import RTThread.Kernel.SoftTimer
import RTThread.Kernel.Semaphore
import RTThread.Kernel.Mutex
import RTThread.Kernel.Detach
import RTThread.Kernel.Event
import RTThread.Kernel.EventPaths
import RTThread.Kernel.Waits
import RTThread.Lib.Deque
import RTThread.Kernel.Mailbox
import RTThread.Kernel.MessageQueueRun
import RTThread.Drivers.DataQueue
import RTThread.Drivers.Completion
import RTThread.Drivers.WaitQueue
import RTThread.Drivers.WorkQueuePlaces
import RTThread.Drivers.WorkQueueOwed
import RTThread.Drivers.Pipe
import RTThread.Mem.MemPoolRun
import RTThread.Lib.StableOrder
import RTThread.Kernel.SuspendOrder
import RTThread.Kernel.Inheritance
import RTThread.Kernel.BasePriority
import RTThread.Kernel.Preemption
import RTThread.Libc.Time
import RTThread.Libc.TimeCarry
import RTThread.Link.ReceiveBuffer
import RTThread.Link.LongFrame
import RTThread.Dfs.FdTable
import RTThread.Lib.CString
import RTThread.Lib.Components
import RTThread.Dfs.NormalizePath
import RTThread.Dfs.MountTable
import RTThread.Dfs.MountLookup
import RTThread.Kernel.Vsnprintf
import RTThread.Drivers.SerialRx
import RTThread.Drivers.SerialTx
import RTThread.Drivers.AudioReplay
import RTThread.Lib.Interaction
import RTThread.Lib.Network
import RTThread.Ymodem.Ymodem
import RTThread.Ymodem.Session
import RTThread.Ymodem.Conforming
import RTThread.Ymodem.Transfer
import RTThread.Net.Dhcpd
import RTThread.Net.AtClient
import RTThread.Net.AtExec
import RTThread.Net.AtServer
import RTThread.Drivers.Pm
import RTThread.Kernel.Signal
import RTThread.Kernel.SignalNodes
import RTThread.Kernel.SignalHandle
import RTThread.Drivers.SerialOpen
import RTThread.Lib.BlockMode
import RTThread.Drivers.Aes
import RTThread.Drivers.Spinand
import RTThread.Drivers.SpinandPartition
import RTThread.Drivers.UartDmaRx
import RTThread.Dfs.Ramfs
import RTThread.Mem.MemHeapClient
import RTThread.Dfs.RamFile
import RTThread.Fal.Partition
import RTThread.Finsh.Msh
import RTThread.Posix.CondWakeups
import RTThread.Posix.Barrier
import RTThread.Lib.Registry
import RTThread.Posix.NamedObject
import RTThread.Posix.Poll
import RTThread.Kernel.Printf
import RTThread.Mem.MallocAlign
import RTThread.Drivers.Sdh
import RTThread.Drivers.SerialIntTx
import RTThread.Dfs.Romfs
import RTThread.Lib.Execution
import RTThread.Drivers.AudioWrite
import RTThread.Posix.Select
import RTThread.Dfs.Chdir
import RTThread.Dfs.DirStream
import RTThread.Kernel.SignalWait
import RTThread.Drivers.I2cBitOps
import RTThread.Drivers.I2cTransfer
import RTThread.Lib.LevelQueue
import RTThread.Vbus.PrioQueue
import RTThread.Vbus.PrioQueueRun
import RTThread.Finsh.Shell
import RTThread.Finsh.ShellReplay
import RTThread.Kernel.TimerBeat
import RTThread.Lib.Extents
import RTThread.Mem.SlabPages
import RTThread.Lib.SharedLock
import RTThread.Posix.RwLock
