import MyOs.Lib.Runs
import MyOs.Lib.Tables
import MyOs.Lib.Bytes
import MyOs.Memory.Kmalloc
import MyOs.Memory.Teardown
import MyOs.Memory.KernelInit
import MyOs.Memory.UserHeap
import MyOs.Memory.HeapRequests
import MyOs.Memory.Mmap
import MyOs.Memory.MultibootMap
import MyOs.Loader.ElfRelocs
import MyOs.Loader.ElfReads
import MyOs.Sched.Wakeups
import MyOs.Sched.Currents
import MyOs.Sched.Parents
import MyOs.Sched.WaitOrder
import MyOs.Sched.Locking
import MyOs.Sched.Traps
import MyOs.Sched.CpuChoice
import MyOs.Sched.TimeSlices
import MyOs.Sched.FirstEntry
import MyOs.Sched.Creation
import MyOs.Net.Streams
import MyOs.Net.Accepts
import MyOs.Net.Descriptors
import MyOs.Vfs.Ownership
import MyOs.Vfs.Unpack
import MyOs.Vfs.MemfsRoom
import MyOs.Vfs.ArchiveBounds
import MyOs.Vfs.Readdir
import MyOs.Irq.Nesting
import MyOs.Console.Terminal
import MyOs.Input.Keyboard
import MyOs.Debug.Transparency
import MyOs.Debug.Packets
import MyOs.Debug.Bounds
import MyOs.User.Malloc
import MyOs.User.Routing
import MyOs.User.Addresses
import MyOs.User.MacAddresses
import MyOs.Time.Rtc
import MyOs.Vfs.ArchivePaths
import MyOs.Queues
import MyOs.Printf.KernelLog
import MyOs.Lib.Sectors
import MyOs.Vfs.DiskDevice
