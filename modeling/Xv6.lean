import Xv6.Memory.Progress
import Xv6.Memory.Counts
import Xv6.Memory.Races
import Xv6.Memory.Eager
import Xv6.Memory.Sbrk
import Xv6.Memory.Undo
import Xv6.Memory.KernelMap
import Xv6.Memory.Arguments
import Xv6.Memory.Release
import Xv6.Process.Lifetime
import Xv6.Process.Starvation
import Xv6.Process.Kills
import Xv6.Process.Reports
import Xv6.Process.Slots
import Xv6.Concurrent.Allocator
import Xv6.Process.Break
import Xv6.Process.Checks
import Xv6.Futex.Mutex
import Xv6.Futex.Cond
import Xv6.Futex.Uthread
import Xv6.Io.Pipe
import Xv6.Io.Console
import Xv6.Fs.Recovery
import Xv6.Fs.Reservation
import Xv6.Fs.Tables
import Xv6.Fs.Naming
import Xv6.Fs.Descriptors
import Xv6.Fs.Store
import Xv6.Fs.Chunk
import Xv6.User.Memmove
import Xv6.User.HeapRuns
import Xv6.Firmware.MpTable
import Xv6.Firmware.Acpi
import Xv6.Process.Exec
import Xv6.Process.Balance
import Xv6.Memory.Isolation
import Xv6.Concurrent.Spinlock
import Xv6.Concurrent.Sleeplock
