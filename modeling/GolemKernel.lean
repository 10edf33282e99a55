import GolemKernel.Theorems.RamFs
import GolemKernel.Theorems.Vfs
import GolemKernel.Theorems.Append
import GolemKernel.Theorems.OpenCreate
import GolemKernel.Theorems.FsErrors
import GolemKernel.Theorems.Seek
import GolemKernel.Theorems.FileHistory
import GolemKernel.Theorems.Readdir
import GolemKernel.Theorems.Rename
import GolemKernel.Theorems.Heap
import GolemKernel.Theorems.HeapRange
import GolemKernel.Theorems.Allocator
import GolemKernel.Theorems.MemoryMap
import GolemKernel.Theorems.Paging
import GolemKernel.Theorems.Bringup
import GolemKernel.Theorems.Handoff
import GolemKernel.Theorems.Checksum
import GolemKernel.Theorems.Terminal
import GolemKernel.Theorems.Console
import GolemKernel.Theorems.Audit
import GolemKernel.Theorems.Handshake
import GolemKernel.Theorems.VirtQueue
import GolemKernel.Theorems.Migration
import GolemKernel.Theorems.Session
import GolemKernel.Theorems.Window
import GolemKernel.Theorems.Signals
import GolemKernel.Theorems.Normalise
import GolemKernel.Theorems.Scheduler
import GolemKernel.Theorems.Context
import GolemKernel.Lib.Trace
import GolemKernel.Scheduler.Process
import GolemKernel.Scheduler.Scheduler
import GolemKernel.Lemmas.Scheduler
import GolemKernel.Theorems.Channel
import GolemKernel.Theorems.Registration
import GolemKernel.Theorems.Response
import GolemKernel.Theorems.CommandLine
import GolemKernel.Theorems.Scanner
import GolemKernel.Theorems.Writer
import GolemKernel.Theorems.Syscall
import GolemKernel.Theorems.Sha256
import GolemKernel.Theorems.Shared
import GolemKernel.Theorems.Service
import GolemKernel.Theorems.Agent
import GolemKernel.Theorems.Interrupts
import GolemKernel.Theorems.SystemCalls
import GolemKernel.Lemmas.SharedMemory
import GolemKernel.Theorems.SharedMemory
import GolemKernel.Sentinel.Invisible
import GolemKernel.Theorems.Invisible
