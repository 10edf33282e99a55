import GolemKernel.Memory.Basic
import GolemKernel.Lib.Bytes

/-!
# Process control blocks

`src/scheduler/process.rs`. A kernel stack is the address and the length of its buffer, whose bytes are in memory; the saved stack
pointer of a process is an address. A time slice is a number of ticks. The launch frame holds the address of the trampoline, which
the linker chooses; it is a parameter here.
-/

namespace GolemKernel

namespace Sched

open Memory

abbrev Pid := UInt64

abbrev OwnerId := UInt64

/-- The context that exists before any process is spawned. -/
def pidBootstrap : Pid := 0

/-- The idle process. -/
def pidIdle : Pid := 1

/-- `alloc_pid`, from the counter: the new pid and the counter after it. The call panics when the pids are used up. -/
def allocPid (nextPid : Pid) : Option (Pid × Pid) :=
  if nextPid ≠ 0xFFFFFFFFFFFFFFFF then some (nextPid, nextPid + 1) else none

inductive ProcessState where
  | ready | running | blocked | zombie
  deriving DecidableEq, Repr

/-- A `Box<[u8]>` that is used as a stack. -/
structure KernelStack where
  base : Nat
  size : Nat
  deriving DecidableEq, Repr

structure Process where
  kernelRsp : Nat
  pid : Pid
  owner : OwnerId
  name : String
  state : ProcessState
  kernelStack : KernelStack
  timeSliceRemaining : Nat
  defaultTimeSlice : Nat
  deriving DecidableEq, Repr

/-- One word onto a stack, which grows downwards. -/
def pushWord (mem : Bytes.Memory) (sp : Nat) (word : UInt64) : Nat × Bytes.Memory :=
  let sp := wrappingSub sp 8
  (sp, mem.write sp (Bytes.u64 word))

/-- `init_kernel_stack`: the stack pointer of the launch frame, and the memory with the frame in it. -/
def initKernelStack (trampoline : UInt64) (mem : Bytes.Memory) (stack : KernelStack) (entry : UInt64) : Nat × Bytes.Memory :=
  let top := (stack.base + stack.size) % 2 ^ 64
  let topAligned := top &&& not64 0xF
  -- the alignment pad, the return target, and rbp, rbx, r12, r13, r14, r15
  let words : List UInt64 := [0, trampoline, 0, 0, entry, 0, 0, 0]
  words.foldl (fun (sp, mem) word => pushWord mem sp word) (topAligned, mem)

namespace Process

/-- `new_with_pid`. -/
def newWithPid (trampoline : UInt64) (mem : Bytes.Memory) (pid : Pid) (name : String) (owner : OwnerId) (entry : UInt64)
    (kernelStack : KernelStack) (timeSlice : Nat) : Process × Bytes.Memory :=
  let (kernelRsp, mem) := initKernelStack trampoline mem kernelStack entry
  ({ kernelRsp, pid, owner, name, state := .ready, kernelStack, timeSliceRemaining := timeSlice, defaultTimeSlice := timeSlice }, mem)

/-- `new`, with the counter of pids. -/
def new (trampoline : UInt64) (nextPid : Pid) (mem : Bytes.Memory) (name : String) (owner : OwnerId) (entry : UInt64)
    (kernelStack : KernelStack) (timeSlice : Nat) : Option (Process × Pid × Bytes.Memory) := do
  let (pid, nextPid) ← allocPid nextPid
  let (proc, mem) := newWithPid trampoline mem pid name owner entry kernelStack timeSlice
  return (proc, nextPid, mem)

/-- The context that runs during bootstrap. The first switch away from it saves its stack pointer. -/
def bootstrap (owner : OwnerId) : Process where
  kernelRsp := 0
  pid := pidBootstrap
  owner := owner
  name := "<bootstrap>"
  state := .running
  kernelStack := ⟨0, 0⟩
  timeSliceRemaining := 0
  defaultTimeSlice := 0

end Process

end Sched

end GolemKernel
