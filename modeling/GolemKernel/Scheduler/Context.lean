import GolemKernel.Scheduler.Process
import GolemKernel.Lib.X86

/-!
# The context switch

`src/scheduler/context.rs`, and the tasks that switch to one another by it. A task has a stack and the slot `kernel_rsp` of its
control block. One task runs at a time. It computes, which may change any register and all memory but that of the parked tasks; it
lays out the stack of a new task; or it calls `context_switch`.
-/

namespace GolemKernel

namespace Sched

open X86

/-- `context_switch`: `rdi` is where the outgoing stack pointer is saved, `rsi` the incoming one. -/
def contextSwitch : List Instr :=
  [.push .rbp, .push .rbx, .push .r12, .push .r13, .push .r14, .push .r15,
    .store .rsp .rdi,
    .mov .rsi .rsp,
    .pop .r15, .pop .r14, .pop .r13, .pop .r12, .pop .rbx, .pop .rbp,
    .ret]

/-- `process_entry_trampoline`, up to the jump. -/
def processEntryTrampoline : List Instr := [.sti, .jmp .r12]

/-- The addresses of a stack. -/
def KernelStack.region (stack : KernelStack) : Set UInt64 := span (UInt64.ofNat stack.base) stack.size

/-- What a task has when it calls `context_switch`, before the call pushes the address to return to. -/
structure CallContext where
  returnAddress : UInt64
  rbp : UInt64
  rbx : UInt64
  r12 : UInt64
  r13 : UInt64
  r14 : UInt64
  r15 : UInt64
  rsp : UInt64
  deriving DecidableEq, Repr

/-- The context of a task whose next instruction is at `pc`. -/
def callContext (m : Machine) (pc : UInt64) : CallContext where
  returnAddress := pc
  rbp := m.regs .rbp
  rbx := m.regs .rbx
  r12 := m.regs .r12
  r13 := m.regs .r13
  r14 := m.regs .r14
  r15 := m.regs .r15
  rsp := m.regs .rsp

/-- A task is not there, or it runs, or it waits for its first turn, or it waits in a call of `context_switch`. -/
inductive Status where
  | absent
  | running
  | launched (entry : UInt64)
  | suspended (context : CallContext)
  deriving DecidableEq, Repr

/-- A task that waits for a turn. -/
def Status.Parked : Status → Prop
  | .launched _ | .suspended _ => True
  | .absent | .running => False

/-- Where the tasks have their stacks and their slots, and where the linker put the trampoline. No byte serves twice. -/
structure Layout (ι : Type) where
  stack : ι → KernelStack
  slot : ι → UInt64
  trampoline : UInt64
  stacks_apart : ∀ i j, i ≠ j → Disjoint (stack i).region (stack j).region
  slots_apart : ∀ i j, i ≠ j → Disjoint (span (slot i) 8) (span (slot j) 8)
  slot_off_stack : ∀ i j, Disjoint (span (slot i) 8) (stack j).region

/-- The machine, and what each task is at. -/
structure System (ι : Type) where
  machine : Machine
  current : ι
  status : ι → Status

inductive Event (ι : Type) where
  | work
  | launch (i : ι) (entry : UInt64)
  | switch (j : ι) (returnAddress : UInt64)
  | leave (j : ι) (returnAddress : UInt64)

/-- The task an event gives the processor to. -/
def Event.target? {ι : Type} : Event ι → Option ι
  | .switch j _ | .leave j _ => some j
  | .work | .launch _ _ => none

/-- The context that boots runs alone. -/
def System.boot {ι : Type} [DecidableEq ι] (machine : Machine) (i : ι) : System ι where
  machine := machine
  current := i
  status := Function.update (fun _ => .absent) i .running

/-- A call of `context_switch` by the running task, which leaves that task at `out` and gives the processor to `j`. -/
def System.contextSwitch {ι : Type} [DecidableEq ι] (s : System ι) (j : ι) (returnAddress : UInt64) (out : Status) : System ι where
  machine := (s.machine.call returnAddress).run Sched.contextSwitch
  current := j
  status := Function.update (Function.update s.status s.current out) j .running

namespace Layout

variable {ι : Type} (ℓ : Layout ι)

/-- The bytes of a task: its stack and its slot. -/
def owned (i : ι) : Set UInt64 := (ℓ.stack i).region ∪ span (ℓ.slot i) 8

/-- Memory after `init_kernel_stack` on the stack of a task, with the result in its slot. -/
def launch (mem : Bytes.Memory) (i : ι) (entry : UInt64) : Bytes.Memory :=
  let (rsp, mem) := initKernelStack ℓ.trampoline mem (ℓ.stack i) entry
  storeWord mem (ℓ.slot i) (UInt64.ofNat rsp)

/-- The running task lays out the stack of a new one. -/
def launchTask [DecidableEq ι] (s : System ι) (i : ι) (entry : UInt64) : System ι :=
  { s with
    machine := { s.machine with mem := ℓ.launch s.machine.mem i entry }
    status := Function.update s.status i (.launched entry) }

/-- What the running task, the one that calls `context_switch`, has set up: room on its own stack for the return address and the six
registers, and in `rsi` the stack pointer saved for a task that waits. -/
structure Calls (s : System ι) (j : ι) : Prop where
  parked : (s.status j).Parked
  incoming : s.machine.regs .rsi = loadWord s.machine.mem (ℓ.slot j)
  room : below (s.machine.regs .rsp) 56 ⊆ (ℓ.stack s.current).region

variable [DecidableEq ι]

/-- The steps of the running task. -/
inductive Step : System ι → Event ι → System ι → Prop
  | work (s : System ι) (machine : Machine)
      (spared : ∀ i, (s.status i).Parked → AgreeOn (ℓ.owned i) s.machine.mem machine.mem) :
      Step s .work { s with machine }
  | launch (s : System ι) (i : ι) (entry : UInt64) (free : s.status i = .absent) (size : 80 ≤ (ℓ.stack i).size) :
      Step s (.launch i entry) (ℓ.launchTask s i entry)
  | switch (s : System ι) (j : ι) (returnAddress : UInt64) (calls : ℓ.Calls s j)
      (outgoing : s.machine.regs .rdi = ℓ.slot s.current) :
      Step s (.switch j returnAddress) (s.contextSwitch j returnAddress (.suspended (callContext s.machine returnAddress)))
  -- the outgoing task has ended or was never one, and its stack pointer is saved where nobody looks
  | leave (s : System ι) (j : ι) (returnAddress : UInt64) (calls : ℓ.Calls s j)
      (outgoing : span (s.machine.regs .rdi) 8 ⊆ ℓ.owned s.current) :
      Step s (.leave j returnAddress) (s.contextSwitch j returnAddress .absent)

/-- The states of a run. It begins with one context, which nobody launched, in any state of the machine. -/
inductive Reachable : System ι → Prop
  | boot (machine : Machine) (i : ι) : Reachable (System.boot machine i)
  | step {s s' : System ι} {e : Event ι} : Reachable s → ℓ.Step s e s' → Reachable s'

end Layout

end Sched

end GolemKernel
