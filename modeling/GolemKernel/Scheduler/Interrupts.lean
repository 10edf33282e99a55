import GolemKernel.Scheduler.Scheduler
import GolemKernel.Lib.Trace

/-!
# The scheduler and interrupts

`IrqGuard` and `GlobalScheduler::with` of `src/scheduler/scheduler.rs`, with the functions of `src/scheduler/mod.rs` that go through it,
on the one CPU that there is. A call takes a guard: it reads the flags and masks interrupts. Then it works on the scheduler, one access
after another, and at the end it puts the flags back as it has read them. As long as interrupts are not masked, the timer may interrupt
the task that runs between any two of its accesses. The handler calls `tick` and returns by `iretq`, which puts the flags back.

`context_switch` leaves the flags alone. A task that runs for the first time unmasks interrupts in `process_entry_trampoline`. Any other
task goes on where it left the CPU, in a call of its own, under the guard of that call. Of the flags only the interrupt flag is kept
here. The idle task is `idle_loop`, which makes no calls.
-/

namespace GolemKernel

namespace Sched

/-! ## A call, access by access -/

/-- Where a call is. `schedule` has a mark when it was called by `exit_current`, which panics if it comes back. -/
inductive Body where
  | entry (call : Scheduler.Call)
  | schedule (rsp : Nat) (exits : Bool)
  | picked (next : Process) (rsp : Nat)
  | stashed (next : Process)
  | done
  deriving DecidableEq, Repr

/-- The next access of a call that does not switch. `none` is a panic. -/
def Body.access (s : Scheduler) : Body → Option (Scheduler × Body)
  | .entry (.spawn proc) => some ((s.spawn proc).2, .done)
  | .entry (.tick rsp) =>
    match s.current with
    | some curr =>
      if curr.state = .running then
        let remaining := if 0 < curr.timeSliceRemaining then curr.timeSliceRemaining - 1 else curr.timeSliceRemaining
        some ({ s with current := some { curr with timeSliceRemaining := remaining } },
          if remaining = 0 then .schedule rsp false else .done)
      else some (s, .done)
    | none => some (s, .done)
  | .entry (.yieldNow rsp) => some (s, .schedule rsp false)
  | .entry (.blockCurrent rsp) =>
    some ({ s with current := s.current.map fun (curr : Process) => { curr with state := .blocked } }, .schedule rsp false)
  | .entry (.exitCurrent rsp) =>
    some ({ s with current := s.current.map fun (curr : Process) => { curr with state := .zombie, timeSliceRemaining := 0 } },
      .schedule rsp true)
  | .entry (.unblock pid) => some ((s.unblock pid).2, .done)
  | .schedule rsp exits =>
    match s.pickNext with
    | (some next, s) => some (s, .picked next rsp)
    | (none, s) => if exits then none else some (s, .done)
  -- the stack pointer is saved by the switch, and not read before it
  | .picked next rsp =>
    match s.current with
    | some curr => some ({ s with current := none }.stash { curr with kernelRsp := rsp }, .stashed next)
    | none => some (s, .stashed next)
  | .stashed _ | .done => none

/-! ## Tasks -/

/-- What a guard is taken for: to be held, or for a call. -/
inductive Goal where
  | hold
  | call (call : Scheduler.Call)
  deriving DecidableEq, Repr

/-- What a task does next. `calling` takes a guard; `guarding` has read the flags and masks interrupts; `leaving` drops the guard of a
call. -/
inductive Doing where
  | code
  | calling (goal : Goal)
  | guarding (saved : Bool) (goal : Goal)
  | inside (call : Scheduler.Call) (body : Body)
  | leaving
  deriving DecidableEq, Repr

/-- What is on the stack of a task that has to do with interrupts: a guard, or the frame of an interrupt, with the flags that they put
back and, for an interrupt, what the task was doing. -/
inductive Frame where
  | guard (saved : Bool)
  | irq (saved : Bool) (resume : Doing)
  deriving DecidableEq, Repr

/-- A task that has run. The innermost frame is the first. -/
structure Thread where
  doing : Doing
  frames : List Frame
  deriving DecidableEq, Repr

/-- The calls that code makes. -/
inductive Api where
  | yieldNow (rsp : Nat)
  | blockCurrent (rsp : Nat)
  | exitCurrent (rsp : Nat)
  | unblock (pid : Pid)
  deriving DecidableEq, Repr

def Api.call : Api → Scheduler.Call
  | .yieldNow rsp => .yieldNow rsp
  | .blockCurrent rsp => .blockCurrent rsp
  | .exitCurrent rsp => .exitCurrent rsp
  | .unblock pid => .unblock pid

/-! ## The kernel -/

/-- `interrupts` is the flag and `pid` the task whose stack the CPU is on. A task that has not run has no thread. -/
structure Kernel where
  interrupts : Bool
  scheduler : Scheduler
  nextPid : Pid
  mem : Bytes.Memory
  pid : Pid
  threads : Pid → Option Thread

/-- What can happen next: the timer interrupts; the code of a task takes a guard, drops the one it has taken last, makes a call or spawns a
task; or whatever is under way goes on. The timer brings the stack pointer that `tick` would save. -/
inductive Act where
  | timer (rsp : Nat)
  | hold
  | release
  | api (api : Api)
  | spawn (name : String) (owner : OwnerId) (entry : UInt64) (kernelStack : KernelStack)
  | go
  deriving DecidableEq, Repr

namespace Kernel

/-- When the scheduler has been initialised. -/
def boot (interrupts : Bool) (scheduler : Scheduler) (mem : Bytes.Memory) : Kernel where
  interrupts := interrupts
  scheduler := scheduler
  nextPid := 2
  mem := mem
  pid := pidBootstrap
  threads := Function.update (fun _ => none) pidBootstrap (some ⟨.code, []⟩)

/-- The task on the CPU is at another point, with other flags. -/
@[simps]
def setThread (k : Kernel) (interrupts : Bool) (th : Thread) : Kernel :=
  { k with interrupts, threads := Function.update k.threads k.pid (some th) }

@[simps]
def setScheduler (k : Kernel) (scheduler : Scheduler) : Kernel := { k with scheduler }

@[simps]
def setPids (k : Kernel) (nextPid : Pid) (mem : Bytes.Memory) : Kernel := { k with nextPid, mem }

/-- `schedule` makes the task current that was picked, and `context_switch` goes to it. -/
def contextSwitch (k : Kernel) (frames : List Frame) (next : Process) : Kernel :=
  let k := k.setThread k.interrupts ⟨.leaving, frames⟩
  let k := { k with
    scheduler := { k.scheduler with current := some { next with state := .running, timeSliceRemaining := next.defaultTimeSlice } }
    pid := next.pid }
  match k.threads next.pid with
  | some _ => k
  | none => k.setThread true ⟨.code, []⟩

/-- What is under way goes on. A call that is done, or that switches, is returned with the task it switches to. -/
def go (k : Kernel) (th : Thread) : Option (Option (Scheduler.Call × Option Process) × Kernel) :=
  match th.doing with
  | .code =>
    match th.frames with
    | .irq saved resume :: frames => some (none, k.setThread saved ⟨resume, frames⟩)
    | _ => none
  | .calling goal => some (none, k.setThread k.interrupts ⟨.guarding k.interrupts goal, th.frames⟩)
  | .guarding saved .hold => some (none, k.setThread false ⟨.code, .guard saved :: th.frames⟩)
  | .guarding saved (.call call) => some (none, k.setThread false ⟨.inside call (.entry call), .guard saved :: th.frames⟩)
  | .inside call (.stashed next) => some (some (call, some next), k.contextSwitch th.frames next)
  | .inside call .done => some (some (call, none), k.setThread k.interrupts ⟨.leaving, th.frames⟩)
  | .inside call body =>
    (body.access k.scheduler).map fun (s, body) =>
      (none, (k.setScheduler s).setThread k.interrupts ⟨.inside call body, th.frames⟩)
  | .leaving =>
    match th.frames with
    | .guard saved :: frames => some (none, k.setThread saved ⟨.code, frames⟩)
    | _ => none

/-- Code runs, and not a handler that is about to return, and it is not that of the idle task. -/
def atCode (k : Kernel) (th : Thread) : Bool :=
  match th.doing, th.frames with
  | .code, .irq _ _ :: _ => false
  | .code, _ => k.pid ≠ pidIdle
  | _, _ => false

/-- One step. The trampoline is at the address that the linker has given it. Guards are dropped last in, first out, as Rust drops the
locals of a function. -/
def step (trampoline : UInt64) (k : Kernel) (act : Act) : Option (Option (Scheduler.Call × Option Process) × Kernel) := do
  let th ← k.threads k.pid
  match act with
  | .timer rsp =>
    if k.interrupts then some (none, k.setThread false ⟨.calling (.call (.tick rsp)), .irq true th.doing :: th.frames⟩) else none
  | .hold => if k.atCode th then some (none, k.setThread k.interrupts ⟨.calling .hold, th.frames⟩) else none
  | .release =>
    match k.atCode th, th.frames with
    | true, .guard saved :: frames => some (none, k.setThread saved ⟨.code, frames⟩)
    | _, _ => none
  | .api api => if k.atCode th then some (none, k.setThread k.interrupts ⟨.calling (.call api.call), th.frames⟩) else none
  | .spawn name owner entry kernelStack =>
    if k.atCode th then
      let (proc, nextPid, mem) ← Process.new trampoline k.nextPid k.mem name owner entry kernelStack defaultTimeSlice
      some (none, (k.setPids nextPid mem).setThread k.interrupts ⟨.calling (.call (.spawn proc)), th.frames⟩)
    else none
  | .go => k.go th

abbrev Event := Trace.Event Kernel Act (Option (Scheduler.Call × Option Process))

/-- The runs: any tasks, and interrupts at any time at which they are not masked. -/
abbrev Run (trampoline : UInt64) : Kernel → List Event → Kernel → Prop := Trace.Run (step trampoline) fun _ _ => True

end Kernel

end Sched

end GolemKernel
