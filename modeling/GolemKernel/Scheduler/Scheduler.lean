import GolemKernel.Scheduler.Process

/-!
# The round-robin scheduler

`src/scheduler/scheduler.rs`. A call holds the `IrqGuard` for its whole body, so it is a function from the scheduler to the scheduler.
`context_switch` makes the CPU continue as the task that was picked, at the stack pointer saved in it, and saves the stack pointer of
the task that was left. So a function that can switch takes that stack pointer (`rsp`) and returns the task that the CPU continues as,
if there was a switch; the state it returns is the one in which that task goes on.
-/

namespace GolemKernel

namespace Sched

/-- Ticks in the time slice of a process, if nothing else is said. -/
def defaultTimeSlice : Nat := 10

inductive SchedError where
  | notInitialized | alreadyInitialized | noSuchBlockedPid
  deriving DecidableEq, Repr

/-- `Scheduler`. `ready` is the queue, with its front first. -/
structure Scheduler where
  initialized : Bool
  ready : List Process
  current : Option Process
  idle : Option Process
  blocked : List Process
  defunct : List Process
  deriving DecidableEq, Repr

/-- `Vec::swap_remove`: the element, and the vector with its last element in that place. -/
def swapRemove {α : Type} (v : List α) (idx : Fin v.length) : α × List α :=
  (v.get idx, (v.set idx (v.getLastD (v.get idx))).dropLast)

namespace Scheduler

def new : Scheduler where
  initialized := false
  ready := []
  current := none
  idle := none
  blocked := []
  defunct := []

/-- `init`, with the memory that the idle process's stack is in. -/
def init (s : Scheduler) (trampoline : UInt64) (mem : Bytes.Memory) (bootstrapOwner : OwnerId) (idleStack : KernelStack)
    (idleEntry : UInt64) : Except SchedError Unit × Scheduler × Bytes.Memory :=
  if s.initialized then (.error .alreadyInitialized, s, mem)
  else
    let (idle, mem) := Process.newWithPid trampoline mem pidIdle "idle" bootstrapOwner idleEntry idleStack defaultTimeSlice
    (.ok (), { s with idle := some idle, current := some (.bootstrap bootstrapOwner), initialized := true }, mem)

def spawn (s : Scheduler) (proc : Process) : Pid × Scheduler :=
  let proc := { proc with state := .ready, timeSliceRemaining := proc.defaultTimeSlice }
  (proc.pid, { s with ready := s.ready ++ [proc] })

/-- The first part of `schedule`: reap, and decide whom to run next. `none` means that `schedule` returns. -/
def pickNext (s : Scheduler) : Option Process × Scheduler :=
  let s := { s with defunct := [] }
  match s.ready with
  | next :: rest => (some next, { s with ready := rest })
  | [] =>
    if s.current.any (·.state == .running) then (none, s)
    else
      match s.idle with
      | some idle => (some idle, { s with idle := none })
      | none => (none, s)

/-- The second part of `schedule`: the outgoing task goes where it belongs. -/
def stash (s : Scheduler) (curr : Process) : Scheduler :=
  match curr.state with
  | .running =>
    let curr := { curr with state := .ready, timeSliceRemaining := curr.defaultTimeSlice }
    if curr.pid = pidIdle then { s with idle := some curr } else { s with ready := s.ready ++ [curr] }
  | .ready => { s with ready := s.ready ++ [curr] }
  | .blocked => { s with blocked := s.blocked ++ [curr] }
  | .zombie => { s with defunct := s.defunct ++ [curr] }

def schedule (s : Scheduler) (rsp : Nat) : Option Process × Scheduler :=
  match s.pickNext with
  | (none, s) => (none, s)
  | (some next, s) =>
    let s :=
      match s.current with
      | some curr => { s with current := none }.stash { curr with kernelRsp := rsp }
      | none => s
    (some next, { s with current := some { next with state := .running, timeSliceRemaining := next.defaultTimeSlice } })

def tick (s : Scheduler) (rsp : Nat) : Option Process × Scheduler :=
  match s.current with
  | some curr =>
    if curr.state = .running then
      let remaining := if 0 < curr.timeSliceRemaining then curr.timeSliceRemaining - 1 else curr.timeSliceRemaining
      let s := { s with current := some { curr with timeSliceRemaining := remaining } }
      if remaining = 0 then s.schedule rsp else (none, s)
    else (none, s)
  | none => (none, s)

def yieldNow (s : Scheduler) (rsp : Nat) : Option Process × Scheduler := s.schedule rsp

/-- `exit_current`. A call that comes back from `schedule` panics. -/
def exitCurrent (s : Scheduler) (rsp : Nat) : Option (Process × Scheduler) :=
  let s := { s with current := s.current.map fun (curr : Process) => { curr with state := .zombie, timeSliceRemaining := 0 } }
  match s.schedule rsp with
  | (some next, s) => some (next, s)
  | (none, _) => none

def blockCurrent (s : Scheduler) (rsp : Nat) : Option Process × Scheduler :=
  let s := { s with current := s.current.map fun (curr : Process) => { curr with state := .blocked } }
  s.schedule rsp

def unblock (s : Scheduler) (pid : Pid) : Except SchedError Unit × Scheduler :=
  match s.blocked.findFinIdx? (·.pid == pid) with
  | none => (.error .noSuchBlockedPid, s)
  | some idx =>
    let (proc, blocked) := swapRemove s.blocked idx
    let proc := { proc with state := .ready, timeSliceRemaining := proc.defaultTimeSlice }
    (.ok (), { s with blocked, ready := s.ready ++ [proc] })

def currentPid (s : Scheduler) : Option Pid := s.current.map (·.pid)

/-! ## Calls -/

/-- A call of the scheduler after `init`. -/
inductive Call where
  | spawn (proc : Process)
  | tick (rsp : Nat)
  | yieldNow (rsp : Nat)
  | blockCurrent (rsp : Nat)
  | exitCurrent (rsp : Nat)
  | unblock (pid : Pid)
  deriving DecidableEq, Repr

/-- What a call does: the task that the CPU continues as, if there was a switch, and the scheduler. `none` is a panic. -/
def call (s : Scheduler) : Call → Option (Option Process × Scheduler)
  | .spawn proc => some (none, (s.spawn proc).2)
  | .tick rsp => some (s.tick rsp)
  | .yieldNow rsp => some (s.yieldNow rsp)
  | .blockCurrent rsp => some (s.blockCurrent rsp)
  | .exitCurrent rsp => (s.exitCurrent rsp).map fun (next, s) => (some next, s)
  | .unblock pid => some (none, (s.unblock pid).2)

end Scheduler

end Sched

end GolemKernel
