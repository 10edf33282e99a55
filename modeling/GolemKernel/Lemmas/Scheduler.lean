import GolemKernel.Lib.Trace
import GolemKernel.Scheduler.Scheduler

/-!
# What a call does to the scheduler

While the current task is running and the idle task is at hand (`Live`), a call that the idle task does not make to block or to exit
does one of the things that `Effect` lists, and does not panic (`effect_call`). Every invariant of the scheduler is a case analysis of
`Effect`: the tasks stay where their states say (`Filed`), the idle task stays out of the queue (`IdleApart`), and the number of tasks
with a pid changes only when one is spawned or exits (`Effect.count_pids`).
-/

namespace GolemKernel

namespace Sched

/-- A task that is put in the queue anew. -/
def Process.queued (p : Process) : Process := { p with state := .ready, timeSliceRemaining := p.defaultTimeSlice }

/-- A task that is given the CPU. -/
def Process.dispatched (p : Process) : Process := { p with state := .running, timeSliceRemaining := p.defaultTimeSlice }

@[simp] theorem Process.queued_pid (p : Process) : p.queued.pid = p.pid := rfl

@[simp] theorem Process.dispatched_pid (p : Process) : p.dispatched.pid = p.pid := rfl

/-- What `swap_remove` returns and what it leaves are the elements of the vector. -/
theorem perm_swapRemove {α : Type} (v : List α) (idx : Fin v.length) : ((swapRemove v idx).1 :: (swapRemove v idx).2).Perm v := by
  induction v using List.reverseRecOn with
  | nil => exact idx.elim0
  | append_singleton front last _ =>
    obtain ⟨i, hi⟩ := idx
    rcases Nat.lt_or_ge i front.length with hlt | hge
    · have hremove : swapRemove (front ++ [last]) ⟨i, hi⟩ = (front[i], front.set i last) := by
        simp [swapRemove, hlt]
      have hfront : front = front.take i ++ front[i] :: front.drop (i + 1) := by simp
      rw [hremove, List.set_eq_take_append_cons_drop, if_pos hlt]
      calc List.Perm (front[i] :: (front.take i ++ last :: front.drop (i + 1)))
            (front[i] :: last :: (front.take i ++ front.drop (i + 1))) := List.perm_middle.cons _
        List.Perm _ (last :: front[i] :: (front.take i ++ front.drop (i + 1))) := .swap _ _ _
        List.Perm _ (last :: (front.take i ++ front[i] :: front.drop (i + 1))) := List.perm_middle.symm.cons _
        List.Perm _ (front ++ [last]) := by
          rw [← hfront]
          exact (List.perm_append_singleton _ _).symm
    · have hlast : i = front.length := by
        simp only [List.length_append, List.length_singleton] at hi
        omega
      subst hlast
      have hremove : swapRemove (front ++ [last]) ⟨front.length, hi⟩ = (last, front) := by simp [swapRemove]
      rw [hremove]
      exact (List.perm_append_singleton _ _).symm

namespace Scheduler

variable {s s' : Scheduler} {c n : Process} {rsp : Nat}

/-! ## Effects -/

/-- The task that runs when the current one does not go on, and what it leaves of the queue and of the idle slot. -/
inductive Next (s : Scheduler) : Process → List Process → Option Process → Prop where
  | front {n : Process} {rest : List Process} (hready : s.ready = n :: rest) : Next s n rest s.idle
  | idle {i : Process} (hready : s.ready = []) (hidle : s.idle = some i) : Next s i [] none

/-- What a call can do while `c` runs. -/
inductive Effect (s : Scheduler) (c : Process) : Call → Option Process → Scheduler → Prop where
  | spawn (proc : Process) : Effect s c (.spawn proc) none { s with ready := s.ready ++ [proc.queued] }
  | wake (proc : Process) (rest : List Process) (hperm : (proc :: rest).Perm s.blocked) :
      Effect s c (.unblock proc.pid) none { s with blocked := rest, ready := s.ready ++ [proc.queued] }
  | missing (pid : Pid) : Effect s c (.unblock pid) none s
  | charge (rsp : Nat) (hleft : 1 < c.timeSliceRemaining) :
      Effect s c (.tick rsp) none { s with current := some { c with timeSliceRemaining := c.timeSliceRemaining - 1 } }
  /-- Nobody else is waiting. -/
  | keep (call : Call) (remaining : Nat) (hready : s.ready = [])
      (hcall : (∃ rsp, call = .tick rsp) ∧ c.timeSliceRemaining ≤ 1 ∧ remaining = 0 ∨
        (∃ rsp, call = .yieldNow rsp) ∧ remaining = c.timeSliceRemaining) :
      Effect s c call none { s with current := some { c with timeSliceRemaining := remaining }, defunct := [] }
  | rotate (call : Call) (rsp : Nat) (n : Process) (rest : List Process)
      (hcall : call = .tick rsp ∧ c.timeSliceRemaining ≤ 1 ∨ call = .yieldNow rsp) (hready : s.ready = n :: rest)
      (hidle : c.pid ≠ pidIdle) :
      Effect s c call (some n)
        { s with ready := rest ++ [{ c with kernelRsp := rsp }.queued], current := some n.dispatched, defunct := [] }
  | leaveIdle (call : Call) (rsp : Nat) (n : Process) (rest : List Process)
      (hcall : call = .tick rsp ∧ c.timeSliceRemaining ≤ 1 ∨ call = .yieldNow rsp) (hready : s.ready = n :: rest)
      (hidle : c.pid = pidIdle) :
      Effect s c call (some n)
        { s with ready := rest, idle := some { c with kernelRsp := rsp }.queued, current := some n.dispatched, defunct := [] }
  | block (rsp : Nat) (n : Process) (ready : List Process) (idle : Option Process) (hidle : c.pid ≠ pidIdle)
      (hnext : s.Next n ready idle) :
      Effect s c (.blockCurrent rsp) (some n)
        { s with ready, idle, current := some n.dispatched,
                 blocked := s.blocked ++ [{ c with kernelRsp := rsp, state := .blocked }], defunct := [] }
  | exit (rsp : Nat) (n : Process) (ready : List Process) (idle : Option Process) (hidle : c.pid ≠ pidIdle)
      (hnext : s.Next n ready idle) :
      Effect s c (.exitCurrent rsp) (some n)
        { s with ready, idle, current := some n.dispatched,
                 defunct := [{ c with kernelRsp := rsp, state := .zombie, timeSliceRemaining := 0 }] }

/-- The idle task neither blocks nor exits. -/
def permitted (s : Scheduler) : Call → Prop
  | .blockCurrent _ => s.currentPid ≠ some pidIdle
  | .exitCurrent _ => s.currentPid ≠ some pidIdle
  | _ => True

/-- `c` is running, and the idle task is in its slot unless it is `c`. -/
structure Live (s : Scheduler) (c : Process) : Prop where
  current : s.current = some c
  running : c.state = .running
  idle_pid : ∀ i, s.idle = some i → i.pid = pidIdle
  idle_some : c.pid ≠ pidIdle → ∃ i, s.idle = some i

/-- The current pid is that of the current task. -/
theorem Live.currentPid (h : Live s c) : s.currentPid = some c.pid := by
  rw [Scheduler.currentPid, h.current, Option.map_some]

/-! ## `schedule` -/

/-- With nothing else ready the running task goes on. -/
theorem schedule_keep (hrunning : c.state = .running) (hready : s.ready = []) :
    { s with current := some c }.schedule rsp = (none, { s with current := some c, defunct := [] }) := by
  simp [schedule, pickNext, hrunning, hready]

/-- A switch to the front of the queue, or to the idle task if the queue is empty and the current task is not running. -/
theorem schedule_next {ready : List Process} {idle : Option Process} (hstate : c.state ≠ .running ∨ s.ready ≠ [])
    (hnext : s.Next n ready idle) :
    { s with current := some c }.schedule rsp =
      (some n, { { s with ready, idle, current := none, defunct := [] }.stash { c with kernelRsp := rsp } with
        current := some n.dispatched }) := by
  cases hnext with
  | front hready => simp [schedule, pickNext, hready, Process.dispatched]
  | idle hready hidle =>
    have hstopped : c.state ≠ .running := hstate.resolve_right (not_not.mpr hready)
    simp [schedule, pickNext, hready, hidle, hstopped, Process.dispatched]

/-- Unless the idle task runs, there is a task to go to. -/
theorem Live.exists_next (h : Live s c) (hidle : c.pid ≠ pidIdle) : ∃ n ready idle, s.Next n ready idle := by
  rcases eq_or_ne s.ready [] with hready | hne
  · obtain ⟨i, hi⟩ := h.idle_some hidle
    exact ⟨i, [], none, .idle hready hi⟩
  · obtain ⟨n, rest, hready⟩ := List.exists_cons_of_ne_nil hne
    exact ⟨n, rest, s.idle, .front hready⟩

/-! ## Calls -/

/-- What `schedule` does for a task that is running, at the end of its slice or on its own wish. -/
theorem effect_schedule {call : Call} {remaining : Nat} (h : Live s c)
    (hcall : call = .tick rsp ∧ c.timeSliceRemaining ≤ 1 ∧ remaining = 0 ∨ call = .yieldNow rsp ∧ remaining = c.timeSliceRemaining) :
    Effect s c call ({ s with current := some { c with timeSliceRemaining := remaining } }.schedule rsp).1
      ({ s with current := some { c with timeSliceRemaining := remaining } }.schedule rsp).2 := by
  rcases eq_or_ne s.ready [] with hready | hne
  · rw [schedule_keep (c := { c with timeSliceRemaining := remaining }) h.running hready]
    exact .keep call remaining hready (hcall.imp (And.imp_left fun h => ⟨rsp, h⟩) (And.imp_left fun h => ⟨rsp, h⟩))
  · obtain ⟨n, rest, hready⟩ := List.exists_cons_of_ne_nil hne
    have hcall' : call = .tick rsp ∧ c.timeSliceRemaining ≤ 1 ∨ call = .yieldNow rsp :=
      hcall.imp (fun h => ⟨h.1, h.2.1⟩) And.left
    rw [schedule_next (.inr hne) (.front hready)]
    by_cases hidle : c.pid = pidIdle
    · have heffect := Effect.leaveIdle (s := s) call rsp n rest hcall' hready hidle
      simpa [stash, h.running, hidle, Process.queued] using heffect
    · have heffect := Effect.rotate (s := s) call rsp n rest hcall' hready hidle
      simpa [stash, h.running, hidle, Process.queued] using heffect

/-- What a tick does is one of the effects. -/
theorem effect_tick (h : Live s c) : Effect s c (.tick rsp) (s.tick rsp).1 (s.tick rsp).2 := by
  have htick : s.tick rsp =
      let remaining := if 0 < c.timeSliceRemaining then c.timeSliceRemaining - 1 else c.timeSliceRemaining
      let s := { s with current := some { c with timeSliceRemaining := remaining } }
      if remaining = 0 then s.schedule rsp else (none, s) := by
    simp [tick, h.current, h.running]
  rw [htick]
  dsimp only
  rcases Nat.lt_or_ge 1 c.timeSliceRemaining with hleft | hlast
  · have hsome : ¬c.timeSliceRemaining - 1 = 0 := by omega
    rw [if_pos (Nat.lt_trans Nat.zero_lt_one hleft), if_neg hsome]
    exact .charge rsp hleft
  · have hnone : (if 0 < c.timeSliceRemaining then c.timeSliceRemaining - 1 else c.timeSliceRemaining) = 0 := by
      split <;> omega
    rw [hnone, if_pos rfl]
    exact effect_schedule h (.inl ⟨rfl, hlast, rfl⟩)

/-- What `yield_now` does is one of the effects. -/
theorem effect_yieldNow (h : Live s c) : Effect s c (.yieldNow rsp) (s.yieldNow rsp).1 (s.yieldNow rsp).2 := by
  have hsame : { s with current := some { c with timeSliceRemaining := c.timeSliceRemaining } } = s := by
    rw [← h.current]
  have heffect : Effect s c (.yieldNow rsp) _ _ := effect_schedule h (.inr ⟨rfl, rfl⟩)
  rwa [hsame] at heffect

/-- What `block_current` does is one of the effects, unless the idle task calls it. -/
theorem effect_blockCurrent (h : Live s c) (hidle : c.pid ≠ pidIdle) :
    Effect s c (.blockCurrent rsp) (s.blockCurrent rsp).1 (s.blockCurrent rsp).2 := by
  obtain ⟨n, ready, idle, hnext⟩ := h.exists_next hidle
  unfold blockCurrent
  rw [h.current, Option.map_some, schedule_next (.inl (by simp)) hnext]
  exact .block rsp n ready idle hidle hnext

/-- `exit_current` always finds another task, unless the idle task calls it, and does not panic. -/
theorem effect_exitCurrent (h : Live s c) (hidle : c.pid ≠ pidIdle) (rsp : Nat) :
    ∃ n s', s.exitCurrent rsp = some (n, s') ∧ Effect s c (.exitCurrent rsp) (some n) s' := by
  obtain ⟨n, ready, idle, hnext⟩ := h.exists_next hidle
  unfold exitCurrent
  dsimp only
  rw [h.current, Option.map_some, schedule_next (.inl (by simp)) hnext]
  exact ⟨n, _, rfl, .exit rsp n ready idle hidle hnext⟩

/-- What `unblock` does is one of the effects. -/
theorem effect_unblock (pid : Pid) : Effect s c (.unblock pid) none (s.unblock pid).2 := by
  unfold unblock
  split
  · exact .missing pid
  · rename_i idx hidx
    have hpid : (s.blocked.get idx).pid = pid := by
      simpa using (List.findFinIdx?_eq_some_iff.mp hidx).1
    rw [← hpid]
    exact .wake (s.blocked.get idx) _ (perm_swapRemove s.blocked idx)

/-- A call that is permitted does not panic, and has one of the effects. -/
theorem effect_call (h : Live s c) (call : Call) (hpermitted : s.permitted call) :
    ∃ out s', s.call call = some (out, s') ∧ Effect s c call out s' := by
  have hpid : s.currentPid ≠ some pidIdle → c.pid ≠ pidIdle := by
    intro hne heq
    exact hne (heq ▸ h.currentPid)
  cases call with
  | spawn proc => exact ⟨_, _, rfl, .spawn proc⟩
  | tick rsp => exact ⟨_, _, rfl, effect_tick h⟩
  | yieldNow rsp => exact ⟨_, _, rfl, effect_yieldNow h⟩
  | blockCurrent rsp => exact ⟨_, _, rfl, effect_blockCurrent h (hpid hpermitted)⟩
  | exitCurrent rsp =>
    obtain ⟨n, s', hexit, heffect⟩ := effect_exitCurrent h (hpid hpermitted) rsp
    exact ⟨some n, s', by rw [call, hexit, Option.map_some], heffect⟩
  | unblock pid => exact ⟨_, _, rfl, effect_unblock pid⟩

/-! ## Places -/

/-- The tasks that stay ready were ready. -/
theorem Next.subset {ready : List Process} {idle : Option Process} (h : s.Next n ready idle) : ready ⊆ s.ready := by
  cases h with
  | front hready =>
    rw [hready]
    exact List.subset_cons_self _ _
  | idle => exact List.nil_subset _

/-- The idle slot after a task has left the CPU for good or for a while: it is empty only if the idle task runs now. -/
theorem Live.of_next {ready : List Process} {idle : Option Process} (h : Live s c) (hidle : c.pid ≠ pidIdle)
    (hnext : s.Next n ready idle) : (∀ i, idle = some i → i.pid = pidIdle) ∧ (n.pid ≠ pidIdle → ∃ i, idle = some i) := by
  cases hnext with
  | front => exact ⟨h.idle_pid, fun _ => h.idle_some hidle⟩
  | idle _ hi => exact ⟨fun _ hnone => (Option.some_ne_none _ hnone.symm).elim, fun hne => absurd (h.idle_pid _ hi) hne⟩

/-- Some task is current after every call. -/
theorem Live.of_effect (h : Live s c) {call : Call} {out : Option Process} (heffect : Effect s c call out s') : ∃ c', Live s' c' := by
  cases heffect with
  | spawn => exact ⟨c, h.current, h.running, h.idle_pid, h.idle_some⟩
  | wake => exact ⟨c, h.current, h.running, h.idle_pid, h.idle_some⟩
  | missing => exact ⟨c, h⟩
  | charge => exact ⟨_, rfl, h.running, h.idle_pid, h.idle_some⟩
  | keep => exact ⟨_, rfl, h.running, h.idle_pid, h.idle_some⟩
  | rotate _ _ n _ _ _ hidle => exact ⟨n.dispatched, rfl, rfl, h.idle_pid, fun _ => h.idle_some hidle⟩
  | leaveIdle _ rsp n _ _ _ hidle =>
    refine ⟨n.dispatched, rfl, rfl, ?_, fun _ => ⟨_, rfl⟩⟩
    intro i hi
    obtain rfl := Option.some.inj hi
    exact hidle
  | block _ n _ _ hidle hnext => exact ⟨n.dispatched, rfl, rfl, (h.of_next hidle hnext).1, (h.of_next hidle hnext).2⟩
  | exit _ n _ _ hidle hnext => exact ⟨n.dispatched, rfl, rfl, (h.of_next hidle hnext).1, (h.of_next hidle hnext).2⟩

/-- Every task is where its state says, and the idle task is nowhere but in its slot or on the CPU. -/
structure Placed (s : Scheduler) : Prop where
  ready : ∀ p ∈ s.ready, p.state = .ready ∧ p.pid ≠ pidIdle
  blocked : ∀ p ∈ s.blocked, p.state = .blocked ∧ p.pid ≠ pidIdle
  defunct : ∀ p ∈ s.defunct, p.state = .zombie
  defunct_length : s.defunct.length ≤ 1
  idle_none : ∀ p, s.current = some p → p.pid = pidIdle → s.idle = none

/-- No task is spawned under the pid of the idle task. -/
def Call.KeepsIdlePid (call : Call) : Prop := ∀ proc, call = .spawn proc → proc.pid ≠ pidIdle

/-- Every call leaves the tasks in their places. -/
theorem Placed.of_effect (h : Placed s) (hlive : Live s c) {call : Call} (hspawn : call.KeepsIdlePid) {out : Option Process}
    (heffect : Effect s c call out s') : Placed s' := by
  have hnone : ∀ p ∈ ([] : List Process), p.state = .zombie := by simp
  have hsame : ∀ (remaining : Nat) (p : Process), some { c with timeSliceRemaining := remaining } = some p → p.pid = pidIdle →
      s.idle = none := by
    intro remaining p hp hpid
    obtain rfl := Option.some.inj hp
    exact h.idle_none c hlive.current hpid
  -- the task that is dispatched comes from the queue, so it is not the idle task, or from the idle slot, which is then empty
  have hnext : ∀ {n ready idle}, s.Next n ready idle → ∀ p, some n.dispatched = some p → p.pid = pidIdle → idle = none := by
    intro n ready idle hnext p hp hpid
    obtain rfl := Option.some.inj hp
    cases hnext with
    | front hready => exact absurd hpid (h.ready n (by simp [hready])).2
    | idle => rfl
  cases heffect with
  | spawn proc =>
    refine ⟨?_, h.blocked, h.defunct, h.defunct_length, h.idle_none⟩
    exact List.forall_mem_append.mpr ⟨h.ready, List.forall_mem_singleton.mpr ⟨rfl, hspawn proc rfl⟩⟩
  | wake proc rest hperm =>
    have hblocked : ∀ p ∈ proc :: rest, p.state = .blocked ∧ p.pid ≠ pidIdle := fun p hp => h.blocked p (hperm.subset hp)
    obtain ⟨hproc, hrest⟩ := List.forall_mem_cons.mp hblocked
    refine ⟨?_, hrest, h.defunct, h.defunct_length, h.idle_none⟩
    exact List.forall_mem_append.mpr ⟨h.ready, List.forall_mem_singleton.mpr ⟨rfl, hproc.2⟩⟩
  | missing => exact h
  | charge => exact ⟨h.ready, h.blocked, h.defunct, h.defunct_length, hsame _⟩
  | keep => exact ⟨h.ready, h.blocked, hnone, Nat.zero_le 1, hsame _⟩
  | rotate _ _ n rest _ hready hidle =>
    refine ⟨?_, h.blocked, hnone, Nat.zero_le 1, hnext (.front hready)⟩
    exact List.forall_mem_append.mpr ⟨fun p hp => h.ready p (by simp [hready, hp]), List.forall_mem_singleton.mpr ⟨rfl, hidle⟩⟩
  | leaveIdle _ _ n rest _ hready =>
    refine ⟨fun p hp => h.ready p (by simp [hready, hp]), h.blocked, hnone, Nat.zero_le 1, ?_⟩
    intro p hp hpid
    obtain rfl := Option.some.inj hp
    exact absurd hpid (h.ready n (by simp [hready])).2
  | block rsp n ready idle hidle hn =>
    refine ⟨fun p hp => h.ready p (hn.subset hp), ?_, hnone, Nat.zero_le 1, hnext hn⟩
    exact List.forall_mem_append.mpr ⟨h.blocked, List.forall_mem_singleton.mpr ⟨rfl, hidle⟩⟩
  | exit rsp n ready idle hidle hn =>
    exact ⟨fun p hp => h.ready p (hn.subset hp), h.blocked, List.forall_mem_singleton.mpr rfl, le_rfl, hnext hn⟩

/-! ## The number of tasks with a pid -/

/-- The tasks that have not exited. -/
def tasks (s : Scheduler) : List Process := s.ready ++ s.current.toList ++ s.idle.toList ++ s.blocked

def pids (s : Scheduler) : List Pid := s.tasks.map (·.pid)

/-- The pid that a call adds. -/
def Call.spawned : Call → List Pid
  | .spawn proc => [proc.pid]
  | _ => []

/-- The pid of the task that exits. -/
def exits (s : Scheduler) : Call → List Pid
  | .exitCurrent _ => s.currentPid.toList
  | _ => []

/-- How many of these tasks have a pid. -/
def held (x : Pid) (ps : List Process) : Nat := (ps.map (·.pid)).count x

@[simp] theorem held_nil (x : Pid) : held x [] = 0 := rfl

@[simp] theorem held_cons (x : Pid) (p : Process) (ps : List Process) : held x (p :: ps) = [p.pid].count x + held x ps := by
  rw [held, held, List.map_cons, ← List.singleton_append, List.count_append]

@[simp] theorem held_append (x : Pid) (ps qs : List Process) : held x (ps ++ qs) = held x ps + held x qs := by
  rw [held, List.map_append, List.count_append, held, held]

/-- A pid is counted in each of the four places. -/
theorem count_pids (s : Scheduler) (x : Pid) :
    s.pids.count x = held x s.ready + held x s.current.toList + held x s.idle.toList + held x s.blocked := by
  rw [← held_append, ← held_append, ← held_append]
  rfl

/-- The task that is dispatched was in the queue or in the idle slot. -/
theorem Next.held {ready : List Process} {idle : Option Process} (h : s.Next n ready idle) (x : Pid) :
    held x s.ready + held x s.idle.toList = [n.pid].count x + held x ready + held x idle.toList := by
  cases h with
  | front hready => rw [hready, held_cons]
  | idle hready hidle => simp only [hready, hidle, Option.toList_some, Option.toList_none, held_cons, held_nil, Nat.zero_add]

/-- A call adds the task that it spawns, and takes away the one that exits. -/
theorem Effect.count_pids (h : Placed s) (hlive : Live s c) {call : Call} {out : Option Process} (heffect : Effect s c call out s')
    (x : Pid) : s'.pids.count x + (s.exits call).count x = s.pids.count x + call.spawned.count x := by
  have hcurrent : s.current.toList = [c] := by rw [hlive.current, Option.toList_some]
  rw [Scheduler.count_pids, Scheduler.count_pids]
  cases heffect with
  | spawn proc =>
    simp only [exits, Call.spawned, held_append, held_cons, held_nil, Process.queued_pid, List.count_nil]
    omega
  | wake proc rest hperm =>
    have hblocked : Scheduler.held x (proc :: rest) = Scheduler.held x s.blocked := (hperm.map _).count_eq x
    rw [held_cons] at hblocked
    simp only [exits, Call.spawned, held_append, held_cons, held_nil, Process.queued_pid]
    omega
  | missing => rfl
  | charge =>
    simp only [exits, Call.spawned, hcurrent, Option.toList_some, held_cons]
  | keep call remaining hready hcall =>
    rcases hcall with ⟨⟨rsp, rfl⟩, -⟩ | ⟨⟨rsp, rfl⟩, -⟩
    all_goals simp only [exits, Call.spawned, hcurrent, Option.toList_some, held_cons]
  | rotate call rsp n rest hcall hready hidle =>
    rcases hcall with ⟨rfl, -⟩ | rfl
    all_goals
      simp only [exits, Call.spawned, hcurrent, hready, Option.toList_some, held_append, held_cons, held_nil, Process.queued_pid,
        Process.dispatched_pid]
      omega
  | leaveIdle call rsp n rest hcall hready hidle =>
    have hslot : s.idle = none := h.idle_none c hlive.current hidle
    rcases hcall with ⟨rfl, -⟩ | rfl
    all_goals
      simp only [exits, Call.spawned, hcurrent, hready, hslot, Option.toList_some, Option.toList_none, held_cons, held_nil,
        Process.queued_pid, Process.dispatched_pid]
      omega
  | block rsp n ready idle hidle hn =>
    have hheld := hn.held x
    simp only [exits, Call.spawned, hcurrent, Option.toList_some, held_append, held_cons, held_nil, Process.dispatched_pid]
    omega
  | exit rsp n ready idle hidle hn =>
    have hheld := hn.held x
    have hexits : s.exits (.exitCurrent rsp) = [c.pid] := by rw [exits, hlive.currentPid, Option.toList_some]
    simp only [hexits, Call.spawned, hcurrent, Option.toList_some, held_cons, held_nil, Process.dispatched_pid, List.count_nil]
    omega

/-! ## Time slices -/

def Call.isTick : Call → Bool
  | .tick _ => true
  | _ => false

/-- The ticks that the current task has left. -/
def remaining (s : Scheduler) : Nat := (s.current.map (·.timeSliceRemaining)).getD 0

/-- No task has a slice of more than `D` ticks. -/
structure Within (D : Nat) (s : Scheduler) : Prop where
  ready : ∀ p ∈ s.ready, p.defaultTimeSlice ≤ D
  current : ∀ p, s.current = some p → p.defaultTimeSlice ≤ D
  idle : ∀ p, s.idle = some p → p.defaultTimeSlice ≤ D
  blocked : ∀ p ∈ s.blocked, p.defaultTimeSlice ≤ D
  remaining : s.remaining ≤ D

/-- No task is spawned with a slice of more than `D` ticks. -/
def Call.Within (D : Nat) (call : Call) : Prop := ∀ proc, call = .spawn proc → proc.defaultTimeSlice ≤ D

variable {D : Nat}

/-- The bound on the time slices holds of the next task and of the idle task that is left. -/
theorem Within.of_next (h : Within D s) {ready : List Process} {idle : Option Process} (hnext : s.Next n ready idle) :
    n.defaultTimeSlice ≤ D ∧ ∀ p, idle = some p → p.defaultTimeSlice ≤ D := by
  cases hnext with
  | front hready => exact ⟨h.ready n (by simp [hready]), h.idle⟩
  | idle _ hidle => exact ⟨h.idle n hidle, by simp⟩

/-- And every call keeps it. -/
theorem Within.of_effect (h : Within D s) (hlive : Live s c) {call : Call} (hspawn : call.Within D) {out : Option Process}
    (heffect : Effect s c call out s') : Within D s' := by
  have hc : c.defaultTimeSlice ≤ D := h.current c hlive.current
  have hleft : c.timeSliceRemaining ≤ D := by simpa [Scheduler.remaining, hlive.current] using h.remaining
  have hsome : ∀ {q : Process}, q.defaultTimeSlice ≤ D → ∀ p, some q = some p → p.defaultTimeSlice ≤ D := by
    intro q hq p hp
    rwa [← Option.some.inj hp]
  have hqueue : ∀ {ps : List Process} {q : Process}, (∀ p ∈ ps, p.defaultTimeSlice ≤ D) → q.defaultTimeSlice ≤ D →
      ∀ p ∈ ps ++ [q], p.defaultTimeSlice ≤ D := by
    intro ps q hps hq
    exact List.forall_mem_append.mpr ⟨hps, List.forall_mem_singleton.mpr hq⟩
  cases heffect with
  | spawn proc => exact ⟨hqueue h.ready (hspawn proc rfl), h.current, h.idle, h.blocked, h.remaining⟩
  | wake proc rest hperm =>
    obtain ⟨hproc, hrest⟩ := List.forall_mem_cons.mp fun p hp => h.blocked p (hperm.subset hp)
    exact ⟨hqueue h.ready hproc, h.current, h.idle, hrest, h.remaining⟩
  | missing => exact h
  | charge => exact ⟨h.ready, hsome hc, h.idle, h.blocked, (Nat.sub_le _ _).trans hleft⟩
  | keep call remaining _ hcall =>
    refine ⟨h.ready, hsome hc, h.idle, h.blocked, ?_⟩
    rcases hcall with ⟨-, -, rfl⟩ | ⟨-, rfl⟩
    · exact Nat.zero_le D
    · exact hleft
  | rotate _ _ n rest _ hready =>
    have hn := h.of_next (.front hready)
    exact ⟨hqueue (fun p hp => h.ready p (by simp [hready, hp])) hc, hsome hn.1, h.idle, h.blocked, hn.1⟩
  | leaveIdle _ _ n rest _ hready =>
    have hn := h.of_next (.front hready)
    exact ⟨fun p hp => h.ready p (by simp [hready, hp]), hsome hn.1, hsome hc, h.blocked, hn.1⟩
  | block _ n _ _ _ hnext =>
    have hn := h.of_next hnext
    exact ⟨fun p hp => h.ready p (hnext.subset hp), hsome hn.1, hn.2, hqueue h.blocked hc, hn.1⟩
  | exit _ n _ _ _ hnext =>
    have hn := h.of_next hnext
    exact ⟨fun p hp => h.ready p (hnext.subset hp), hsome hn.1, hn.2, h.blocked, hn.1⟩

/-- A bound on the ticks until the task at place `j` of the queue is dispatched: a slice for every task before it, and what the current
task has left. A slice that is used up still takes the tick that ends it. -/
def wait (D j : Nat) (s : Scheduler) : Nat := j * D + max s.remaining 1

/-- A switch dispatches the task at the front of the queue and moves every other one place forward, for at least a tick less to wait. -/
theorem Next.wait (hD : 1 ≤ D) (h : Within D s) {ready more : List Process} {idle : Option Process} (hnext : s.Next n ready idle)
    (hready : s'.ready = ready ++ more) (hcurrent : s'.current = some n.dispatched) {j : Nat} {p : Process}
    (hp : s.ready[j]? = some p) :
    (n = p ∧ j = 0) ∨ ∃ i, j = i + 1 ∧ s'.ready[i]? = some p ∧ 1 + s'.wait D i ≤ s.wait D j := by
  have hn : n.defaultTimeSlice ≤ D := (h.of_next hnext).1
  cases hnext with
  | front hqueue =>
    rw [hqueue] at hp
    cases j with
    | zero => exact .inl ⟨Option.some.inj hp, rfl⟩
    | succ i =>
      rw [List.getElem?_cons_succ] at hp
      refine .inr ⟨i, rfl, ?_, ?_⟩
      · rw [hready, List.getElem?_append_left (List.getElem?_eq_some_iff.mp hp).1, hp]
      · have hslice : s'.remaining = n.defaultTimeSlice := by simp [Scheduler.remaining, hcurrent, Process.dispatched]
        simp only [Scheduler.wait, hslice, Nat.add_mul, Nat.one_mul]
        omega
  | idle hempty =>
    rw [hempty] at hp
    cases hp

/-- What a call does to a task that waits at place `j`: it stays there, or it is dispatched, or it moves one place forward. In the first
and the last case a tick is paid for. -/
theorem Effect.wait (hD : 1 ≤ D) (h : Within D s) (hlive : Live s c) {call : Call} {out : Option Process}
    (heffect : Effect s c call out s') {j : Nat} {p : Process} (hp : s.ready[j]? = some p) :
    (out = none ∧ s'.ready[j]? = some p ∧ call.isTick.toNat + s'.wait D j ≤ s.wait D j) ∨
      ∃ n, out = some n ∧ ((n = p ∧ j = 0) ∨ ∃ i, j = i + 1 ∧ s'.ready[i]? = some p ∧ 1 + s'.wait D i ≤ s.wait D j) := by
  have hlater : ∀ q : Process, (s.ready ++ [q])[j]? = some p := by
    intro q
    rw [List.getElem?_append_left (List.getElem?_eq_some_iff.mp hp).1, hp]
  cases heffect with
  | spawn proc => exact .inl ⟨rfl, hlater _, (Nat.zero_add _).le⟩
  | wake proc => exact .inl ⟨rfl, hlater _, (Nat.zero_add _).le⟩
  | missing => exact .inl ⟨rfl, hp, (Nat.zero_add _).le⟩
  | charge rsp hlt =>
    refine .inl ⟨rfl, hp, ?_⟩
    simp only [Scheduler.wait, Scheduler.remaining, hlive.current, Call.isTick, Bool.toNat_true, Option.map_some, Option.getD_some]
    omega
  | keep _ _ hready =>
    rw [hready] at hp
    cases hp
  | rotate _ _ n rest _ hready => exact .inr ⟨n, rfl, Next.wait hD h (.front hready) rfl rfl hp⟩
  | leaveIdle _ _ n rest _ hready => exact .inr ⟨n, rfl, Next.wait hD h (.front hready) (List.append_nil _).symm rfl hp⟩
  | block _ n _ _ _ hnext => exact .inr ⟨n, rfl, hnext.wait hD h (List.append_nil _).symm rfl hp⟩
  | exit _ n _ _ _ hnext => exact .inr ⟨n, rfl, hnext.wait hD h (List.append_nil _).symm rfl hp⟩

/-- The ticks of a slice: a call that does not switch takes at most as many from the current task as it counts, and a switch gives the
new one its whole slice. -/
theorem Effect.slice (hlive : Live s c) {call : Call} {out : Option Process} (heffect : Effect s c call out s') :
    (out = none ∧ ∃ c', s'.current = some c' ∧ c'.defaultTimeSlice = c.defaultTimeSlice ∧
        c.timeSliceRemaining ≤ c'.timeSliceRemaining + call.isTick.toNat) ∨
      ∃ n, out = some n ∧ s'.current = some n.dispatched := by
  cases heffect with
  | spawn => exact .inl ⟨rfl, c, hlive.current, rfl, Nat.le_add_right _ _⟩
  | wake => exact .inl ⟨rfl, c, hlive.current, rfl, Nat.le_add_right _ _⟩
  | missing => exact .inl ⟨rfl, c, hlive.current, rfl, Nat.le_add_right _ _⟩
  | charge rsp hlt =>
    refine .inl ⟨rfl, _, rfl, rfl, ?_⟩
    simp only [Call.isTick, Bool.toNat_true]
    omega
  | keep call remaining _ hcall =>
    refine .inl ⟨rfl, _, rfl, rfl, ?_⟩
    rcases hcall with ⟨⟨rsp, rfl⟩, hlast, -⟩ | ⟨-, rfl⟩
    · exact hlast.trans (Nat.le_add_left _ _)
    · exact Nat.le_add_right _ _
  | rotate _ _ n => exact .inr ⟨n, rfl, rfl⟩
  | leaveIdle _ _ n => exact .inr ⟨n, rfl, rfl⟩
  | block _ n => exact .inr ⟨n, rfl, rfl⟩
  | exit _ n => exact .inr ⟨n, rfl, rfl⟩

/-- A tick that switches ends a slice. -/
theorem Effect.slice_over (heffect : Effect s c (.tick rsp) (some n) s') : c.timeSliceRemaining ≤ 1 := by
  cases heffect with
  | rotate _ _ _ _ hcall =>
    rcases hcall with ⟨-, hlast⟩ | hyield
    · exact hlast
    · cases hyield
  | leaveIdle _ _ _ _ hcall =>
    rcases hcall with ⟨-, hlast⟩ | hyield
    · exact hlast
    · cases hyield

/-! ## The start -/

/-- What `init` leaves: the bootstrap context runs, the idle task is in its slot, and there is nothing else. -/
theorem eq_of_init {trampoline idleEntry : UInt64} {mem mem' : Bytes.Memory} {owner : OwnerId} {idleStack : KernelStack}
    (hinit : new.init trampoline mem owner idleStack idleEntry = (.ok (), s, mem')) :
    ∃ idle : Process, s = ⟨true, [], some (.bootstrap owner), some idle, [], []⟩ ∧ idle.pid = pidIdle ∧
      idle.defaultTimeSlice = Sched.defaultTimeSlice := by
  have hs : (new.init trampoline mem owner idleStack idleEntry).2.1 = s := by rw [hinit]
  exact ⟨_, hs.symm, rfl, rfl⟩

/-- At the start the bootstrap is the current task. -/
theorem live_start (owner : OwnerId) {idle : Process} (hpid : idle.pid = pidIdle) :
    Live ⟨true, [], some (.bootstrap owner), some idle, [], []⟩ (.bootstrap owner) := by
  refine ⟨rfl, rfl, ?_, fun _ => ⟨idle, rfl⟩⟩
  intro i hi
  rwa [← Option.some.inj hi]

/-- There are two tasks at the start. -/
theorem pids_start (owner : OwnerId) {idle : Process} (hpid : idle.pid = pidIdle) :
    pids ⟨true, [], some (.bootstrap owner), some idle, [], []⟩ = [pidBootstrap, pidIdle] := by
  simp [pids, tasks, Process.bootstrap, hpid]

/-- And they are in their places. -/
theorem placed_start (owner : OwnerId) (idle : Process) : Placed ⟨true, [], some (.bootstrap owner), some idle, [], []⟩ := by
  refine ⟨by simp, by simp, by simp, Nat.zero_le 1, ?_⟩
  intro p hp hidle
  obtain rfl := Option.some.inj hp
  have hne : pidBootstrap ≠ pidIdle := by decide
  exact absurd hidle hne

/-- The bootstrap has no time slice, so any bound on that of the idle task will do. -/
theorem within_start (owner : OwnerId) {idle : Process} (hidle : idle.defaultTimeSlice ≤ D) :
    Within D ⟨true, [], some (.bootstrap owner), some idle, [], []⟩ := by
  refine ⟨by simp, ?_, ?_, by simp, Nat.zero_le D⟩
  · intro p hp
    obtain rfl := Option.some.inj hp
    exact Nat.zero_le D
  · intro p hp
    rwa [← Option.some.inj hp]

end Scheduler

end Sched

end GolemKernel
