import GolemKernel.Lemmas.Scheduler

/-!
# Runs of the scheduler

A run starts in what `init` leaves and makes any calls, the idle task not blocking or exiting (`Run`). The events of a run say which
tasks were spawned, which exited and which were dispatched. No task is lost or duplicated (`no_task_lost`), and a task in the queue is
dispatched after at most so many ticks as the tasks before it and the current one can take (`round_robin_bounds`).
-/

namespace GolemKernel

namespace Sched

namespace Scheduler

abbrev Event : Type := Trace.Event Scheduler Call (Option Process)

/-- Calls one after another, from a scheduler. -/
abbrev Run : Scheduler → List Event → Scheduler → Prop := Trace.Run call permitted

/-- The pids of the tasks that were spawned. -/
def spawned (evs : List Event) : List Pid := evs.flatMap fun e => e.input.spawned

/-- The pids of the tasks that exited. -/
def exited (evs : List Event) : List Pid := evs.flatMap fun e => e.before.exits e.input

/-- The tasks that were given the CPU, first to last. -/
def dispatches (evs : List Event) : List Process := evs.filterMap (·.output)

def ticks (evs : List Event) : Nat := evs.countP (·.input.isTick)

/-- The ticks since the CPU was last given to a task. -/
def ticksSinceDispatch (evs : List Event) : Nat := ticks (Trace.since (·.output.isSome) evs)

variable {s t : Scheduler} {c : Process} {evs : List Event}

/-- What a call of a run does is one of the effects. -/
theorem effect_of_taken {e : Event} (taken : e.Taken call permitted) (h : Live e.before c) :
    Effect e.before c e.input e.output e.after := by
  obtain ⟨out, s', hcall, heffect⟩ := effect_call h e.input taken.permitted
  obtain ⟨rfl, rfl⟩ := Prod.mk.inj (Option.some.inj (hcall.symm.trans taken.step))
  exact heffect

/-! ## No task is lost -/

/-- Some task is current at any time of a run. -/
theorem live_run (run : Run s evs t) (h : ∃ c, Live s c) : ∃ c, Live t c := by
  refine Trace.Run.preserves (P := fun s => ∃ c, Live s c) (Q := fun _ => True) ?_ run (fun _ _ => trivial) h
  rintro e taken - ⟨c, hlive⟩
  exact hlive.of_effect (effect_of_taken taken hlive)

/-- What holds all along a run in which no task is spawned under the pid of the idle task. -/
structure Sound (s : Scheduler) : Prop where
  live : ∃ c, Live s c
  placed : Placed s

/-- Every call keeps the scheduler sound. -/
theorem sound_step (e : Event) (taken : e.Taken call permitted) (hspawn : e.input.KeepsIdlePid) (h : Sound e.before) :
    Sound e.after := by
  obtain ⟨c, hlive⟩ := h.live
  have heffect := effect_of_taken taken hlive
  exact ⟨hlive.of_effect heffect, h.placed.of_effect hlive hspawn heffect⟩

/-- The idle task is away from its place exactly while it runs. -/
theorem Sound.idle_none_iff (h : Sound s) : s.idle = none ↔ s.currentPid = some pidIdle := by
  obtain ⟨c, hlive⟩ := h.live
  rw [hlive.currentPid]
  constructor
  · intro hnone
    by_contra hne
    obtain ⟨i, hi⟩ := hlive.idle_some fun heq => hne (congrArg some heq)
    rw [hnone] at hi
    cases hi
  · intro hidle
    exact h.placed.idle_none c hlive.current (Option.some.inj hidle)

/-- The current task is among the tasks. -/
theorem mem_pids_of_currentPid {pid : Pid} (h : s.currentPid = some pid) : pid ∈ s.pids := by
  obtain ⟨c, hc, rfl⟩ := Option.map_eq_some_iff.mp h
  simp [pids, tasks, hc]

/-- Tasks in and out of a run. -/
theorem count_pids_run (run : Run s evs t) (hspawn : ∀ e ∈ evs, e.input.KeepsIdlePid) (h : Sound s) (x : Pid) :
    t.pids.count x + (exited evs).count x = s.pids.count x + (spawned evs).count x := by
  rw [exited, spawned, List.count_flatMap, List.count_flatMap]
  refine Trace.Run.balance sound_step (fun s => s.pids.count x) _ _ ?_ run hspawn h
  intro e taken _ hsound
  obtain ⟨c, hlive⟩ := hsound.live
  exact Effect.count_pids hsound.placed hlive (effect_of_taken taken hlive) x

/-- No task is spawned with the pid of the idle task if the pids are distinct. -/
theorem keepsIdlePid_of_fresh (hfresh : (pidBootstrap :: pidIdle :: spawned evs).Nodup) : ∀ e ∈ evs, e.input.KeepsIdlePid := by
  intro e he proc hproc hpid
  have hmem : pidIdle ∈ spawned evs := List.mem_flatMap.mpr ⟨e, he, by simp [hproc, Call.spawned, hpid]⟩
  exact (List.nodup_cons.mp (List.nodup_cons.mp hfresh).2).1 hmem

/-- For every run from `init` in which the pids of the spawned tasks are fresh: every task that was spawned, and the bootstrap and the
idle task, is exactly once in the queue, on the CPU, in the idle slot or blocked, unless it has exited; there is a current task, and
it is running; the tasks in the queue, the blocked tasks and the defunct tasks have the states that say so, and there is at most one
defunct task; the idle task is never in the queue, and its slot is empty exactly if it is the current task; a task that has exited is
not the current task; and no further call that is permitted panics. -/
theorem no_task_lost (trampoline idleEntry : UInt64) (mem mem' : Bytes.Memory) (owner : OwnerId) (idleStack : KernelStack)
    (s₀ s : Scheduler) (hinit : new.init trampoline mem owner idleStack idleEntry = (.ok (), s₀, mem')) (evs : List Event)
    (run : Run s₀ evs s) (hfresh : (pidBootstrap :: pidIdle :: spawned evs).Nodup) :
    (∀ pid ∈ pidBootstrap :: pidIdle :: spawned evs, pid ∉ exited evs → s.pids.count pid = 1) ∧
    (∃ c, s.current = some c ∧ c.state = .running) ∧
    (∀ p ∈ s.ready, p.state = .ready) ∧ (∀ p ∈ s.blocked, p.state = .blocked) ∧
    (∀ p ∈ s.defunct, p.state = .zombie) ∧ s.defunct.length ≤ 1 ∧
    (∀ p ∈ s.ready, p.pid ≠ pidIdle) ∧ (s.idle = none ↔ s.currentPid = some pidIdle) ∧
    (∀ pid ∈ exited evs, s.currentPid ≠ some pid) ∧
    ∀ call, s.permitted call → (s.call call).isSome = true := by
  obtain ⟨idle, rfl, hpid, -⟩ := eq_of_init hinit
  have hstart : Sound _ := ⟨⟨_, live_start owner hpid⟩, placed_start owner idle⟩
  have hspawn := keepsIdlePid_of_fresh hfresh
  have hsound := run.preserves sound_step hspawn hstart
  have hplaced := hsound.placed
  obtain ⟨c, hlive⟩ := hsound.live
  have hcount : ∀ x, s.pids.count x + (exited evs).count x = (pidBootstrap :: pidIdle :: spawned evs).count x := by
    intro x
    rw [count_pids_run run hspawn hstart x, pids_start owner hpid, ← List.count_append]
    rfl
  refine ⟨?_, ⟨c, hlive.current, hlive.running⟩, fun p hp => (hplaced.ready p hp).1, fun p hp => (hplaced.blocked p hp).1,
    hplaced.defunct, hplaced.defunct_length, fun p hp => (hplaced.ready p hp).2, hsound.idle_none_iff, ?_, ?_⟩
  · intro pid hmem hexited
    have hone := hcount pid
    rwa [List.count_eq_zero_of_not_mem hexited, List.count_eq_one_of_mem hfresh hmem] at hone
  · -- its pid is counted once in all, and that is among the exited
    intro pid hexited hcurrent
    have honce := List.nodup_iff_count_le_one.mp hfresh pid
    have hthere := List.count_pos_iff.mpr hexited
    have hhere := List.count_pos_iff.mpr (mem_pids_of_currentPid hcurrent)
    have hall := hcount pid
    omega
  · intro call hpermitted
    obtain ⟨out, s', hcall, -⟩ := effect_call hlive call hpermitted
    rw [hcall]
    rfl

/-! ## A run -/

/-- The event of a call that does not panic. -/
def eventOf (s : Scheduler) (call : Call) : Event :=
  let (out, s') := (s.call call).getD (none, s)
  ⟨s, call, out, s'⟩

def workerStart : Scheduler := (new.init 0x1000 (fun _ => 0) 7 ⟨0x4000, 4096⟩ 0x2000).2.1

def worker : Process := (Process.newWithPid 0x1000 (fun _ => 0) 2 "worker" 7 0x3000 ⟨0x8000, 4096⟩ 5).1

/-- A task is spawned. -/
def workerSpawn : Event := eventOf workerStart (.spawn worker)

/-- The bootstrap context has no slice, so the next tick takes the CPU from it. -/
def workerTick : Event := eventOf workerSpawn.after (.tick 0x9000)

def workerExit : Event := eventOf workerTick.after (.exitCurrent 0xBF00)

theorem run_workerSpawn : Run workerStart [workerSpawn] workerSpawn.after := by
  have taken : workerSpawn.Taken call permitted := ⟨trivial, rfl⟩
  exact Trace.Run.concat .nil taken

theorem taken_workerTick : workerTick.Taken call permitted := ⟨trivial, rfl⟩

theorem taken_workerExit : workerExit.Taken call permitted := by
  refine ⟨?_, rfl⟩
  show workerTick.after.currentPid ≠ some pidIdle
  decide

theorem no_task_lost_worker :
    exited [workerSpawn, workerTick, workerExit] = [2] ∧ workerExit.after.pids.count pidBootstrap = 1 := by
  have run : Run workerStart [workerSpawn, workerTick, workerExit] workerExit.after :=
    .concat (.concat run_workerSpawn taken_workerTick) taken_workerExit
  have hkept := (no_task_lost 0x1000 0x2000 (fun _ => 0) _ 7 ⟨0x4000, 4096⟩ workerStart _ rfl _ run (by decide)).1
  exact ⟨by decide, hkept pidBootstrap (by decide) (by decide)⟩

/-! ## The bounds -/

@[simp] theorem dispatches_concat (evs : List Event) (e : Event) : dispatches (evs ++ [e]) = dispatches evs ++ e.output.toList := by
  cases h : e.output <;> simp [dispatches, h]

@[simp] theorem ticks_concat (evs : List Event) (e : Event) : ticks (evs ++ [e]) = ticks evs + e.input.isTick.toNat := by
  cases h : e.input.isTick <;> simp [ticks, h]

/-- What holds all along a run in which no task is spawned with a slice of more than `D` ticks. -/
structure Paced (D : Nat) (s : Scheduler) : Prop where
  live : ∃ c, Live s c
  within : Within D s

variable {D k : Nat} {p : Process}

/-- Every call keeps the time slices within the bound. -/
theorem paced_step (e : Event) (taken : e.Taken call permitted) (hspawn : e.input.Within D) (h : Paced D e.before) :
    Paced D e.after := by
  obtain ⟨c, hlive⟩ := h.live
  have heffect := effect_of_taken taken hlive
  exact ⟨hlive.of_effect heffect, h.within.of_effect hlive hspawn heffect⟩

/-- The task at place `k` waits until `k` others are dispatched, and is the next one then. -/
theorem waiting_run (hD : 1 ≤ D) (run : Run s evs t) (hspawn : ∀ e ∈ evs, e.input.Within D) (h : Paced D s)
    (hp : s.ready[k]? = some p) :
    (∃ j, k = j + (dispatches evs).length ∧ t.ready[j]? = some p ∧ ticks evs + t.wait D j ≤ s.wait D k) ∨
      (dispatches evs)[k]? = some p := by
  induction run with
  | nil => exact .inl ⟨k, rfl, hp, (Nat.zero_add _).le⟩
  | @concat evs e run taken ih =>
    have hspawn' : ∀ e' ∈ evs, e'.input.Within D := fun e' he' => hspawn e' (List.mem_append_left _ he')
    have hpaced := run.preserves paced_step hspawn' h
    obtain ⟨c, hlive⟩ := hpaced.live
    rw [dispatches_concat, ticks_concat]
    rcases ih hspawn' with ⟨j, hk, hready, hwait⟩ | hdone
    · rcases (effect_of_taken taken hlive).wait hD hpaced.within hlive hready with
        ⟨hout, hready', hwait'⟩ | ⟨n, hout, ⟨rfl, rfl⟩ | ⟨i, rfl, hready', hwait'⟩⟩
      · rw [hout]
        exact .inl ⟨j, by simpa using hk, hready', by omega⟩
      · rw [hout, hk, Nat.zero_add]
        exact .inr (List.getElem?_concat_length ..)
      · rw [hout]
        have htick : e.input.isTick.toNat ≤ 1 := Bool.toNat_le _
        refine .inl ⟨i, ?_, hready', by omega⟩
        rw [Option.toList_some, List.length_append, List.length_singleton]
        omega
    · exact .inr (by rw [List.getElem?_append_left (List.getElem?_eq_some_iff.mp hdone).1, hdone])

/-- The ticks are counted anew after each dispatch. -/
theorem ticksSinceDispatch_concat (evs : List Event) (e : Event) :
    ticksSinceDispatch (evs ++ [e]) = if e.output.isSome then 0 else ticksSinceDispatch evs + e.input.isTick.toNat := by
  rw [ticksSinceDispatch, Trace.since_concat]
  split
  · rfl
  · rw [ticks_concat, ticksSinceDispatch]

/-- What the current task has left of its slice and what it has had since it was dispatched make up the slice. -/
theorem slice_run (run : Run s evs t) (hlive : ∃ c, Live s c) (hstart : ∀ c, s.current = some c → c.defaultTimeSlice ≤ c.timeSliceRemaining) :
    ∀ c, t.current = some c → c.defaultTimeSlice ≤ c.timeSliceRemaining + ticksSinceDispatch evs := by
  induction run with
  | nil => exact hstart
  | @concat evs e run taken ih =>
    intro c' hc'
    obtain ⟨c, hc⟩ := live_run run hlive
    have hbefore := ih c hc.current
    rw [ticksSinceDispatch_concat]
    rcases (effect_of_taken taken hc).slice hc with ⟨hout, c'', hc'', hdefault, hleft⟩ | ⟨n, hout, hn⟩
    · obtain rfl := Option.some.inj (hc'.symm.trans hc'')
      rw [hout, if_neg (by simp)]
      omega
    · obtain rfl := Option.some.inj (hc'.symm.trans hn)
      exact Nat.le_add_right _ _

/-- For every run from `init` and every bound `D` on the slices of the idle task and of all tasks that are spawned. (1) The task at place
`k` of the queue is the one that is dispatched after `k` others, in any continuation of the run; as long as no more than `k` tasks have
been dispatched it is still in the queue, and at most `(k + 1) * D` ticks have passed. (2) A tick takes the CPU only from a task that
has had, with that tick, at least as many ticks as its slice since it was dispatched. -/
theorem round_robin_bounds (trampoline idleEntry : UInt64) (mem mem' : Bytes.Memory) (owner : OwnerId) (idleStack : KernelStack)
    (s₀ s : Scheduler) (hinit : new.init trampoline mem owner idleStack idleEntry = (.ok (), s₀, mem')) (D : Nat)
    (hidle : Sched.defaultTimeSlice ≤ D) (evs : List Event) (run : Run s₀ evs s) (hspawn : ∀ e ∈ evs, e.input.Within D) :
    (∀ (k : Nat) (p : Process), s.ready[k]? = some p → ∀ (evs' : List Event) (s' : Scheduler), Run s evs' s' →
      (∀ e ∈ evs', e.input.Within D) →
        ((dispatches evs').length ≤ k → s'.ready[k - (dispatches evs').length]? = some p ∧ ticks evs' ≤ (k + 1) * D) ∧
        (k < (dispatches evs').length → (dispatches evs')[k]? = some p)) ∧
    ∀ (rsp : Nat) (next c : Process) (s' : Scheduler), s.call (.tick rsp) = some (some next, s') → s.current = some c →
      c.defaultTimeSlice ≤ ticksSinceDispatch evs + 1 := by
  obtain ⟨idle, rfl, hpid, hslice⟩ := eq_of_init hinit
  have hstart := live_start owner hpid
  have hpaced : Paced D s := run.preserves paced_step hspawn ⟨⟨_, hstart⟩, within_start owner (hslice.le.trans hidle)⟩
  have hD : 1 ≤ D := (by decide : 1 ≤ Sched.defaultTimeSlice).trans hidle
  refine ⟨?_, ?_⟩
  · intro k p hp evs' s' run' hspawn'
    have hbound : s.wait D k ≤ (k + 1) * D := by
      have hleft := hpaced.within.remaining
      rw [wait, Nat.succ_mul]
      omega
    rcases waiting_run hD run' hspawn' hpaced hp with ⟨j, hk, hready, hwait⟩ | hdone
    · refine ⟨fun _ => ⟨?_, by omega⟩, fun hlt => by omega⟩
      rwa [hk, Nat.add_sub_cancel]
    · have hlt := (List.getElem?_eq_some_iff.mp hdone).1
      exact ⟨fun hle => by omega, fun _ => hdone⟩
  · intro rsp next c s' htick hc
    obtain ⟨c', hlive⟩ := hpaced.live
    obtain rfl := Option.some.inj (hc.symm.trans hlive.current)
    obtain ⟨out, t, hcall, heffect⟩ := effect_call hlive (.tick rsp) trivial
    obtain ⟨rfl, rfl⟩ := Prod.mk.inj (Option.some.inj (htick.symm.trans hcall))
    have hlast := heffect.slice_over
    have hhad := slice_run run ⟨_, hstart⟩ (fun c hc => by cases hc; exact le_rfl) c hc
    omega

theorem round_robin_bounds_worker :
    workerSpawn.after.ready[0]? = some worker ∧ (dispatches [workerTick])[0]? = some worker := by
  have hwithin : ∀ e ∈ [workerSpawn], e.input.Within 10 := by
    intro e he proc hproc
    obtain rfl := List.mem_singleton.mp he
    cases hproc
    decide
  have hwithin' : ∀ e ∈ [workerTick], e.input.Within 10 := by
    intro e he proc hproc
    obtain rfl := List.mem_singleton.mp he
    cases hproc
  have hbounds := (round_robin_bounds 0x1000 0x2000 (fun _ => 0) _ 7 ⟨0x4000, 4096⟩ workerStart _ rfl 10 le_rfl _ run_workerSpawn
    hwithin).1 0 worker (by decide) [workerTick] workerTick.after (.concat .nil taken_workerTick) hwithin'
  exact ⟨by decide, hbounds.2 (by decide)⟩

end Scheduler

end Sched

end GolemKernel
