import GolemKernel.Lemmas.Interrupts

/-!
# Interrupts and the scheduler

However the timer interrupts the tasks, the scheduler is called as a whole, one call after another, and every task has its own flags back
when it comes out of a call (`interrupts_exclude`). No pid is given twice, and every task that was spawned is there until it exits
(`tasks_survive_interrupts`).
-/

namespace GolemKernel

namespace Sched

namespace Kernel

open Scheduler (Live)

variable {trampoline : UInt64} {k k' : Kernel} {th : Thread} {act : Act} {out : Option (Scheduler.Call × Option Process)}

/-! ## What is seen of a run -/

/-- The calls that were made, with the tasks they have switched to. -/
def calls (evs : List Event) : List (Scheduler.Call × Option Process) := evs.filterMap (·.output)

/-- The pids of the tasks that were put in the queue by `spawn`. -/
def spawnedPids (evs : List Event) : List Pid := (calls evs).flatMap fun c => c.1.spawned

/-- The task that exits at an event. -/
def exiting (e : Event) : List Pid :=
  match e.output with
  | some (.exitCurrent _, _) => [e.before.pid]
  | _ => []

/-- The pids of the tasks that have exited. -/
def exitedPids (evs : List Event) : List Pid := evs.flatMap exiting

/-! ## Pids -/

/-- The pids of processes that were made for a `spawn` that is not done. -/
def spawning : Doing → List Pid
  | .calling (.call call) | .guarding _ (.call call) | .inside call _ => call.spawned
  | .code | .calling .hold | .guarding _ .hold | .leaving => []

def spawningBelow : List Frame → List Pid
  | [] => []
  | .guard _ :: frames => spawningBelow frames
  | .irq _ resume :: frames => spawning resume ++ spawningBelow frames

/-- The pids that a task has asked for and not used. -/
def pending (k : Kernel) (pid : Pid) : List Pid :=
  match k.threads pid with
  | some th => spawning th.doing ++ spawningBelow th.frames
  | none => []

/-- The task on the CPU asks for a pid in the call it makes, or in one that the timer has interrupted. -/
theorem pending_of_thread (h : k.threads k.pid = some th) : k.pending k.pid = spawning th.doing ++ spawningBelow th.frames := by
  rw [pending, h]

/-- Only what the task on the CPU asks for changes. -/
theorem pending_setThread (k : Kernel) (now : Bool) (th : Thread) :
    (k.setThread now th).pending = Function.update k.pending k.pid (spawning th.doing ++ spawningBelow th.frames) := by
  funext p
  simp only [pending, setThread_threads, Function.update_apply]
  split_ifs <;> rfl

/-- A task that leaves the CPU asks for nothing more in this call. -/
theorem pending_contextSwitch (k : Kernel) (frames : List Frame) (next : Process) :
    (k.contextSwitch frames next).pending = Function.update k.pending k.pid (spawningBelow frames) := by
  have hpark := pending_setThread k k.interrupts ⟨.leaving, frames⟩
  unfold Kernel.contextSwitch
  dsimp only
  split
  · exact hpark
  · rename_i hnone
    have hfresh : (k.setThread k.interrupts ⟨.leaving, frames⟩).pending next.pid = [] := by
      rw [pending, hnone]
    rw [pending_setThread]
    exact (Function.update_eq_self_iff.mpr hfresh.symm).trans hpark

/-- No pid is given twice: neither those that tasks were spawned with nor those that are asked for. -/
structure Issued (pending : Pid → List Pid) (nextPid : Pid) (spawned : List Pid) : Prop where
  first : 2 ≤ nextPid.toNat
  used : ∀ x ∈ spawned, 2 ≤ x.toNat ∧ x.toNat < nextPid.toNat
  used_nodup : spawned.Nodup
  asked : ∀ p, ∀ x ∈ pending p, x ∉ spawned ∧ 2 ≤ x.toNat ∧ x.toNat < nextPid.toNat
  asked_nodup : ∀ p, (pending p).Nodup
  apart : ∀ p q x, x ∈ pending p → x ∈ pending q → p = q

section

variable {pending : Pid → List Pid} {nextPid : Pid} {spawned : List Pid}

/-- The next pid is one more, as long as there are any. -/
theorem toNat_succ_pid (hleft : nextPid ≠ 0xFFFFFFFFFFFFFFFF) : (nextPid + 1).toNat = nextPid.toNat + 1 := by
  have hlt := nextPid.toNat_lt
  have hne : nextPid.toNat ≠ 0xFFFFFFFFFFFFFFFF := fun heq => hleft (UInt64.toNat_inj.mp heq)
  have hone : (1 : UInt64).toNat = 1 := rfl
  rw [UInt64.toNat_add, hone]
  exact Nat.mod_eq_of_lt (by omega)

/-- A task asks for a pid. -/
theorem Issued.ask (h : Issued pending nextPid spawned) (hleft : nextPid ≠ 0xFFFFFFFFFFFFFFFF) (p : Pid) :
    Issued (Function.update pending p (nextPid :: pending p)) (nextPid + 1) spawned := by
  have hnext := toNat_succ_pid hleft
  have hfresh : ∀ q, nextPid ∉ pending q := fun q hq => absurd (h.asked q nextPid hq).2.2 (Nat.lt_irrefl _)
  have hmem : ∀ q x, x ∈ Function.update pending p (nextPid :: pending p) q → (q = p ∧ x = nextPid) ∨ x ∈ pending q := by
    intro q x hx
    rw [Function.update_apply] at hx
    split_ifs at hx with hq
    · subst hq
      exact (List.mem_cons.mp hx).imp (fun h => ⟨rfl, h⟩) id
    · exact .inr hx
  have hfirst := h.first
  refine ⟨by omega, ?_, h.used_nodup, ?_, ?_, ?_⟩
  · intro x hx
    have := h.used x hx
    omega
  · intro q x hx
    rcases hmem q x hx with ⟨-, rfl⟩ | hx
    · exact ⟨fun hx => absurd (h.used _ hx).2 (Nat.lt_irrefl _), hfirst, by omega⟩
    · obtain ⟨hnot, hge, hlt⟩ := h.asked q x hx
      exact ⟨hnot, hge, by omega⟩
  · intro q
    rw [Function.update_apply]
    split_ifs with hq
    · exact List.nodup_cons.mpr ⟨hfresh p, h.asked_nodup p⟩
    · exact h.asked_nodup q
  · intro q q' x hx hx'
    rcases hmem q x hx with ⟨rfl, rfl⟩ | hold <;> rcases hmem q' x hx' with ⟨rfl, heq⟩ | hold'
    · rfl
    · exact absurd hold' (hfresh q')
    · exact absurd (heq ▸ hold) (hfresh q)
    · exact h.apart q q' x hold hold'

/-- Tasks are spawned with pids that were asked for. -/
theorem Issued.use (h : Issued pending nextPid spawned) {p : Pid} {pids rest : List Pid} (hp : pending p = pids ++ rest) :
    Issued (Function.update pending p rest) nextPid (spawned ++ pids) := by
  have hnodup := h.asked_nodup p
  rw [hp, List.nodup_append] at hnodup
  have hmem : ∀ q x, x ∈ Function.update pending p rest q → x ∈ pending q ∧ x ∉ pids := by
    intro q x hx
    rw [Function.update_apply] at hx
    split_ifs at hx with hq
    · subst hq
      exact ⟨hp ▸ List.mem_append_right _ hx, fun hpids => hnodup.2.2 x hpids x hx rfl⟩
    · refine ⟨hx, fun hpids => hq (h.apart q p x hx ?_)⟩
      rw [hp]
      exact List.mem_append_left _ hpids
  have hpids : ∀ x ∈ pids, x ∉ spawned ∧ 2 ≤ x.toNat ∧ x.toNat < nextPid.toNat :=
    fun x hx => h.asked p x (hp ▸ List.mem_append_left _ hx)
  refine ⟨h.first, ?_, ?_, ?_, ?_, fun q q' x hx hx' => h.apart q q' x (hmem q x hx).1 (hmem q' x hx').1⟩
  · exact List.forall_mem_append.mpr ⟨h.used, fun x hx => (hpids x hx).2⟩
  · refine List.nodup_append.mpr ⟨h.used_nodup, hnodup.1, ?_⟩
    rintro x hx y hy rfl
    exact (hpids x hy).1 hx
  · intro q x hx
    obtain ⟨hold, hnot⟩ := hmem q x hx
    obtain ⟨hunused, hbounds⟩ := h.asked q x hold
    exact ⟨fun hx => (List.mem_append.mp hx).elim hunused hnot, hbounds⟩
  · intro q
    rw [Function.update_apply]
    split_ifs
    · exact hnodup.2.1
    · exact h.asked_nodup q

end

/-- None of them is reserved. -/
theorem Issued.nodup {pending : Pid → List Pid} {nextPid : Pid} {spawned : List Pid} (h : Issued pending nextPid spawned) :
    (pidBootstrap :: pidIdle :: spawned).Nodup := by
  have hnot : ∀ pid : Pid, pid.toNat < 2 → pid ∉ spawned := fun pid hlt hmem => absurd (h.used pid hmem).1 (Nat.not_le.mpr hlt)
  refine List.nodup_cons.mpr ⟨?_, List.nodup_cons.mpr ⟨hnot pidIdle (by decide), h.used_nodup⟩⟩
  rw [List.mem_cons, not_or]
  exact ⟨by decide, hnot pidBootstrap (by decide)⟩

/-- Only `spawn` spawns. -/
theorem spawned_api (api : Api) : api.call.spawned = [] := by cases api <;> rfl

/-- A step asks for no pid, or for the next one, or uses those that its call was made with. -/
theorem Moves.pending (hth : k.threads k.pid = some th) (h : Moves trampoline k th act out k') :
    (out = none ∧ k'.nextPid = k.nextPid ∧ k'.pending = k.pending) ∨
    (out = none ∧ k.nextPid ≠ 0xFFFFFFFFFFFFFFFF ∧ k'.nextPid = k.nextPid + 1 ∧
      k'.pending = Function.update k.pending k.pid (k.nextPid :: k.pending k.pid)) ∨
    ∃ call next rest, out = some (call, next) ∧ k'.nextPid = k.nextPid ∧ k.pending k.pid = call.spawned ++ rest ∧
      k'.pending = Function.update k.pending k.pid rest := by
  have hpending := pending_of_thread hth
  -- the task has the same pids as before
  have hsame : ∀ {k₁ : Kernel} (now : Bool) (th' : Thread), k₁.pid = k.pid → k₁.pending = k.pending →
      spawning th'.doing ++ spawningBelow th'.frames = spawning th.doing ++ spawningBelow th.frames →
      (k₁.setThread now th').pending = k.pending := by
    intro k₁ now th' hpid hk₁ heq
    rw [pending_setThread, hpid, hk₁, heq, ← hpending, Function.update_eq_self]
  cases h with
  | timer rsp on => exact .inl ⟨rfl, rfl, hsame _ _ rfl rfl rfl⟩
  | hold code => exact .inl ⟨rfl, rfl, hsame _ _ rfl rfl (by rw [code]; rfl)⟩
  | release saved frames code guarded => exact .inl ⟨rfl, rfl, hsame _ _ rfl rfl (by rw [code, guarded]; rfl)⟩
  | api api code awake => exact .inl ⟨rfl, rfl, hsame _ _ rfl rfl (by rw [code, spawning, spawned_api]; rfl)⟩
  | spawn name owner entry kernelStack proc mem code awake pid left =>
    refine .inr (.inl ⟨rfl, left, rfl, ?_⟩)
    rw [pending_setThread, hpending, code, ← pid]
    rfl
  | iret saved resume frames code interrupted => exact .inl ⟨rfl, rfl, hsame _ _ rfl rfl (by rw [code, interrupted]; rfl)⟩
  | read goal calling =>
    refine .inl ⟨rfl, rfl, hsame _ _ rfl rfl ?_⟩
    rw [calling]
    cases goal <;> rfl
  | maskHold saved guarding => exact .inl ⟨rfl, rfl, hsame _ _ rfl rfl (by rw [guarding]; rfl)⟩
  | maskCall saved call guarding => exact .inl ⟨rfl, rfl, hsame _ _ rfl rfl (by rw [guarding]; rfl)⟩
  | access call body body' s inside accessed =>
    refine .inl ⟨rfl, rfl, hsame _ _ rfl rfl ?_⟩
    rw [inside]
    rfl
  | switch call next inside =>
    refine .inr (.inr ⟨call, some next, spawningBelow th.frames, rfl, ?_, ?_, pending_contextSwitch k th.frames next⟩)
    · unfold Kernel.contextSwitch
      dsimp only
      split <;> rfl
    · rw [hpending, inside]
      rfl
  | done call inside =>
    refine .inr (.inr ⟨call, none, spawningBelow th.frames, rfl, rfl, ?_, pending_setThread _ _ _⟩)
    rw [hpending, inside]
    rfl
  | leave saved frames leaving guarded => exact .inl ⟨rfl, rfl, hsame _ _ rfl rfl (by rw [leaving, guarded]; rfl)⟩

/-! ## Runs -/

/-- What a run has come to: the calls were made on the scheduler one after another. -/
structure Reached (interrupts : Bool) (s₀ : Scheduler) (evs : List Event) (k : Kernel) (sevs : List Scheduler.Event) (s : Scheduler) :
    Prop where
  run : Scheduler.Run s₀ sevs s
  made : sevs.map (fun e => (e.input, e.output)) = calls evs
  exited : Scheduler.exited sevs = exitedPids evs
  inv : Inv interrupts s k
  issued : Issued k.pending k.nextPid (Scheduler.spawned sevs)

variable {interrupts : Bool} {s₀ : Scheduler}

/-- A call that is done at the last event is the last one. -/
theorem calls_concat (evs : List Event) (e : Event) : calls (evs ++ [e]) = calls evs ++ e.output.toList := by
  rw [calls, List.filterMap_append]
  cases hout : e.output <;> simp [calls, hout]

/-- A task that exits at the last event is the last one. -/
theorem exitedPids_concat (evs : List Event) (e : Event) : exitedPids (evs ++ [e]) = exitedPids evs ++ exiting e := by
  rw [exitedPids, List.flatMap_append, List.flatMap_singleton]
  rfl

/-- The task that exits is the current one. -/
theorem exits_eq {s : Scheduler} (hlive : ∃ c, Live s c ∧ c.pid = k.pid) (call : Scheduler.Call) (next : Option Process) :
    s.exits call = exiting ⟨k, act, some (call, next), k'⟩ := by
  obtain ⟨c, hlive, hpid⟩ := hlive
  cases call with
  | exitCurrent rsp =>
    rw [Scheduler.exits, hlive.currentPid, hpid]
    rfl
  | _ => rfl

/-- One step: the call that is under way goes on, or it is done and one more call has been made on the scheduler. -/
theorem reached_step {evs : List Event} {e : Event} {sevs : List Scheduler.Event} {s : Scheduler}
    (h : Reached interrupts s₀ evs e.before sevs s) (hstep : e.before.step trampoline e.input = some (e.output, e.after)) :
    ∃ sevs' s', Reached interrupts s₀ (evs ++ [e]) e.after sevs' s' := by
  obtain ⟨before, input, output, after⟩ := e
  obtain ⟨th, hth, hmoves⟩ := step_moves hstep
  rcases h.inv.moves hth hmoves with ⟨rfl, hinv⟩ | ⟨call, next, s', rfl, hpermitted, hcall, hinv⟩
  · refine ⟨sevs, s, h.run, ?_, ?_, hinv, ?_⟩
    · rw [calls_concat, h.made]
      exact (List.append_nil _).symm
    · rw [exitedPids_concat, h.exited]
      exact (List.append_nil _).symm
    · rcases hmoves.pending hth with ⟨-, hnext, hpending⟩ | ⟨-, hleft, hnext, hpending⟩ | ⟨call, next, rest, hsome, -⟩
      · rw [hnext, hpending]
        exact h.issued
      · rw [hnext, hpending]
        exact h.issued.ask hleft _
      · cases hsome
  · refine ⟨sevs ++ [⟨s, call, next, s'⟩], s', .concat h.run ⟨hpermitted, hcall⟩, ?_, ?_, hinv, ?_⟩
    · rw [List.map_append, h.made, calls_concat]
      rfl
    · rw [exitedPids_concat, ← h.exited, ← exits_eq h.inv.live, Scheduler.exited, List.flatMap_append, List.flatMap_singleton]
      rfl
    · rcases hmoves.pending hth with ⟨hnone, -⟩ | ⟨hnone, -⟩ | ⟨call', next', rest, hsome, hnext, hpids, hpending⟩
      · cases hnone
      · cases hnone
      · cases hsome
        rw [hnext, hpending, Scheduler.spawned, List.flatMap_append, List.flatMap_singleton]
        exact h.issued.use hpids

/-- At boot no other task has run. -/
theorem threads_boot_of_ne (interrupts : Bool) (s₀ : Scheduler) (mem : Bytes.Memory) {p : Pid} (hp : p ≠ pidBootstrap) :
    (boot interrupts s₀ mem).threads p = none := by
  simp [boot, hp]

/-- At boot the bootstrap has the CPU and no guard is held. -/
theorem inv_boot (interrupts : Bool) {s₀ : Scheduler} (mem : Bytes.Memory) (hlive : ∃ c, Live s₀ c ∧ c.pid = pidBootstrap) :
    Inv interrupts s₀ (boot interrupts s₀ mem) := by
  refine ⟨hlive, ⟨⟨.code, []⟩, rfl, ?_, trivial, rfl⟩, ?_, rfl⟩
  · exact (if_pos rfl).symm
  · intro p th hp hth
    cases (threads_boot_of_ne interrupts s₀ mem hp).symm.trans hth

/-- And no pid has been asked for. -/
theorem issued_boot (interrupts : Bool) (s₀ : Scheduler) (mem : Bytes.Memory) : Issued (boot interrupts s₀ mem).pending 2 [] := by
  have hnone : (boot interrupts s₀ mem).pending = fun _ => [] := by
    funext p
    by_cases hp : p = pidBootstrap
    · subst hp
      rfl
    · rw [pending, threads_boot_of_ne interrupts s₀ mem hp]
  rw [hnone]
  exact ⟨le_rfl, by simp, List.nodup_nil, by simp, fun _ => List.nodup_nil, by simp⟩

/-- So every run has come to a run of calls. -/
theorem reached_run {s₀ : Scheduler} {mem : Bytes.Memory} (hlive : ∃ c, Live s₀ c ∧ c.pid = pidBootstrap) {evs : List Event}
    (run : Run trampoline (boot interrupts s₀ mem) evs k) : ∃ sevs s, Reached interrupts s₀ evs k sevs s := by
  induction run with
  | nil => exact ⟨[], s₀, .nil, rfl, rfl, inv_boot interrupts mem hlive, issued_boot interrupts s₀ mem⟩
  | concat run taken ih =>
    obtain ⟨sevs, s, hreached⟩ := ih
    exact reached_step hreached taken.step

/-- A call that is not going to panic goes on. -/
theorem go_isSome {call : Scheduler.Call} {body : Body} (hth : k.threads k.pid = some th) (hinside : th.doing = .inside call body)
    (hfinish : (body.finish k.scheduler).isSome = true) : (k.step trampoline .go).isSome = true := by
  have haccess : ∀ body : Body, (∀ next, body ≠ .stashed next) → body ≠ .done → (body.finish k.scheduler).isSome = true →
      (body.access k.scheduler).isSome = true := by
    intro body hstashed hdone hfinish
    cases body with
    | entry call =>
      cases call with
      | tick rsp =>
        simp only [Body.access]
        split
        · split <;> rfl
        · rfl
      | _ => rfl
    | schedule rsp exits =>
      simp only [Body.access]
      split
      · rfl
      · rename_i hpick
        cases exits with
        | false => rfl
        | true => simp [Body.finish, Scheduler.schedule, hpick] at hfinish
    | picked next rsp =>
      simp only [Body.access]
      split <;> rfl
    | stashed next => exact absurd rfl (hstashed next)
    | done => exact absurd rfl hdone
  have hstep : k.step trampoline .go = k.go th := by
    rw [step, hth]
    rfl
  rw [hstep]
  obtain ⟨doing, frames⟩ := th
  obtain rfl : doing = .inside call body := hinside
  have hgo : (∀ next, body ≠ .stashed next) → body ≠ .done → ((body.access k.scheduler).map fun r =>
      ((none : Option (Scheduler.Call × Option Process)), (k.setScheduler r.1).setThread k.interrupts ⟨.inside call r.2, frames⟩)).isSome =
      true := by
    intro hstashed hdone
    rw [Option.isSome_map]
    exact haccess body hstashed hdone hfinish
  cases body with
  | stashed next => rfl
  | done => rfl
  | _ => exact hgo (by simp) (by simp)

/-- Out of calls the scheduler is as the calls have left it. -/
theorem Reflects.eq_of_outside {s a : Scheduler} {doing : Doing} (h : Reflects s a doing)
    (houtside : ∀ call body, doing ≠ .inside call body) : s = a := by
  cases doing with
  | inside call body => exact absurd rfl (houtside call body)
  | _ => exact h

/-- However the timer interrupts the tasks, and whatever calls they make. The calls of the scheduler are made as a whole, one after
another. While a task is in a call interrupts are off, and the call goes on to what it does as a whole; otherwise the scheduler is as
the calls so far have left it. A task that holds no guard and is not in the handler has the flags that it started with: those of the
bootstrap, and for all others interrupts on. -/
theorem interrupts_exclude (trampoline idleEntry : UInt64) (mem mem' : Bytes.Memory) (owner : OwnerId) (idleStack : KernelStack)
    (s₀ : Scheduler) (hinit : Scheduler.new.init trampoline mem owner idleStack idleEntry = (.ok (), s₀, mem')) (interrupts : Bool)
    (evs : List Event) (k : Kernel) (run : Run trampoline (boot interrupts s₀ mem') evs k) :
    ∃ sevs s th, Scheduler.Run s₀ sevs s ∧ sevs.map (fun e => (e.input, e.output)) = calls evs ∧ s.currentPid = some k.pid ∧
      k.threads k.pid = some th ∧
      ((∀ call body, th.doing ≠ .inside call body) → k.scheduler = s) ∧
      (∀ call body, th.doing = .inside call body →
        k.interrupts = false ∧ body.finish k.scheduler = s.call call ∧ (k.step trampoline .go).isSome = true) ∧
      (th.frames = [] → k.interrupts = if k.pid = pidBootstrap then interrupts else true) ∧ (th.frames ≠ [] → k.interrupts = false) := by
  obtain ⟨idle, rfl, hpid, -⟩ := Scheduler.eq_of_init hinit
  obtain ⟨sevs, s, h⟩ := reached_run ⟨_, Scheduler.live_start owner hpid, rfl⟩ run
  obtain ⟨th, hth, hnested, hplaced, hreflects⟩ := h.inv.here
  obtain ⟨c, hlive, hc⟩ := h.inv.live
  refine ⟨sevs, s, th, h.run, h.made, by rw [hlive.currentPid, hc], hth, hreflects.eq_of_outside, ?_, ?_, hnested.eq_false⟩
  · intro call body hinside
    rw [hinside] at hreflects
    rw [Placed, hinside] at hplaced
    obtain ⟨hallowed, hguarded⟩ := hplaced
    refine ⟨hnested.eq_false hguarded.ne_nil, hreflects, go_isSome hth hinside ?_⟩
    obtain ⟨next, s', hcall, -⟩ := Scheduler.effect_call hlive call (permitted_of_allowed h.inv.live hallowed)
    rw [show body.finish k.scheduler = s.call call from hreflects, hcall]
    rfl
  · intro hframes
    rw [hframes] at hnested
    exact hnested

/-- The bootstrap makes a process, and is interrupted before it has put it in the queue. At the next interrupt the new task gets the CPU. -/
def workerActs : List Act :=
  [.spawn "worker" 7 0x3000 ⟨0x8000, 4096⟩, .timer 0x9000] ++ List.replicate 12 .go ++ [.timer 0x9000] ++ List.replicate 6 .go

def workerBoot : Kernel := boot true Scheduler.workerStart (Scheduler.new.init 0x1000 (fun _ => 0) 7 ⟨0x4000, 4096⟩ 0x2000).2.2

theorem play_workerActs : (Trace.play (step 0x1000) workerBoot workerActs).map (fun r => (calls r.1).length) = some 3 := by decide +kernel

theorem interrupts_exclude_worker : ∃ (evs : List Event) (k : Kernel), Run 0x1000 workerBoot evs k ∧ (calls evs).length = 3 ∧
    ∃ sevs s, Scheduler.Run Scheduler.workerStart sevs s ∧ sevs.length = 3 ∧ s.currentPid = some k.pid := by
  obtain ⟨⟨evs, k⟩, hplay, hcalls⟩ := Option.map_eq_some_iff.mp play_workerActs
  have run : Run 0x1000 workerBoot evs k := Trace.Run.of_play hplay
  obtain ⟨sevs, s, th, hrun, hmade, hcurrent, -⟩ := interrupts_exclude 0x1000 0x2000 (fun _ => 0) _ 7 ⟨0x4000, 4096⟩ _ rfl true evs k run
  exact ⟨evs, k, run, hcalls, sevs, s, hrun, by rw [← hcalls, ← hmade, List.length_map], hcurrent⟩

/-- The tasks that were spawned are those of the calls. -/
theorem spawned_eq {evs : List Event} {sevs : List Scheduler.Event} (h : sevs.map (fun e => (e.input, e.output)) = calls evs) :
    Scheduler.spawned sevs = spawnedPids evs := by
  rw [spawnedPids, ← h, List.flatMap_map]
  rfl

/-- However the timer interrupts the tasks, also between the allocation of a pid and the call that puts the task in the queue: no two
tasks have the same pid, and none that of the bootstrap or the idle task. Out of calls every one of them is in the scheduler once, or has
exited once; and the CPU is never with a task that has exited. -/
theorem tasks_survive_interrupts (trampoline idleEntry : UInt64) (mem mem' : Bytes.Memory) (owner : OwnerId) (idleStack : KernelStack)
    (s₀ : Scheduler) (hinit : Scheduler.new.init trampoline mem owner idleStack idleEntry = (.ok (), s₀, mem')) (interrupts : Bool)
    (evs : List Event) (k : Kernel) (run : Run trampoline (boot interrupts s₀ mem') evs k) :
    (pidBootstrap :: pidIdle :: spawnedPids evs).Nodup ∧ k.pid ∉ exitedPids evs ∧
    ∃ th, k.threads k.pid = some th ∧ ((∀ call body, th.doing ≠ .inside call body) →
      ∀ pid ∈ pidBootstrap :: pidIdle :: spawnedPids evs, k.scheduler.pids.count pid + (exitedPids evs).count pid = 1) := by
  obtain ⟨idle, rfl, hpid, -⟩ := Scheduler.eq_of_init hinit
  obtain ⟨sevs, s, h⟩ := reached_run ⟨_, Scheduler.live_start owner hpid, rfl⟩ run
  have hfresh := h.issued.nodup
  have hcount : ∀ x, s.pids.count x + (Scheduler.exited sevs).count x = (pidBootstrap :: pidIdle :: Scheduler.spawned sevs).count x := by
    intro x
    rw [Scheduler.count_pids_run h.run (Scheduler.keepsIdlePid_of_fresh hfresh)
      ⟨⟨_, Scheduler.live_start owner hpid⟩, Scheduler.placed_start owner idle⟩ x, Scheduler.pids_start owner hpid, ← List.count_append]
    rfl
  rw [spawned_eq h.made] at hfresh hcount
  rw [h.exited] at hcount
  refine ⟨hfresh, ?_, ?_⟩
  · -- the pid of the current task is counted once in all, and that is among those that are there
    intro hexited
    obtain ⟨c, hlive, hc⟩ := h.inv.live
    have hhere := List.count_pos_iff.mpr (Scheduler.mem_pids_of_currentPid hlive.currentPid)
    have hthere := List.count_pos_iff.mpr hexited
    have honce := List.nodup_iff_count_le_one.mp hfresh k.pid
    have hall := hcount k.pid
    rw [hc] at hhere
    omega
  · obtain ⟨th, hth, -, -, hreflects⟩ := h.inv.here
    refine ⟨th, hth, fun houtside pid hmem => ?_⟩
    rw [hreflects.eq_of_outside houtside, hcount pid, List.count_eq_one_of_mem hfresh hmem]

/-- Then the new task exits, and the bootstrap gets the CPU back. -/
def exitActs : List Act := workerActs ++ [.api (.exitCurrent 0x7000)] ++ List.replicate 6 .go

theorem play_exitActs : (Trace.play (step 0x1000) workerBoot exitActs).map (fun r =>
    (spawnedPids r.1, exitedPids r.1, (r.2.threads r.2.pid).map (·.doing))) = some ([2], [2], some .leaving) := by
  decide +kernel

theorem tasks_survive_interrupts_worker : ∃ (evs : List Event) (k : Kernel), Run 0x1000 workerBoot evs k ∧ spawnedPids evs = [2] ∧
    exitedPids evs = [2] ∧ k.pid ≠ 2 ∧ k.scheduler.pids.count 2 = 0 ∧ k.scheduler.pids.count pidBootstrap = 1 := by
  obtain ⟨⟨evs, k⟩, hplay, hseen⟩ := Option.map_eq_some_iff.mp play_exitActs
  have run : Run 0x1000 workerBoot evs k := Trace.Run.of_play hplay
  obtain ⟨hspawned, hseen⟩ := Prod.mk.inj hseen
  obtain ⟨hexited, hdoing⟩ := Prod.mk.inj hseen
  obtain ⟨-, hpid, th, hth, hcount⟩ := tasks_survive_interrupts 0x1000 0x2000 (fun _ => 0) _ 7 ⟨0x4000, 4096⟩ _ rfl true evs k run
  rw [hth] at hdoing
  have houtside : ∀ call body, th.doing ≠ .inside call body := by
    intro call body hinside
    exact nomatch hinside.symm.trans (Option.some.inj hdoing)
  have hcount := hcount houtside
  rw [hspawned, hexited] at hcount
  rw [hexited] at hpid
  exact ⟨evs, k, run, hspawned, hexited, by simpa using hpid, by simpa using hcount 2 (by simp),
    by simpa [pidBootstrap] using hcount pidBootstrap (by simp)⟩

end Kernel

end Sched

end GolemKernel
