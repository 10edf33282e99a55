import GolemKernel.Scheduler.Interrupts
import GolemKernel.Theorems.Scheduler

/-!
# What a step of the kernel does

The steps, one by one (`Kernel.Moves`). What is left of a call that is under way is a function of the scheduler (`Body.finish`), and an
access takes nothing from it and adds nothing to it. The flags are nested as the frames on the stack are (`Nested`): a task with no
frames has the flags it started with, and any other task has interrupts masked.
-/

namespace GolemKernel

namespace Sched

open Scheduler (Live Effect)

/-! ## What is left of a call -/

/-- What a call does from here on: the task that it switches to, if any, and the scheduler. -/
def Body.finish (s : Scheduler) : Body → Option (Option Process × Scheduler)
  | .entry call => s.call call
  | .schedule rsp false => some (s.schedule rsp)
  | .schedule rsp true =>
    match s.schedule rsp with
    | (some next, s) => some (some next, s)
    | (none, _) => none
  | .picked next rsp =>
    let s :=
      match s.current with
      | some curr => { s with current := none }.stash { curr with kernelRsp := rsp }
      | none => s
    some (some next, { s with current := some next.dispatched })
  | .stashed next => some (some next, { s with current := some next.dispatched })
  | .done => some (none, s)

/-- An access does not change what the rest of the call comes to. -/
theorem Body.finish_access {s s' : Scheduler} {body body' : Body} (h : body.access s = some (s', body')) :
    body'.finish s' = body.finish s := by
  cases body with
  | entry call =>
    cases call with
    | spawn proc => cases h; rfl
    | tick rsp =>
      simp only [access] at h
      simp only [finish, Scheduler.call, Scheduler.tick]
      cases hcurr : s.current with
      | none =>
        simp only [hcurr] at h
        cases h
        rfl
      | some curr =>
        simp only [hcurr] at h
        by_cases hrunning : curr.state = .running
        · rw [if_pos hrunning] at h
          dsimp only
          rw [if_pos hrunning]
          obtain ⟨rfl, rfl⟩ := Prod.mk.inj (Option.some.inj h)
          generalize (if 0 < curr.timeSliceRemaining then curr.timeSliceRemaining - 1 else curr.timeSliceRemaining) = remaining
          by_cases hzero : remaining = 0
          · rw [if_pos hzero, if_pos hzero]
          · rw [if_neg hzero, if_neg hzero]
        · rw [if_neg hrunning] at h
          dsimp only
          rw [if_neg hrunning]
          cases h
          rfl
    | yieldNow rsp => cases h; rfl
    | blockCurrent rsp => cases h; rfl
    | exitCurrent rsp =>
      cases h
      simp only [finish, Scheduler.call, Scheduler.exitCurrent]
      generalize Scheduler.schedule _ rsp = r
      obtain ⟨next, s'⟩ := r
      cases next <;> rfl
    | unblock pid => cases h; rfl
  | schedule rsp exits =>
    simp only [access] at h
    split at h
    · rename_i next t hpick
      cases h
      cases exits <;> cases hcurrent : s'.current <;> simp [finish, Scheduler.schedule, hpick, Process.dispatched, hcurrent]
    · rename_i t hpick
      cases exits with
      | false =>
        cases h
        simp only [finish, Scheduler.schedule, hpick]
      | true => cases h
  | picked next rsp =>
    simp only [access] at h
    split at h <;> rename_i hcurr <;> cases h <;> simp only [finish, hcurr]
  | stashed next => cases h
  | done => cases h

/-- A new process has the next pid. -/
theorem Process.new_eq_some {trampoline entry : UInt64} {nextPid nextPid' : Pid} {mem mem' : Bytes.Memory} {name : String} {owner : OwnerId}
    {kernelStack : KernelStack} {timeSlice : Nat} {proc : Process}
    (h : Process.new trampoline nextPid mem name owner entry kernelStack timeSlice = some (proc, nextPid', mem')) :
    nextPid ≠ 0xFFFFFFFFFFFFFFFF ∧ proc.pid = nextPid ∧ nextPid' = nextPid + 1 := by
  obtain ⟨⟨pid, next⟩, halloc, hnew⟩ := Option.bind_eq_some_iff.mp h
  simp only [allocPid, Option.ite_none_right_eq_some, Option.some.injEq, Prod.mk.injEq] at halloc
  obtain ⟨hleft, rfl, rfl⟩ := halloc
  unfold newWithPid at hnew
  generalize initKernelStack trampoline mem kernelStack entry = stack at hnew
  cases hnew
  exact ⟨hleft, rfl, rfl⟩

namespace Kernel

variable {trampoline : UInt64} {k k' : Kernel} {th : Thread} {act : Act} {out : Option (Scheduler.Call × Option Process)}

/-! ## The steps -/

/-- What can happen while `th` is on the CPU. -/
inductive Moves (trampoline : UInt64) (k : Kernel) (th : Thread) : Act → Option (Scheduler.Call × Option Process) → Kernel → Prop where
  | timer (rsp : Nat) (on : k.interrupts = true) :
      Moves trampoline k th (.timer rsp) none (k.setThread false ⟨.calling (.call (.tick rsp)), .irq true th.doing :: th.frames⟩)
  | hold (code : th.doing = .code) : Moves trampoline k th .hold none (k.setThread k.interrupts ⟨.calling .hold, th.frames⟩)
  | release (saved : Bool) (frames : List Frame) (code : th.doing = .code) (guarded : th.frames = .guard saved :: frames) :
      Moves trampoline k th .release none (k.setThread saved ⟨.code, frames⟩)
  | api (api : Api) (code : th.doing = .code) (awake : k.pid ≠ pidIdle) :
      Moves trampoline k th (.api api) none (k.setThread k.interrupts ⟨.calling (.call api.call), th.frames⟩)
  | spawn (name : String) (owner : OwnerId) (entry : UInt64) (kernelStack : KernelStack) (proc : Process) (mem : Bytes.Memory)
      (code : th.doing = .code) (awake : k.pid ≠ pidIdle) (pid : proc.pid = k.nextPid) (left : k.nextPid ≠ 0xFFFFFFFFFFFFFFFF) :
      Moves trampoline k th (.spawn name owner entry kernelStack) none
        ((k.setPids (k.nextPid + 1) mem).setThread k.interrupts ⟨.calling (.call (.spawn proc)), th.frames⟩)
  | iret (saved : Bool) (resume : Doing) (frames : List Frame) (code : th.doing = .code)
      (interrupted : th.frames = .irq saved resume :: frames) :
      Moves trampoline k th .go none (k.setThread saved ⟨resume, frames⟩)
  | read (goal : Goal) (calling : th.doing = .calling goal) :
      Moves trampoline k th .go none (k.setThread k.interrupts ⟨.guarding k.interrupts goal, th.frames⟩)
  | maskHold (saved : Bool) (guarding : th.doing = .guarding saved .hold) :
      Moves trampoline k th .go none (k.setThread false ⟨.code, .guard saved :: th.frames⟩)
  | maskCall (saved : Bool) (call : Scheduler.Call) (guarding : th.doing = .guarding saved (.call call)) :
      Moves trampoline k th .go none (k.setThread false ⟨.inside call (.entry call), .guard saved :: th.frames⟩)
  | access (call : Scheduler.Call) (body body' : Body) (s : Scheduler) (inside : th.doing = .inside call body)
      (accessed : body.access k.scheduler = some (s, body')) :
      Moves trampoline k th .go none ((k.setScheduler s).setThread k.interrupts ⟨.inside call body', th.frames⟩)
  | switch (call : Scheduler.Call) (next : Process) (inside : th.doing = .inside call (.stashed next)) :
      Moves trampoline k th .go (some (call, some next)) (k.contextSwitch th.frames next)
  | done (call : Scheduler.Call) (inside : th.doing = .inside call .done) :
      Moves trampoline k th .go (some (call, none)) (k.setThread k.interrupts ⟨.leaving, th.frames⟩)
  | leave (saved : Bool) (frames : List Frame) (leaving : th.doing = .leaving) (guarded : th.frames = .guard saved :: frames) :
      Moves trampoline k th .go none (k.setThread saved ⟨.code, frames⟩)

/-- Code runs, and not that of the idle task. -/
theorem atCode_spec (h : k.atCode th = true) : th.doing = .code ∧ k.pid ≠ pidIdle := by
  obtain ⟨doing, frames⟩ := th
  cases doing with
  | code =>
    refine ⟨rfl, ?_⟩
    cases frames with
    | nil => simpa [atCode] using h
    | cons f frames =>
      cases f with
      | guard saved => simpa [atCode] using h
      | irq saved resume => cases h
  | _ => cases h

/-- What is under way goes on by one of the moves. -/
theorem go_moves (h : k.go th = some (out, k')) : Moves trampoline k th .go out k' := by
  obtain ⟨doing, frames⟩ := th
  cases doing with
  | code =>
    cases frames with
    | nil => cases h
    | cons f frames =>
      cases f with
      | guard saved => cases h
      | irq saved resume =>
        cases h
        exact .iret saved resume frames rfl rfl
  | calling goal =>
    cases h
    exact .read goal rfl
  | guarding saved goal =>
    cases goal with
    | hold =>
      cases h
      exact .maskHold saved rfl
    | call call =>
      cases h
      exact .maskCall saved call rfl
  | inside call body =>
    have haccess : ∀ {body : Body}, (body.access k.scheduler).map (fun r =>
        ((none : Option (Scheduler.Call × Option Process)), (k.setScheduler r.1).setThread k.interrupts ⟨.inside call r.2, frames⟩)) =
        some (out, k') → Moves trampoline k ⟨.inside call body, frames⟩ .go out k' := by
      intro body h
      obtain ⟨⟨s, body'⟩, haccessed, heq⟩ := Option.map_eq_some_iff.mp h
      cases heq
      exact .access call body body' s rfl haccessed
    cases body with
    | stashed next =>
      cases h
      exact .switch call next rfl
    | done =>
      cases h
      exact .done call rfl
    | entry call' => exact haccess h
    | schedule rsp exits => exact haccess h
    | picked next rsp => exact haccess h
  | leaving =>
    cases frames with
    | nil => cases h
    | cons f frames =>
      cases f with
      | guard saved =>
        cases h
        exact .leave saved frames rfl rfl
      | irq saved resume => cases h

/-- A step is one of the moves of the task on the CPU. -/
theorem step_moves (h : k.step trampoline act = some (out, k')) :
    ∃ th, k.threads k.pid = some th ∧ Moves trampoline k th act out k' := by
  obtain ⟨th, hth, h⟩ := Option.bind_eq_some_iff.mp h
  refine ⟨th, hth, ?_⟩
  cases act with
  | timer rsp =>
    simp only [Option.ite_none_right_eq_some, Option.some.injEq, Prod.mk.injEq] at h
    obtain ⟨hon, rfl, rfl⟩ := h
    exact .timer rsp hon
  | hold =>
    simp only [Option.ite_none_right_eq_some, Option.some.injEq, Prod.mk.injEq] at h
    obtain ⟨hcode, rfl, rfl⟩ := h
    exact .hold (atCode_spec hcode).1
  | release =>
    dsimp only at h
    split at h
    · rename_i saved frames hcode hframes
      cases h
      exact .release saved frames (atCode_spec hcode).1 hframes
    · cases h
  | api api =>
    simp only [Option.ite_none_right_eq_some, Option.some.injEq, Prod.mk.injEq] at h
    obtain ⟨hcode, rfl, rfl⟩ := h
    exact .api api (atCode_spec hcode).1 (atCode_spec hcode).2
  | spawn name owner entry kernelStack =>
    simp only [Option.ite_none_right_eq_some] at h
    obtain ⟨hcode, h⟩ := h
    obtain ⟨⟨proc, nextPid, mem⟩, hnew, h⟩ := Option.bind_eq_some_iff.mp h
    obtain ⟨hleft, hpid, rfl⟩ := Process.new_eq_some hnew
    cases h
    exact .spawn name owner entry kernelStack proc mem (atCode_spec hcode).1 (atCode_spec hcode).2 hpid hleft
  | go => exact go_moves h

/-! ## The flags -/

/-- The idle task makes no call but `tick`, in the handler. -/
def Allowed (pid : Pid) (call : Scheduler.Call) : Prop := pid = pidIdle → ∃ rsp, call = .tick rsp

/-- A task can be at this point with these flags, out of a call. -/
def Fits (pid : Pid) (now : Bool) : Doing → Prop
  | .code | .calling .hold => True
  | .calling (.call call) => Allowed pid call
  | .guarding saved .hold => saved = now
  | .guarding saved (.call call) => saved = now ∧ Allowed pid call
  | .inside _ _ | .leaving => False

/-- The flags are what the frames make of those that the task started with. -/
def Nested (pid : Pid) (base : Bool) : Bool → List Frame → Prop
  | now, [] => now = base
  | now, .guard saved :: frames => now = false ∧ Nested pid base saved frames
  | now, .irq saved resume :: frames => now = false ∧ saved = true ∧ Fits pid true resume ∧ Nested pid base true frames

/-- A guard is the innermost frame. -/
def Guarded (frames : List Frame) : Prop := ∃ saved rest, frames = .guard saved :: rest

/-- A task can be at this point with these flags and these frames. -/
def Placed (pid : Pid) (now : Bool) (th : Thread) : Prop :=
  match th.doing with
  | .inside call _ => Allowed pid call ∧ Guarded th.frames
  | .leaving => Guarded th.frames
  | doing => Fits pid now doing

/-- Under a guard or in a handler interrupts are masked. -/
theorem Nested.eq_false {pid : Pid} {base now : Bool} {frames : List Frame} (h : Nested pid base now frames) (hframes : frames ≠ []) :
    now = false := by
  cases frames with
  | nil => exact absurd rfl hframes
  | cons f frames =>
    cases f with
    | guard saved => exact h.1
    | irq saved resume => exact h.1

/-- Under a guard there is a guard. -/
theorem Guarded.ne_nil {frames : List Frame} (h : Guarded frames) : frames ≠ [] := by
  obtain ⟨saved, rest, rfl⟩ := h
  exact List.cons_ne_nil _ _

/-- A task that fits where it is, is placed there. -/
theorem placed_of_fits {pid : Pid} {now : Bool} {doing : Doing} {frames : List Frame} (h : Fits pid now doing) :
    Placed pid now ⟨doing, frames⟩ := by
  cases doing with
  | inside call body => exact h.elim
  | leaving => exact h.elim
  | _ => exact h

/-- With interrupts on, a task is not in a call. -/
theorem Placed.fits {pid : Pid} {base : Bool} {th : Thread} (h : Placed pid true th) (hnested : Nested pid base true th.frames) :
    Fits pid true th.doing := by
  have hnot : ¬Guarded th.frames := by
    intro hguarded
    cases hnested.eq_false hguarded.ne_nil
  unfold Placed at h
  split at h
  · exact absurd h.2 hnot
  · exact absurd h hnot
  · exact h

/-! ## The invariant -/

/-- The flags that a task starts with. -/
def base (interrupts : Bool) (pid : Pid) : Bool := if pid = pidBootstrap then interrupts else true

/-- The scheduler is this one, or is on the way from it in a call. -/
def Reflects (s a : Scheduler) : Doing → Prop
  | .inside call body => body.finish s = a.call call
  | _ => s = a

/-- The task on the CPU is the current one, of a scheduler that has been called so far as a whole; the others are in calls in which they
have left the CPU. -/
structure Inv (interrupts : Bool) (a : Scheduler) (k : Kernel) : Prop where
  live : ∃ c, Live a c ∧ c.pid = k.pid
  here : ∃ th, k.threads k.pid = some th ∧ Nested k.pid (base interrupts k.pid) k.interrupts th.frames ∧
    Placed k.pid k.interrupts th ∧ Reflects k.scheduler a th.doing
  others : ∀ p th, p ≠ k.pid → k.threads p = some th →
    th.doing = .leaving ∧ Guarded th.frames ∧ Nested p (base interrupts p) false th.frames
  bootstrap : (k.threads pidBootstrap).isSome = true

variable {interrupts : Bool} {a : Scheduler}

/-- The task on the CPU goes on to another point, of the same call of the scheduler or after it. -/
theorem Inv.setThread (h : Inv interrupts a k) (k₁ : Kernel) {a' : Scheduler} (hpid : k₁.pid = k.pid) (hthreads : k₁.threads = k.threads)
    (hlive : ∃ c, Live a' c ∧ c.pid = k.pid) {now : Bool} {th : Thread} (hplaced : Placed k.pid now th)
    (hnested : Nested k.pid (base interrupts k.pid) now th.frames) (hreflects : Reflects k₁.scheduler a' th.doing) :
    Inv interrupts a' (k₁.setThread now th) := by
  rw [← hpid] at hlive hnested hplaced
  refine ⟨hlive, ⟨th, Function.update_self _ _ _, hnested, hplaced, hreflects⟩, ?_, ?_⟩
  · intro p th' hp hth'
    have hp' : p ≠ k₁.pid := hp
    rw [setThread_threads, Function.update_of_ne hp', hthreads] at hth'
    exact h.others p th' (hpid ▸ hp') hth'
  · rw [setThread_threads, Function.update_apply]
    split
    · rfl
    · rw [hthreads]
      exact h.bootstrap

/-- The current task after a call. -/
theorem currentPid_of_effect {s s' : Scheduler} {c : Process} {call : Scheduler.Call} {next : Option Process} (hlive : Live s c)
    (h : Effect s c call next s') : s'.currentPid = some ((next.map (·.pid)).getD c.pid) := by
  cases h with
  | spawn | wake | missing => exact hlive.currentPid
  | _ => rfl

/-- A call as a whole, while this task is the current one. -/
theorem live_of_call {s s' : Scheduler} {pid : Pid} {call : Scheduler.Call} {next : Option Process} (hlive : ∃ c, Live s c ∧ c.pid = pid)
    (hpermitted : s.permitted call) (h : s.call call = some (next, s')) :
    ∃ c, Live s' c ∧ c.pid = (next.map (·.pid)).getD pid := by
  obtain ⟨c, hlive, rfl⟩ := hlive
  obtain ⟨next', s'', hcall, heffect⟩ := Scheduler.effect_call hlive call hpermitted
  obtain ⟨rfl, rfl⟩ := Prod.mk.inj (Option.some.inj (hcall.symm.trans h))
  obtain ⟨c', hlive'⟩ := hlive.of_effect heffect
  exact ⟨c', hlive', Option.some.inj (hlive'.currentPid.symm.trans (currentPid_of_effect hlive heffect))⟩

/-- A call that the task on the CPU may make is one that the scheduler permits. -/
theorem permitted_of_allowed {s : Scheduler} {pid : Pid} {call : Scheduler.Call} (hlive : ∃ c, Live s c ∧ c.pid = pid)
    (h : Allowed pid call) : s.permitted call := by
  obtain ⟨c, hlive, rfl⟩ := hlive
  have hidle : (∀ rsp, call ≠ .tick rsp) → s.currentPid ≠ some pidIdle := by
    intro htick hcurrent
    rw [hlive.currentPid] at hcurrent
    obtain ⟨rsp, rfl⟩ := h (Option.some.inj hcurrent)
    exact htick rsp rfl
  cases call with
  | blockCurrent rsp => exact hidle fun _ h => by cases h
  | exitCurrent rsp => exact hidle fun _ h => by cases h
  | _ => trivial

/-- The task that gets the CPU goes on in its own call, or starts with interrupts on. -/
theorem Inv.contextSwitch (h : Inv interrupts a k) {frames : List Frame} {next : Process} (hguarded : Guarded frames)
    (hnested : Nested k.pid (base interrupts k.pid) false frames) (hoff : k.interrupts = false)
    (hlive : ∃ c, Live { k.scheduler with current := some next.dispatched } c ∧ c.pid = next.pid) :
    Inv interrupts { k.scheduler with current := some next.dispatched } (k.contextSwitch frames next) := by
  -- all tasks that have run are in calls in which they have left the CPU
  have hleft : ∀ p th, Function.update k.threads k.pid (some ⟨.leaving, frames⟩) p = some th →
      th.doing = .leaving ∧ Guarded th.frames ∧ Nested p (base interrupts p) false th.frames := by
    intro p th hth
    rw [Function.update_apply] at hth
    split at hth
    · rename_i hp
      cases hth
      subst hp
      exact ⟨rfl, hguarded, hnested⟩
    · rename_i hp
      exact h.others p th hp hth
  have hbootstrap : (Function.update k.threads k.pid (some ⟨.leaving, frames⟩) pidBootstrap).isSome = true := by
    rw [Function.update_apply]
    split
    · rfl
    · exact h.bootstrap
  unfold Kernel.contextSwitch
  dsimp only [setThread_threads]
  split
  · rename_i th hth
    obtain ⟨hdoing, hguarded', hnested'⟩ := hleft next.pid th hth
    refine ⟨hlive, ⟨th, hth, ?_, ?_, ?_⟩, ?_, hbootstrap⟩
    · exact hoff ▸ hnested'
    · rw [Placed, hdoing]
      exact hguarded'
    · rw [hdoing]
      rfl
    · intro p th' _ hth'
      exact hleft p th' hth'
  · rename_i hth
    have hnone : Function.update k.threads k.pid (some ⟨.leaving, frames⟩) next.pid = none := hth
    have hne : next.pid ≠ pidBootstrap := by
      intro heq
      rw [← heq, hnone] at hbootstrap
      cases hbootstrap
    refine ⟨hlive, ⟨_, Function.update_self _ _ _, ?_, trivial, rfl⟩, ?_, ?_⟩
    · exact (if_neg hne).symm
    · intro p th' hp hth'
      exact hleft p th' ((Function.update_of_ne hp _ _).symm.trans hth')
    · exact (congrArg Option.isSome (Function.update_of_ne (Ne.symm hne) _ _)).trans hbootstrap

/-- Every move leaves the scheduler's calls as they were, or makes one more. -/
theorem Inv.moves (h : Inv interrupts a k) (hth : k.threads k.pid = some th) (hmoves : Moves trampoline k th act out k') :
    (out = none ∧ Inv interrupts a k') ∨
      ∃ call next a', out = some (call, next) ∧ a.permitted call ∧ a.call call = some (next, a') ∧ Inv interrupts a' k' := by
  obtain ⟨th', hth', hnested, hplaced, hreflects⟩ := h.here
  obtain rfl := Option.some.inj (hth.symm.trans hth')
  cases hmoves with
  | timer rsp on =>
    rw [on] at hnested hplaced
    have hfits := hplaced.fits hnested
    refine .inl ⟨rfl, h.setThread k rfl rfl h.live (fun _ => ⟨rsp, rfl⟩) ⟨rfl, rfl, hfits, hnested⟩ ?_⟩
    cases hdoing : th.doing with
    | inside call body =>
      rw [hdoing] at hfits
      exact hfits.elim
    | _ =>
      rw [hdoing] at hreflects
      exact hreflects
  | hold code =>
    rw [code] at hreflects
    exact .inl ⟨rfl, h.setThread k rfl rfl h.live trivial hnested hreflects⟩
  | release saved frames code guarded =>
    rw [guarded] at hnested
    rw [code] at hreflects
    exact .inl ⟨rfl, h.setThread k rfl rfl h.live trivial hnested.2 hreflects⟩
  | api api code awake =>
    rw [code] at hreflects
    exact .inl ⟨rfl, h.setThread k rfl rfl h.live (fun hidle => absurd hidle awake) hnested hreflects⟩
  | spawn name owner entry kernelStack proc mem code awake pid left =>
    rw [code] at hreflects
    have hplaced' : Placed k.pid k.interrupts ⟨.calling (.call (.spawn proc)), th.frames⟩ := fun hidle => absurd hidle awake
    exact .inl ⟨rfl, h.setThread (k.setPids (k.nextPid + 1) mem) rfl rfl h.live hplaced' hnested hreflects⟩
  | iret saved resume frames code interrupted =>
    rw [interrupted] at hnested
    obtain ⟨-, rfl, hfits, hrest⟩ := hnested
    rw [code] at hreflects
    refine .inl ⟨rfl, h.setThread k rfl rfl h.live (placed_of_fits hfits) hrest ?_⟩
    cases resume with
    | inside call body => exact hfits.elim
    | _ => exact hreflects
  | read goal calling =>
    rw [calling] at hreflects
    rw [Placed, calling] at hplaced
    refine .inl ⟨rfl, h.setThread k rfl rfl h.live ?_ hnested hreflects⟩
    cases goal with
    | hold => rfl
    | call call => exact ⟨rfl, hplaced⟩
  | maskHold saved guarding =>
    rw [guarding] at hreflects
    rw [Placed, guarding] at hplaced
    obtain rfl : saved = k.interrupts := hplaced
    exact .inl ⟨rfl, h.setThread k rfl rfl h.live trivial ⟨rfl, hnested⟩ hreflects⟩
  | maskCall saved call guarding =>
    rw [guarding] at hreflects
    rw [Placed, guarding] at hplaced
    obtain ⟨rfl, hallowed⟩ : saved = k.interrupts ∧ Allowed k.pid call := hplaced
    obtain rfl : k.scheduler = a := hreflects
    exact .inl ⟨rfl, h.setThread k rfl rfl h.live ⟨hallowed, _, _, rfl⟩ ⟨rfl, hnested⟩ rfl⟩
  | access call body body' s inside accessed =>
    rw [inside] at hreflects
    rw [Placed, inside] at hplaced
    have hplaced' : Placed k.pid k.interrupts ⟨.inside call body', th.frames⟩ := hplaced
    have hfinish : body'.finish s = a.call call := (Body.finish_access accessed).trans hreflects
    exact .inl ⟨rfl, h.setThread (k.setScheduler s) rfl rfl h.live hplaced' hnested hfinish⟩
  | switch call next inside =>
    rw [inside] at hreflects
    rw [Placed, inside] at hplaced
    obtain ⟨hallowed, hguarded⟩ := hplaced
    have hpermitted := permitted_of_allowed h.live hallowed
    have hcall : a.call call = some (some next, { k.scheduler with current := some next.dispatched }) := hreflects.symm
    refine .inr ⟨call, some next, _, rfl, hpermitted, hcall, ?_⟩
    have hoff : k.interrupts = false := hnested.eq_false hguarded.ne_nil
    exact h.contextSwitch hguarded (hoff ▸ hnested) hoff (live_of_call h.live hpermitted hcall)
  | done call inside =>
    rw [inside] at hreflects
    rw [Placed, inside] at hplaced
    obtain ⟨hallowed, hguarded⟩ := hplaced
    have hpermitted := permitted_of_allowed h.live hallowed
    have hcall : a.call call = some (none, k.scheduler) := hreflects.symm
    exact .inr ⟨call, none, k.scheduler, rfl, hpermitted, hcall,
      h.setThread k rfl rfl (live_of_call h.live hpermitted hcall) hguarded hnested rfl⟩
  | leave saved frames leaving guarded =>
    rw [guarded] at hnested
    rw [leaving] at hreflects
    exact .inl ⟨rfl, h.setThread k rfl rfl h.live trivial hnested.2 hreflects⟩

end Kernel

end Sched

end GolemKernel
