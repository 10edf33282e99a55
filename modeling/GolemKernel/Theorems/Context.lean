import GolemKernel.Scheduler.Context

/-!
# Tasks keep their machine state

A task that waits for a turn is described by the context it waits with. That context lies in the frame at the top of its own stack,
and the stack pointer of the frame is in its own slot. Every step of the running task leaves it there. A switch then gives it back:
the six registers, the stack pointer and the address to continue at.

The frame that `init_kernel_stack` lays out is that of a task which had called `context_switch` from the trampoline.
-/

namespace GolemKernel

namespace Sched

open X86
open GolemKernel.Memory

/-! ## The routine -/

/-- The words a call of `context_switch` puts on the stack, in that order. -/
def CallContext.frame (c : CallContext) : List UInt64 := [c.returnAddress, c.rbp, c.rbx, c.r12, c.r13, c.r14, c.r15]

/-- The context whose frame is right below a stack pointer. -/
def contextAt (mem : Bytes.Memory) (sp : UInt64) : CallContext where
  returnAddress := loadWord mem (sp - 8)
  rbp := loadWord mem (sp - 16)
  rbx := loadWord mem (sp - 24)
  r12 := loadWord mem (sp - 32)
  r13 := loadWord mem (sp - 40)
  r14 := loadWord mem (sp - 48)
  r15 := loadWord mem (sp - 56)
  rsp := sp

/-- A context that was pushed is read back. -/
theorem contextAt_of_stacked {mem : Bytes.Memory} {c : CallContext} (h : Stacked mem c.rsp c.frame) : contextAt mem c.rsp = c := by
  have hsub : ∀ a b : UInt64, c.rsp - a - b = c.rsp - (a + b) := by
    intro a b
    grind
  simp only [CallContext.frame, Stacked, hsub, UInt64.reduceAdd] at h
  obtain ⟨hra, hrbp, hrbx, hr12, hr13, hr14, hr15, -⟩ := h
  rw [contextAt, hra, hrbp, hrbx, hr12, hr13, hr14, hr15]

/-- A switch stores the frame of the caller on its stack, and the stack pointer in its slot. -/
theorem mem_contextSwitch (m : Machine) (ra : UInt64) :
    ((m.call ra).run contextSwitch).mem =
      storeWord (pushWords m.mem (m.regs .rsp) (callContext m ra).frame) (m.regs .rdi) (m.regs .rsp - 56) := by
  have hsp : m.regs .rsp - 8 - 8 - 8 - 8 - 8 - 8 - 8 = m.regs .rsp - 56 := by grind
  simp [Machine.run, contextSwitch, Machine.exec, Machine.call, Machine.pushValue, Machine.popValue, CallContext.frame, callContext,
    pushWords, hsp]

/-- A switch takes up the context whose frame is at the incoming stack pointer. -/
theorem callContext_contextSwitch {m : Machine} {ra sp : UInt64} (hrsi : m.regs .rsi = sp - 56) :
    callContext ((m.call ra).run contextSwitch) ((m.call ra).run contextSwitch).rip =
      contextAt ((m.call ra).run contextSwitch).mem sp := by
  -- the pops go up from `sp - 56`; each address is that of its word in the frame
  have h₁ : sp - 56 + 8 = sp - 48 := by grind
  have h₂ : sp - 48 + 8 = sp - 40 := by grind
  have h₃ : sp - 40 + 8 = sp - 32 := by grind
  have h₄ : sp - 32 + 8 = sp - 24 := by grind
  have h₅ : sp - 24 + 8 = sp - 16 := by grind
  have h₆ : sp - 16 + 8 = sp - 8 := by grind
  simp [Machine.run, contextSwitch, Machine.exec, Machine.call, Machine.pushValue, Machine.popValue, callContext, contextAt, hrsi,
    h₁, h₂, h₃, h₄, h₅, h₆]

/-! ## The launch frame -/

namespace KernelStack

/-- The end of a stack, down to a multiple of sixteen. -/
def top (stack : KernelStack) : UInt64 := UInt64.ofNat ((stack.base + stack.size) % 2 ^ 64 &&& not64 0xF)

/-- The top of a stack is its end, aligned down to 16 bytes. -/
theorem toNat_top (stack : KernelStack) :
    stack.top.toNat = (stack.base + stack.size) % 2 ^ 64 &&& not64 0xF ∧
      stack.top.toNat = (stack.base + stack.size) % 2 ^ 64 / 16 * 16 := by
  have hmask : (stack.base + stack.size) % 2 ^ 64 &&& not64 0xF = (stack.base + stack.size) % 2 ^ 64 / 16 * 16 :=
    and_not64 (k := 4) (Nat.mod_lt _ (by decide)) (by decide)
  have htop : stack.top.toNat = ((stack.base + stack.size) % 2 ^ 64 &&& not64 0xF) % 2 ^ 64 := UInt64.toNat_ofNat'
  omega

/-- The frame and its pad lie in the buffer: at most fifteen bytes are lost to the alignment. -/
theorem below_top {stack : KernelStack} (hsize : 80 ≤ stack.size) : below stack.top 64 ⊆ stack.region := by
  intro b hb
  obtain ⟨-, htop⟩ := stack.toNat_top
  have := b.toNat_lt
  rw [mem_below] at hb
  rw [region, mem_span]
  simp only [UInt64.toNat_sub, UInt64.toNat_ofNat', UInt64.reduceToNat] at hb ⊢
  omega

end KernelStack

/-- The context a task is launched with. -/
def launchContext (trampoline : UInt64) (stack : KernelStack) (entry : UInt64) : CallContext where
  returnAddress := trampoline
  rbp := 0
  rbx := 0
  r12 := entry
  r13 := 0
  r14 := 0
  r15 := 0
  rsp := stack.top - 8

/-- A word is pushed below the stack pointer, which stays aligned. -/
theorem pushWord_eq (mem : Bytes.Memory) (sp w : UInt64) (hsp : sp.toNat % 8 = 0) :
    pushWord mem sp.toNat w = ((sp - 8).toNat, storeWord mem (sp - 8) w) ∧ (sp - 8).toNat % 8 = 0 := by
  have := sp.toNat_lt
  have hsub : wrappingSub sp.toNat 8 = (sp - 8).toNat := by
    rw [wrappingSub, UInt64.toNat_sub, Nat.add_comm]
    rfl
  have hval : (sp - 8).toNat = (2 ^ 64 - 8 + sp.toNat) % 2 ^ 64 := UInt64.toNat_sub ..
  refine ⟨?_, by omega⟩
  rw [storeWord_eq_write mem w (by omega), pushWord, hsub]

/-- Words pushed from an aligned stack pointer. -/
theorem foldl_pushWord (mem : Bytes.Memory) {sp : UInt64} (ws : List UInt64) (hsp : sp.toNat % 8 = 0) :
    ws.foldl (fun p w => pushWord p.2 p.1 w) (sp.toNat, mem) =
      ((sp - 8 * UInt64.ofNat ws.length).toNat, pushWords mem sp ws) := by
  induction ws generalizing mem sp with
  | nil => simp [pushWords]
  | cons w ws ih =>
    obtain ⟨hpush, hsp'⟩ := pushWord_eq mem sp w hsp
    have hlen : sp - 8 - 8 * UInt64.ofNat ws.length = sp - 8 * UInt64.ofNat (w :: ws).length := by
      rw [List.length_cons, UInt64.ofNat_add]
      grind
    rw [List.foldl_cons, hpush, ih _ hsp', pushWords, hlen]

/-- `init_kernel_stack` pushes a pad and the launch frame from the aligned top of the stack. -/
theorem initKernelStack_eq (trampoline : UInt64) (mem : Bytes.Memory) (stack : KernelStack) (entry : UInt64) :
    initKernelStack trampoline mem stack entry =
      ((stack.top - 64).toNat, pushWords mem stack.top (0 :: (launchContext trampoline stack entry).frame)) := by
  obtain ⟨hmask, haligned⟩ := stack.toNat_top
  have htop : stack.top.toNat % 8 = 0 := by omega
  have hpushes := foldl_pushWord mem (0 :: (launchContext trampoline stack entry).frame) htop
  rw [hmask] at hpushes
  exact hpushes

/-! ## Parked tasks -/

namespace Layout

variable {ι : Type} (ℓ : Layout ι)

/-- No byte is owned by two tasks. -/
theorem owned_apart {i j : ι} (hij : i ≠ j) : Disjoint (ℓ.owned i) (ℓ.owned j) := by
  unfold owned
  rw [Set.disjoint_union_left, Set.disjoint_union_right, Set.disjoint_union_right]
  exact ⟨⟨ℓ.stacks_apart i j hij, (ℓ.slot_off_stack j i).symm⟩, ℓ.slot_off_stack i j, ℓ.slots_apart i j hij⟩

/-- The context a task waits with. -/
def awaiting (i : ι) : Status → Option CallContext
  | .launched entry => some (launchContext ℓ.trampoline (ℓ.stack i) entry)
  | .suspended c => some c
  | .absent | .running => none

/-- A task is parked exactly if a context waits for it. -/
theorem parked_iff (i : ι) (status : Status) : status.Parked ↔ ∃ c, ℓ.awaiting i status = some c := by
  cases status <;> simp [Status.Parked, awaiting]

/-- A task waits with a context: its slot leads to the frame of that context, and the frame is on its own stack. -/
structure Holds (mem : Bytes.Memory) (i : ι) (c : CallContext) : Prop where
  saved : loadWord mem (ℓ.slot i) = c.rsp - 56
  frame : Stacked mem c.rsp c.frame
  inside : below c.rsp 56 ⊆ (ℓ.stack i).region

variable {ℓ}

/-- A context is kept as long as the bytes of its task are. -/
theorem Holds.congr {mem mem' : Bytes.Memory} {i : ι} {c : CallContext} (h : ℓ.Holds mem i c)
    (hsame : AgreeOn (ℓ.owned i) mem mem') : ℓ.Holds mem' i c where
  saved := by rw [loadWord_congr (hsame.mono Set.subset_union_right), h.saved]
  frame := h.frame.congr (by simp [CallContext.frame]) (hsame.mono fun _ hb => Or.inl (h.inside hb))
  inside := h.inside

/-- A frame pushed on the own stack of a task, and the stack pointer after it in the slot of the task. -/
theorem holds_pushWords (mem : Bytes.Memory) {i : ι} {c : CallContext} (hroom : below c.rsp 56 ⊆ (ℓ.stack i).region) :
    ℓ.Holds (storeWord (pushWords mem c.rsp c.frame) (ℓ.slot i) (c.rsp - 56)) i c where
  saved := loadWord_storeWord ..
  frame := by
    refine (stacked_pushWords mem c.rsp (by simp [CallContext.frame])).congr (by simp [CallContext.frame]) ?_
    refine agreeOn_storeWord _ _ ?_
    exact (ℓ.slot_off_stack i i).symm.mono_left hroom
  inside := hroom

/-- `launch` is the launch frame pushed below a pad, with the stack pointer in the slot. -/
theorem launch_eq (mem : Bytes.Memory) (i : ι) (entry : UInt64) :
    ℓ.launch mem i entry =
      storeWord (pushWords mem (ℓ.stack i).top (0 :: (launchContext ℓ.trampoline (ℓ.stack i) entry).frame)) (ℓ.slot i)
        ((ℓ.stack i).top - 64) := by
  simp only [launch, initKernelStack_eq, UInt64.ofNat_toNat]

/-- A launched task has the context that it is to start with. -/
theorem holds_launch (mem : Bytes.Memory) {i : ι} (entry : UInt64) (hsize : 80 ≤ (ℓ.stack i).size) :
    ℓ.Holds (ℓ.launch mem i entry) i (launchContext ℓ.trampoline (ℓ.stack i) entry) := by
  have hroom : below ((ℓ.stack i).top - 8) 56 ⊆ (ℓ.stack i).region := by
    intro b hb
    apply KernelStack.below_top hsize
    exact (mem_below_add (n := 56) (by norm_num)).2 (Or.inr hb)
  have hrsp : (ℓ.stack i).top - 64 = (ℓ.stack i).top - 8 - 56 := by grind
  rw [launch_eq, hrsp, pushWords]
  exact holds_pushWords (c := launchContext ℓ.trampoline (ℓ.stack i) entry) (storeWord mem ((ℓ.stack i).top - 8) 0) hroom

/-- Words pushed within a set of addresses, and a word stored in it, are not seen outside. -/
theorem agreeOn_pushWords {R S : Set UInt64} (hRS : Disjoint R S) (mem : Bytes.Memory) {sp a w : UInt64} {ws : List UInt64}
    (hlen : 8 * ws.length ≤ 2 ^ 64) (hpush : below sp (8 * ws.length) ⊆ S) (hstore : span a 8 ⊆ S) :
    AgreeOn R mem (storeWord (pushWords mem sp ws) a w) := by
  intro b hb
  have hb' : b ∉ S := Set.disjoint_left.1 hRS hb
  rw [storeWord_of_notMem _ w fun h => hb' (hstore h), pushWords_of_notMem hlen fun h => hb' (hpush h)]

/-- A launch leaves the bytes of every other task alone. -/
theorem agreeOn_launch (mem : Bytes.Memory) {i j : ι} (entry : UInt64) (hsize : 80 ≤ (ℓ.stack i).size) (hji : j ≠ i) :
    AgreeOn (ℓ.owned j) mem (ℓ.launch mem i entry) := by
  rw [launch_eq]
  refine agreeOn_pushWords (ℓ.owned_apart hji) mem (by simp [CallContext.frame]) ?_ Set.subset_union_right
  exact (KernelStack.below_top hsize).trans Set.subset_union_left

/-- So does a switch. -/
theorem agreeOn_contextSwitch {m : Machine} {i j : ι} {ra : UInt64} (hroom : below (m.regs .rsp) 56 ⊆ (ℓ.stack i).region)
    (hslot : span (m.regs .rdi) 8 ⊆ ℓ.owned i) (hji : j ≠ i) :
    AgreeOn (ℓ.owned j) m.mem ((m.call ra).run contextSwitch).mem := by
  rw [mem_contextSwitch]
  exact agreeOn_pushWords (ℓ.owned_apart hji) m.mem (by simp [CallContext.frame]) (hroom.trans Set.subset_union_left) hslot

/-! ## Runs -/

/-- One task runs, and every task that waits has its context in memory. -/
structure Inv (ℓ : Layout ι) (s : System ι) : Prop where
  running : ∀ i, s.status i = .running ↔ i = s.current
  holds : ∀ i c, ℓ.awaiting i (s.status i) = some c → ℓ.Holds s.machine.mem i c

section

variable {s : System ι} {j : ι} {ra : UInt64}

/-- The task on the CPU is not parked. -/
theorem Inv.ne_current (hs : ℓ.Inv s) {i : ι} (hi : (s.status i).Parked) : i ≠ s.current := by
  intro heq
  rw [(hs.running i).2 heq] at hi
  exact hi

/-- The tasks that wait while the running one calls `context_switch` still have their contexts after it. -/
theorem Inv.holds_contextSwitch (hs : ℓ.Inv s) (hcalls : ℓ.Calls s j)
    (hslot : span (s.machine.regs .rdi) 8 ⊆ ℓ.owned s.current) {k : ι} {c : CallContext}
    (hk : ℓ.awaiting k (s.status k) = some c) : ℓ.Holds ((s.machine.call ra).run contextSwitch).mem k c := by
  have hne : k ≠ s.current := hs.ne_current ((ℓ.parked_iff k _).2 ⟨c, hk⟩)
  exact (hs.holds k c hk).congr (agreeOn_contextSwitch hcalls.room hslot hne)

/-- The task that is switched to has the context it waited with. -/
theorem Inv.resumes (hs : ℓ.Inv s) (hcalls : ℓ.Calls s j) (hslot : span (s.machine.regs .rdi) 8 ⊆ ℓ.owned s.current)
    {c : CallContext} (hj : ℓ.awaiting j (s.status j) = some c) :
    callContext ((s.machine.call ra).run contextSwitch) ((s.machine.call ra).run contextSwitch).rip = c := by
  have hrsi : s.machine.regs .rsi = c.rsp - 56 := by rw [hcalls.incoming, (hs.holds j c hj).saved]
  rw [callContext_contextSwitch hrsi, contextAt_of_stacked (hs.holds_contextSwitch hcalls hslot hj).frame]

variable [DecidableEq ι]

/-- At boot one task runs and none is parked. -/
theorem Inv.boot (machine : Machine) (i : ι) : ℓ.Inv (System.boot machine i) where
  running k := by
    by_cases hk : k = i <;> simp [hk, System.boot]
  holds k c hc := by
    by_cases hk : k = i <;> simp [hk, System.boot, awaiting] at hc

/-- After a switch the target runs, the outgoing task is what the switch made of it, and the others are as they were. -/
theorem Inv.contextSwitch (hs : ℓ.Inv s) (hcalls : ℓ.Calls s j) (hslot : span (s.machine.regs .rdi) 8 ⊆ ℓ.owned s.current)
    {out : Status} (hout : out ≠ .running)
    (hheld : ∀ c, ℓ.awaiting s.current out = some c → ℓ.Holds ((s.machine.call ra).run contextSwitch).mem s.current c) :
    ℓ.Inv (s.contextSwitch j ra out) where
  running k := by
    by_cases hkj : k = j
    · simp [hkj, System.contextSwitch]
    · by_cases hk : k = s.current
      · simp [hk, hout, hk ▸ hkj, System.contextSwitch]
      · simp [hkj, hk, hs.running, System.contextSwitch]
  holds k c hc := by
    by_cases hkj : k = j
    · simp [hkj, System.contextSwitch, awaiting] at hc
    · by_cases hk : k = s.current
      · subst hk
        simp only [System.contextSwitch, Function.update_of_ne hkj, Function.update_self] at hc
        exact hheld c hc
      · simp only [System.contextSwitch, Function.update_of_ne hkj, Function.update_of_ne hk] at hc
        exact hs.holds_contextSwitch hcalls hslot hc

end

variable [DecidableEq ι]

/-- Every step keeps the contexts of the parked tasks. -/
theorem Step.inv {s s' : System ι} {e : Event ι} (h : ℓ.Step s e s') (hs : ℓ.Inv s) : ℓ.Inv s' := by
  cases h with
  | work machine spared =>
    exact ⟨hs.running, fun i c hc => (hs.holds i c hc).congr (spared i ((ℓ.parked_iff i _).2 ⟨c, hc⟩))⟩
  | launch i entry free size =>
    have hne : i ≠ s.current := by
      intro heq
      rw [(hs.running i).2 heq] at free
      cases free
    refine ⟨fun k => ?_, fun k c hc => ?_⟩
    · by_cases hk : k = i
      · simp [hk, hne, launchTask]
      · simp [hk, hs.running, launchTask]
    · by_cases hk : k = i
      · subst hk
        simp only [launchTask, Function.update_self] at hc
        cases hc
        exact holds_launch s.machine.mem entry size
      · simp only [launchTask, Function.update_of_ne hk] at hc
        exact (hs.holds k c hc).congr (agreeOn_launch s.machine.mem entry size hk)
  | switch j ra calls outgoing =>
    have hslot : span (s.machine.regs .rdi) 8 ⊆ ℓ.owned s.current := by
      rw [outgoing]
      exact Set.subset_union_right
    refine hs.contextSwitch calls hslot (by simp) fun c hc => ?_
    cases hc
    rw [mem_contextSwitch, outgoing]
    exact holds_pushWords (c := callContext s.machine ra) s.machine.mem calls.room
  | leave j ra calls outgoing =>
    exact hs.contextSwitch calls outgoing (by simp) fun c hc => by cases hc

/-- And so does every run. -/
theorem Reachable.inv {s : System ι} (h : ℓ.Reachable s) : ℓ.Inv s := by
  induction h with
  | boot machine i => exact Inv.boot machine i
  | step _ hstep ih => exact hstep.inv ih

/-- Every switch gives its target the context the target waited with. -/
theorem Step.resumes {s s' : System ι} {e : Event ι} {j : ι} (h : ℓ.Step s e s') (hs : ℓ.Inv s) (he : e.target? = some j)
    {c : CallContext} (hj : ℓ.awaiting j (s.status j) = some c) : callContext s'.machine s'.machine.rip = c := by
  cases h with
  | work machine spared => cases he
  | launch i entry free size => cases he
  | switch k ra calls outgoing =>
    cases he
    refine hs.resumes calls ?_ hj
    rw [outgoing]
    exact Set.subset_union_right
  | leave k ra calls outgoing =>
    cases he
    exact hs.resumes calls outgoing hj

end Layout

/-! ## Switching -/

/-- What a task finds when it gets its first turn: it is at the trampoline, which takes it to its entry. -/
structure FirstTurn (m : Machine) (trampoline entry : UInt64) : Prop where
  rip : m.rip = trampoline
  r12 : m.regs .r12 = entry
  rbp : m.regs .rbp = 0
  rbx : m.regs .rbx = 0
  r13 : m.regs .r13 = 0
  r14 : m.regs .r14 = 0
  r15 : m.regs .r15 = 0
  aligned : (m.regs .rsp).toNat % 16 = 8
  enters : (m.run processEntryTrampoline).rip = entry

/-- A task that is switched to for the first time is at the trampoline, with its entry. -/
theorem firstTurn_of_callContext {m : Machine} {trampoline entry : UInt64} {stack : KernelStack}
    (h : callContext m m.rip = launchContext trampoline stack entry) : FirstTurn m trampoline entry where
  rip := congrArg CallContext.returnAddress h
  r12 := congrArg CallContext.r12 h
  rbp := congrArg CallContext.rbp h
  rbx := congrArg CallContext.rbx h
  r13 := congrArg CallContext.r13 h
  r14 := congrArg CallContext.r14 h
  r15 := congrArg CallContext.r15 h
  aligned := by
    have hrsp : m.regs .rsp = stack.top - 8 := congrArg CallContext.rsp h
    obtain ⟨-, htop⟩ := stack.toNat_top
    simp only [hrsp, UInt64.toNat_sub, UInt64.reduceToNat]
    omega
  enters := congrArg CallContext.r12 h

/-- All that `init_kernel_stack` writes is the 64 bytes from the stack pointer it returns, and these are in the buffer. -/
theorem initKernelStack_within (trampoline : UInt64) (mem : Bytes.Memory) {stack : KernelStack} (entry : UInt64)
    (hsize : 80 ≤ stack.size) :
    span (UInt64.ofNat (initKernelStack trampoline mem stack entry).1) 64 ⊆ stack.region ∧
      ∀ a ∉ span (UInt64.ofNat (initKernelStack trampoline mem stack entry).1) 64,
        (initKernelStack trampoline mem stack entry).2 a.toNat = mem a.toNat := by
  have hspan : span (stack.top - 64) 64 = below stack.top 64 := span_sub stack.top 64
  simp only [initKernelStack_eq, UInt64.ofNat_toNat, hspan]
  refine ⟨KernelStack.below_top hsize, fun a ha => ?_⟩
  exact pushWords_of_notMem (by simp [CallContext.frame]) ha

/-- Tasks keep their machine state, however they switch to one another. `init_kernel_stack` writes within the buffer of the new task.
A task that gets its first turn is at the trampoline with its entry in `r12` and a stack aligned for a call. A task that had called
`context_switch` goes on where that call returns to, with the registers and the stack pointer it had at the call. -/
theorem context_switch_preserves_tasks {ι : Type} [DecidableEq ι] (ℓ : Layout ι) :
    (∀ (mem : Bytes.Memory) (stack : KernelStack) (entry : UInt64), 80 ≤ stack.size →
      span (UInt64.ofNat (initKernelStack ℓ.trampoline mem stack entry).1) 64 ⊆ stack.region ∧
        ∀ a ∉ span (UInt64.ofNat (initKernelStack ℓ.trampoline mem stack entry).1) 64,
          (initKernelStack ℓ.trampoline mem stack entry).2 a.toNat = mem a.toNat) ∧
      ∀ (s s' : System ι) (e : Event ι) (j : ι), ℓ.Reachable s → ℓ.Step s e s' → e.target? = some j →
        (∀ entry, s.status j = .launched entry → FirstTurn s'.machine ℓ.trampoline entry) ∧
          ∀ c, s.status j = .suspended c → callContext s'.machine s'.machine.rip = c := by
  refine ⟨fun mem stack entry hsize => initKernelStack_within ℓ.trampoline mem entry hsize, ?_⟩
  intro s s' e j hreach hstep htarget
  constructor
  · intro entry hj
    have hcontext : callContext s'.machine s'.machine.rip = launchContext ℓ.trampoline (ℓ.stack j) entry :=
      hstep.resumes hreach.inv htarget (by rw [hj]; rfl)
    exact firstTurn_of_callContext hcontext
  · intro c hj
    exact hstep.resumes hreach.inv htarget (by rw [hj]; rfl)

/-- Two tasks: the context that boots, and one with a stack of a page. -/
def pairLayout : Layout Bool where
  stack i := if i then ⟨0x4000, 4096⟩ else ⟨0x1000, 4096⟩
  slot i := if i then 0x200 else 0x100
  trampoline := 0x8000
  stacks_apart i j hij := by
    rw [Set.disjoint_left]
    intro b
    cases i <;> cases j <;> simp_all [KernelStack.region, mem_span, UInt64.toNat_sub] <;> omega
  slots_apart i j hij := by
    rw [Set.disjoint_left]
    intro b
    cases i <;> cases j <;> simp_all [mem_span, UInt64.toNat_sub] <;> omega
  slot_off_stack i j := by
    rw [Set.disjoint_left]
    intro b
    cases i <;> cases j <;> simp_all [KernelStack.region, mem_span, UInt64.toNat_sub] <;> omega

/-- The pair when the second task has been launched, with the operands of the first switch in place. -/
def pairLaunched : System Bool :=
  pairLayout.launchTask
    (System.boot
      { regs := fun
          | .rsp => 0x1800
          | .rdi => 0x100
          | .rsi => 0x4FC0
          | .rbp => 7
          | _ => 0
        rip := 0
        interrupts := false
        mem := fun _ => 0 }
      false)
    true 0x9000

/-- The pair after the first switch. -/
def pairSwitched : System Bool :=
  pairLaunched.contextSwitch true 0x1234 (.suspended (callContext pairLaunched.machine 0x1234))

/-- The pair after the second task has computed, with the operands of the switch back in place. -/
def pairWorked : System Bool :=
  { pairSwitched with
    machine :=
      { pairSwitched.machine with
        regs := fun
          | .rsp => 0x4800
          | .rdi => 0x200
          | .rsi => loadWord pairSwitched.machine.mem 0x100
          | _ => 42 } }

theorem context_switch_preserves_tasks_pair :
    FirstTurn pairSwitched.machine 0x8000 0x9000 ∧
      ∃ s : System Bool, pairLayout.Step pairWorked (.switch false 0x9010) s ∧
        callContext s.machine s.machine.rip = callContext pairLaunched.machine 0x1234 := by
  have hlaunched : pairLayout.Reachable pairLaunched := .step (.boot _ false) (.launch _ true 0x9000 rfl (by decide))
  have hswitch : pairLayout.Step pairLaunched (.switch true 0x1234) pairSwitched := by
    refine .switch _ _ _ ⟨trivial, ?_, ?_⟩ rfl
    · exact (pairLayout.holds_launch (i := true) (fun _ => 0) 0x9000 (by decide)).saved.symm
    · intro b hb
      simp [pairLaunched, Layout.launchTask, System.boot, pairLayout, KernelStack.region, mem_below, mem_span,
        UInt64.toNat_sub] at hb ⊢
      omega
  have hwork : pairLayout.Step pairSwitched .work pairWorked := .work _ _ fun _ _ _ _ => rfl
  have hback : pairLayout.Calls pairWorked false := by
    refine ⟨trivial, rfl, ?_⟩
    intro b hb
    simp [pairWorked, pairSwitched, System.contextSwitch, pairLayout, KernelStack.region, mem_below, mem_span,
      UInt64.toNat_sub] at hb ⊢
    omega
  have hsuspended : pairWorked.status false = .suspended (callContext pairLaunched.machine 0x1234) := rfl
  obtain ⟨-, hmain⟩ := context_switch_preserves_tasks pairLayout
  refine ⟨(hmain _ _ _ true hlaunched hswitch rfl).1 0x9000 rfl, _, .switch _ _ _ hback rfl, ?_⟩
  exact (hmain _ _ _ false (.step (.step hlaunched hswitch) hwork) (.switch _ _ _ hback rfl) rfl).2 _ hsuspended

end Sched

end GolemKernel
