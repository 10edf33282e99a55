import GolemKernel.Syscall.Entry

/-!
# The system call trampoline is transparent

The entry leaves a frame at the top of the kernel stack: the user's stack pointer, flags, instruction pointer, the number of the call
and twelve registers. A `syscall_dispatch` that keeps the calling convention leaves the frame there, and the exit takes it off in the
opposite order.
-/

namespace GolemKernel

namespace Syscall

open X86

/-- The registers that are saved for the user program beside the trap frame, in the order in which they are pushed. -/
def userRegs : List Reg := [.rdi, .rsi, .rdx, .r10, .r8, .r9, .rbx, .rbp, .r12, .r13, .r14, .r15]

/-- What the entry pushes. -/
def frame (u : Cpu) (rflags : UInt64) : List UInt64 :=
  u.machine.regs .rsp :: rflags :: u.machine.rip :: u.machine.regs .rax :: userRegs.map u.machine.regs

/-- Memory when the user's stack pointer is in the per-CPU area. -/
def stashed (u : Cpu) : Bytes.Memory := storeWord u.machine.mem (u.kernelGsBase + 8) (u.machine.regs .rsp)

/-- The registers as `SYSCALL` leaves them, on the kernel stack. -/
def kernelRegs (u : Cpu) (rflags sp : UInt64) : Reg → UInt64 :=
  Function.update (Function.update (Function.update u.machine.regs .rcx u.machine.rip) .r11 rflags) .rsp sp

/-- The registers when the arguments of the call have been moved into place. -/
def argumentRegs (regs : Reg → UInt64) : Reg → UInt64
  | .rsp => regs .rsp - 16
  | .rdi => regs .rax
  | .rsi => regs .rdi
  | .rdx => regs .rsi
  | .rcx => regs .rdx
  | .r8 => regs .r10
  | .r9 => regs .r8
  | r => regs r

/-! The listing is rows of pushes and pops with other code between them. -/

/-- From the first instruction to the push of the user's stack pointer. -/
def switchStack : List SysInstr := [.swapgs, .storeGs .rsp 8, .loadGs 0 .rsp, .pushGs 8]

/-- From the last push of the frame to the call. -/
def passArguments : List SysInstr :=
  [.sub 8 .rsp, .plain (.push .r9), .plain (.mov .r8 .r9), .plain (.mov .r10 .r8), .plain (.mov .rdx .rcx), .plain (.mov .rsi .rdx),
    .plain (.mov .rdi .rsi), .plain (.mov .rax .rdi)]

/-- From the word of `rax`, which is skipped, to `sysretq`. -/
def dropFrame : List SysInstr := [.add 8 .rsp, .plain (.pop .rcx), .plain (.pop .r11), .plain (.pop .rsp), .swapgs]

/-- The entry in three parts: the switch of stacks, the pushes, the arguments. -/
theorem syscallEntry_eq : syscallEntry =
    switchStack ++ (((Reg.r11 :: .rcx :: .rax :: userRegs).map Instr.push).map SysInstr.plain ++ passArguments) := rfl

/-- The exit in two: the pops, and what is left of the frame. -/
theorem syscallExit_eq : syscallExit = [.add 16 .rsp] ++ ((userRegs.reverse.map Instr.pop).map SysInstr.plain ++ dropFrame) := rfl

variable {u : Cpu} {rflags lstar returnAddress : UInt64}

/-! ## The entry -/

/-- The slot of the stack pointer is another word than that of the stack top. -/
theorem loadWord_stashed (u : Cpu) : loadWord (stashed u) u.kernelGsBase = kernelStackTop u :=
  loadWord_congr (agreeOn_storeWord _ _ (disjoint_span_next u.kernelGsBase))

/-- The kernel's stack is switched to, and the user's stack pointer is kept. -/
theorem run_switchStack (u : Cpu) (rflags lstar : UInt64) :
    (u.syscall rflags lstar).run switchStack =
      { machine :=
          { regs := kernelRegs u rflags (kernelStackTop u - 8)
            rip := lstar
            interrupts := false
            mem := storeWord (stashed u) (kernelStackTop u - 8) (u.machine.regs .rsp) }
        gsBase := u.kernelGsBase
        kernelGsBase := u.gsBase
        swaps := u.swaps + 1 } := by
  have htop := loadWord_stashed u
  simp only [stashed] at htop
  simp [switchStack, Cpu.run, Cpu.exec, Cpu.syscall, Machine.pushValue, kernelRegs, stashed, htop]

/-- The arguments are moved to the registers of a C call, and the sixth to the stack. -/
theorem run_passArguments (c : Cpu) :
    c.run passArguments =
      { c with
        machine :=
          { c.machine with
            regs := argumentRegs c.machine.regs
            mem := storeWord c.machine.mem (c.machine.regs .rsp - 16) (c.machine.regs .r9) } } := by
  have hsp : c.machine.regs .rsp - 8 - 8 = c.machine.regs .rsp - 16 := by grind
  simp only [passArguments, Cpu.run, List.foldl_cons, List.foldl_nil, Cpu.exec, Machine.exec, Machine.pushValue, Function.update_self, hsp]
  congr 2
  funext r
  cases r <;> simp [argumentRegs]

/-- The machine at the call. -/
theorem atCall_eq (u : Cpu) (rflags lstar : UInt64) :
    atCall u rflags lstar =
      { machine :=
          { regs := argumentRegs (kernelRegs u rflags (kernelStackTop u - 128))
            rip := lstar
            interrupts := false
            mem := storeWord (pushWords (stashed u) (kernelStackTop u) (frame u rflags)) (kernelStackTop u - 144) (u.machine.regs .r9) }
        gsBase := u.kernelGsBase
        kernelGsBase := u.gsBase
        swaps := u.swaps + 1 } := by
  have hframe : u.machine.regs .rsp :: (Reg.r11 :: .rcx :: .rax :: userRegs).map (kernelRegs u rflags (kernelStackTop u - 8)) =
      frame u rflags := by
    simp [frame, userRegs, kernelRegs]
  have hlength : 8 * UInt64.ofNat (Reg.r11 :: .rcx :: .rax :: userRegs).length = 120 := by decide
  have hpushed : kernelStackTop u - 8 - 120 = kernelStackTop u - 128 := by grind
  have hcall : kernelStackTop u - 128 - 16 = kernelStackTop u - 144 := by grind
  have hregs : Function.update (kernelRegs u rflags (kernelStackTop u - 8)) .rsp (kernelStackTop u - 128) =
      kernelRegs u rflags (kernelStackTop u - 128) := Function.update_idem _ _ _
  have hsp : ∀ sp, kernelRegs u rflags sp .rsp = sp := fun sp => Function.update_self _ _ _
  have hr9 : ∀ sp, kernelRegs u rflags sp .r9 = u.machine.regs .r9 := fun sp => by simp [kernelRegs]
  rw [atCall, syscallEntry_eq, Cpu.run_append, run_switchStack, Cpu.run_append, Cpu.run_plain, Machine.run_push (by decide),
    run_passArguments]
  simp only [hsp, hlength, hpushed, hregs, hr9, hcall, ← hframe, pushWords]

/-! ## The call -/

/-- The stack pointer at the call. -/
theorem rsp_atCall (u : Cpu) (rflags lstar : UInt64) : (atCall u rflags lstar).machine.regs .rsp = kernelStackTop u - 144 := by
  have hsp : kernelStackTop u - 128 - 16 = kernelStackTop u - 144 := by grind
  rw [atCall_eq]
  exact hsp

/-- And in the dispatcher, below the return address. -/
theorem rsp_dispatched (u : Cpu) (rflags lstar returnAddress : UInt64) :
    (dispatched u rflags lstar returnAddress).regs .rsp = kernelStackTop u - 152 := by
  have hsp : kernelStackTop u - 144 - 8 = kernelStackTop u - 152 := by grind
  simp only [dispatched, Machine.call, Machine.pushValue, Function.update_self, rsp_atCall, hsp]

/-- What is on the stack of the kernel in the dispatcher. -/
theorem mem_dispatched (u : Cpu) (rflags lstar returnAddress : UInt64) :
    (dispatched u rflags lstar returnAddress).mem =
      storeWord (storeWord (pushWords (stashed u) (kernelStackTop u) (frame u rflags)) (kernelStackTop u - 144) (u.machine.regs .r9))
        (kernelStackTop u - 152) returnAddress := by
  have hsp : kernelStackTop u - 144 - 8 = kernelStackTop u - 152 := by grind
  rw [dispatched, Machine.call, Machine.pushValue, rsp_atCall, hsp, atCall_eq]

/-- A word below a range of the stack. -/
theorem disjoint_below_span (top : UInt64) {n k : Nat} (hk : n + 8 ≤ k) (hlt : k < 2 ^ 64) :
    Disjoint (below top n) (span (top - UInt64.ofNat k) 8) := by
  refine Set.disjoint_left.2 ?_
  intro b hb hb'
  have := b.toNat_lt
  have := top.toNat_lt
  simp only [mem_below, mem_span, UInt64.toNat_sub, UInt64.toNat_ofNat', UInt64.reduceToNat] at hb hb'
  omega

/-- The seven arguments are the number and the arguments of the system call. -/
theorem sysvArgs_dispatched (u : Cpu) (rflags lstar returnAddress : UInt64) :
    sysvArgs (dispatched u rflags lstar returnAddress) =
      [.rax, .rdi, .rsi, .rdx, .r10, .r8, .r9].map u.machine.regs := by
  have hslot : loadWord (dispatched u rflags lstar returnAddress).mem (kernelStackTop u - 152 + 8) = u.machine.regs .r9 := by
    have hsp : kernelStackTop u - 152 + 8 = kernelStackTop u - 144 := by grind
    have hapart := (disjoint_span_next (kernelStackTop u - 152)).symm
    rw [hsp] at hapart
    rw [mem_dispatched, hsp, loadWord_congr (agreeOn_storeWord _ _ hapart), loadWord_storeWord]
  have hregs : ∀ r, r ≠ .rsp → (dispatched u rflags lstar returnAddress).regs r =
      argumentRegs (kernelRegs u rflags (kernelStackTop u - 128)) r := by
    intro r hr
    simp only [dispatched, Machine.call, Machine.pushValue, Function.update_of_ne hr, atCall_eq]
  rw [sysvArgs, rsp_dispatched, hslot]
  simp [hregs, argumentRegs, kernelRegs]

/-- The frame is on the stack when `syscall_dispatch` starts, above the slot of its seventh argument. -/
theorem stacked_dispatched (u : Cpu) (rflags lstar returnAddress : UInt64) :
    Stacked (dispatched u rflags lstar returnAddress).mem (kernelStackTop u) (frame u rflags) := by
  have hlength : 8 * (frame u rflags).length = 128 := by simp [frame, userRegs]
  rw [mem_dispatched]
  refine Stacked.congr (by omega) ?_ (stacked_pushWords (stashed u) (kernelStackTop u) (by omega))
  rw [hlength]
  exact (agreeOn_storeWord _ _ (disjoint_below_span _ (k := 144) (by decide) (by decide))).trans
    (agreeOn_storeWord _ _ (disjoint_below_span _ (k := 152) (by decide) (by decide)))

/-- A `syscall_dispatch` that keeps the convention leaves the frame on the stack. -/
theorem stacked_of_return {m : Machine} (h : SysvReturn (kernelStackTop u) (dispatched u rflags lstar returnAddress) m) :
    Stacked m.mem (kernelStackTop u) (frame u rflags) := by
  have hlength : 8 * (frame u rflags).length = 128 := by simp [frame, userRegs]
  refine Stacked.congr (by omega) (h.stack.mono ?_) (stacked_dispatched u rflags lstar returnAddress)
  rw [hlength, rsp_dispatched]
  intro b hb
  have := b.toNat_lt
  have := (kernelStackTop u).toNat_lt
  simp only [mem_below, mem_span, UInt64.toNat_sub, UInt64.toNat_add, UInt64.reduceToNat] at hb ⊢
  omega

/-! ## The exit -/

/-- The end of the exit loads what `sysretq` needs and the stack pointer of the user. -/
theorem run_dropFrame {c : Cpu} {regs : Reg → UInt64} {top rsp rflags rip rax : UInt64} {ws : List UInt64} (hsp : regs .rsp = top - 32)
    (hframe : Stacked c.machine.mem top (rsp :: rflags :: rip :: rax :: ws)) :
    (c.withRegs regs).run dropFrame =
      (c.withRegs (Function.update (Function.update (Function.update regs .rcx rip) .r11 rflags) .rsp rsp)).exec .swapgs := by
  obtain ⟨hrsp, hflags, hrip, -⟩ := hframe
  have hrip' : top - 32 + 8 = top - 8 - 8 - 8 := by grind
  have hflags' : top - 8 - 8 - 8 + 8 = top - 8 - 8 := by grind
  have hrsp' : top - 8 - 8 + 8 = top - 8 := by grind
  -- the stack pointers in between are overwritten
  have hregs : ∀ p q r s, Function.update (Function.update (Function.update (Function.update (Function.update (Function.update
      (Function.update regs .rsp p) .rsp q) .rcx rip) .rsp r) .r11 rflags) .rsp s) .rsp rsp =
      Function.update (Function.update (Function.update regs .rcx rip) .r11 rflags) .rsp rsp := by
    intro p q r s
    funext reg
    cases reg <;> simp
  have hrcx : Reg.rsp ≠ .rcx := by simp
  have hr11 : Reg.rsp ≠ .r11 := by simp
  simp only [dropFrame, Cpu.run, List.foldl_cons, List.foldl_nil, Cpu.exec, Cpu.withRegs, Machine.exec, Machine.popValue,
    Function.update_self, Function.update_of_ne hrcx, Function.update_of_ne hr11, hsp, hrip', hrip, hflags', hflags, hrsp', hrsp, hregs]

/-- On the frame of the user program, the exit restores its registers. -/
theorem run_exit {c : Cpu} {top : UInt64} (hsp : c.machine.regs .rsp = top - 144) (hframe : Stacked c.machine.mem top (frame u rflags)) :
    c.run syscallExit =
      (c.withRegs fun r =>
        if r ∈ userRegs ∨ r = .rsp then u.machine.regs r
        else if r = .rcx then u.machine.rip
        else if r = .r11 then rflags
        else c.machine.regs r).exec .swapgs := by
  have hadd : c.run [.add 16 .rsp] = c.withRegs (Function.update c.machine.regs .rsp (c.machine.regs .rsp + 16)) := rfl
  have htop : Function.update c.machine.regs .rsp (c.machine.regs .rsp + 16) .rsp = top - 32 - 8 * UInt64.ofNat userRegs.length := by
    have hlength : 8 * UInt64.ofNat userRegs.length = 96 := by decide
    rw [Function.update_self, hsp, hlength]
    grind
  have hregs : Stacked c.machine.mem (top - 32) (userRegs.map u.machine.regs) := by
    have hbase : top - 8 - 8 - 8 - 8 = top - 32 := by grind
    have hregs := hframe.2.2.2.2
    rwa [hbase] at hregs
  rw [syscallExit_eq, Cpu.run_append, Cpu.run_append, hadd, Cpu.run_pop (by decide) htop hregs, run_dropFrame ?_ hframe]
  · congr 2
    funext r
    cases r <;> simp [userRegs]
  · simp [userRegs]

/-! ## The whole system call -/

/-- At the call the stack is aligned to 16 bytes. -/
theorem aligned_atCall (rflags lstar : UInt64) (haligned : (kernelStackTop u).toNat % 16 = 0) :
    ((atCall u rflags lstar).machine.regs .rsp).toNat % 16 = 0 := by
  have := (kernelStackTop u).toNat_lt
  rw [rsp_atCall]
  simp only [UInt64.toNat_sub, UInt64.reduceToNat]
  omega

/-- The machine at `sysretq`, if the dispatcher has kept to the calling convention. -/
theorem atSysret_eq {m : Machine} (h : SysvReturn (kernelStackTop u) (dispatched u rflags lstar returnAddress) m) :
    atSysret u rflags lstar m =
      { machine :=
          { m with
            regs := fun r =>
              if r ∈ userRegs ∨ r = .rsp then u.machine.regs r
              else if r = .rcx then u.machine.rip
              else if r = .r11 then rflags
              else m.regs r }
        gsBase := u.gsBase
        kernelGsBase := u.kernelGsBase
        swaps := u.swaps + 2 } := by
  have hsp : m.regs .rsp = kernelStackTop u - 144 := by
    rw [h.rsp, rsp_dispatched]
    grind
  rw [atSysret, run_exit hsp (stacked_of_return h), atCall_eq]
  rfl

/-- The trampoline is transparent. Whatever the user program has in its registers, and whatever `syscall_dispatch` does within the
calling convention, the call is aligned and has the number and the six arguments of the system call; and at `sysretq` the user's
stack pointer, argument and callee-saved registers are back, `rcx` and `r11` have the instruction pointer and the flags to return to,
`rax` has the result, and GS was swapped twice. -/
theorem trampoline_transparent (u : Cpu) (rflags lstar returnAddress : UInt64) (dispatch : Machine → Machine → Prop)
    (haligned : (kernelStackTop u).toNat % 16 = 0)
    (habi : ∀ m m', (m.regs .rsp + 8).toNat % 16 = 0 → dispatch m m' → SysvReturn (kernelStackTop u) m m') :
    ((atCall u rflags lstar).machine.regs .rsp).toNat % 16 = 0 ∧
      sysvArgs (dispatched u rflags lstar returnAddress) = [.rax, .rdi, .rsi, .rdx, .r10, .r8, .r9].map u.machine.regs ∧
      ∀ m, dispatch (dispatched u rflags lstar returnAddress) m →
        m.rip = returnAddress ∧
          (∀ r ∈ [Reg.rsp, .rdi, .rsi, .rdx, .r10, .r8, .r9, .rbx, .rbp, .r12, .r13, .r14, .r15],
            (atSysret u rflags lstar m).machine.regs r = u.machine.regs r) ∧
          (atSysret u rflags lstar m).machine.regs .rcx = u.machine.rip ∧
          (atSysret u rflags lstar m).machine.regs .r11 = rflags ∧
          (atSysret u rflags lstar m).machine.regs .rax = m.regs .rax ∧
          (atSysret u rflags lstar m).swaps = u.swaps + 2 ∧
          (atSysret u rflags lstar m).gsBase = u.gsBase ∧ (atSysret u rflags lstar m).kernelGsBase = u.kernelGsBase := by
  have hcall : ((dispatched u rflags lstar returnAddress).regs .rsp + 8).toNat % 16 = 0 := by
    have hsp : kernelStackTop u - 152 + 8 = kernelStackTop u - 144 := by grind
    rw [rsp_dispatched, hsp, ← rsp_atCall u rflags lstar]
    exact aligned_atCall rflags lstar haligned
  refine ⟨aligned_atCall rflags lstar haligned, sysvArgs_dispatched u rflags lstar returnAddress, ?_⟩
  intro m hm
  have hreturn := habi _ m hcall hm
  rw [atSysret_eq hreturn]
  refine ⟨?_, ?_, rfl, rfl, rfl, rfl, rfl, rfl⟩
  · rw [hreturn.rip, mem_dispatched, rsp_dispatched, loadWord_storeWord]
  · intro r hr
    have hkept : r ∈ userRegs ∨ r = .rsp := by
      rw [List.mem_cons] at hr
      exact hr.symm
    exact if_pos hkept

/-- A program that runs with the kernel stack at `0x1000`. -/
def lowStack : Cpu where
  machine := { regs := fun _ => 5, rip := 0x400000, interrupts := true, mem := fun a => if a = 1 then 0x10 else 0 }
  gsBase := 0x7000
  kernelGsBase := 0
  swaps := 0

/-- A dispatcher that returns `v` and does nothing else. -/
def returnValue (v : UInt64) (m : Machine) : Machine :=
  { m with
    regs := Function.update (Function.update m.regs .rsp (m.regs .rsp + 8)) .rax v
    rip := loadWord m.mem (m.regs .rsp) }

/-- It keeps to the calling convention. -/
theorem sysvReturn_returnValue (stackTop v : UInt64) (m : Machine) : SysvReturn stackTop m (returnValue v m) where
  rip := rfl
  rsp := rfl
  saved := by simp [returnValue]
  stack := fun _ _ => rfl

theorem trampoline_transparent_seven :
    kernelStackTop lowStack = 0x1000 ∧
      ((atCall lowStack 0x202 0).machine.regs .rsp).toNat % 16 = 0 ∧
      (atSysret lowStack 0x202 0 (returnValue 7 (dispatched lowStack 0x202 0 0x9000))).machine.regs .rax = 7 ∧
      (atSysret lowStack 0x202 0 (returnValue 7 (dispatched lowStack 0x202 0 0x9000))).machine.regs .rcx = 0x400000 ∧
      (atSysret lowStack 0x202 0 (returnValue 7 (dispatched lowStack 0x202 0 0x9000))).swaps = 2 := by
  have htop : kernelStackTop lowStack = 0x1000 := by decide
  have habi : ∀ m m', (m.regs .rsp + 8).toNat % 16 = 0 → m' = returnValue 7 m → SysvReturn (kernelStackTop lowStack) m m' := by
    rintro m m' - rfl
    exact sysvReturn_returnValue _ 7 m
  obtain ⟨hcall, -, hreturn⟩ :=
    trampoline_transparent lowStack 0x202 0 0x9000 (fun m m' => m' = returnValue 7 m) (by rw [htop]; decide) habi
  obtain ⟨-, -, hrcx, -, hrax, hswaps, -⟩ := hreturn _ rfl
  exact ⟨htop, hcall, hrax, hrcx, hswaps⟩

end Syscall

end GolemKernel
