import GolemKernel.Lib.X86

/-!
# System calls on the 64-bit x86

The machine of `X86` with the two bases of the segment GS, and what a routine needs that takes a system call: the state in which
`SYSCALL` leaves the machine, the accesses relative to GS, and the System V convention for a call from it. The arithmetic flags are
not kept.
-/

namespace X86

/-! ## Runs of pushes and pops -/

namespace Machine

theorem run_append (m : Machine) (code code' : List Instr) : m.run (code ++ code') = (m.run code).run code' := List.foldl_append

/-- Registers pushed one after another. -/
theorem run_push {m : Machine} {rs : List Reg} (h : .rsp ∉ rs) :
    m.run (rs.map .push) =
      { m with
        regs := Function.update m.regs .rsp (m.regs .rsp - 8 * UInt64.ofNat rs.length)
        mem := pushWords m.mem (m.regs .rsp) (rs.map m.regs) } := by
  induction rs generalizing m with
  | nil => simp [run, pushWords]
  | cons r rs ih =>
    obtain ⟨hr, hrs⟩ := not_or.1 (mt List.mem_cons.2 h)
    have hregs : rs.map (Function.update m.regs .rsp (m.regs .rsp - 8)) = rs.map m.regs := by
      refine List.map_congr_left ?_
      intro r' hr'
      have hne : r' ≠ .rsp := by
        rintro rfl
        exact hrs hr'
      exact Function.update_of_ne hne _ _
    have hlength : m.regs .rsp - 8 - 8 * UInt64.ofNat rs.length = m.regs .rsp - 8 * UInt64.ofNat (r :: rs).length := by
      rw [List.length_cons, UInt64.ofNat_add]
      grind
    show run (m.pushValue (m.regs r)) (rs.map .push) = _
    rw [ih hrs]
    simp only [pushValue, Function.update_self, Function.update_idem, hregs, hlength, List.map_cons, pushWords]

/-- Registers popped in the opposite order. -/
theorem run_pop {m : Machine} {sp : UInt64} {rs : List Reg} {f : Reg → UInt64} (hrsp : .rsp ∉ rs)
    (hsp : m.regs .rsp = sp - 8 * UInt64.ofNat rs.length) (hstack : Stacked m.mem sp (rs.map f)) :
    m.run (rs.reverse.map .pop) = { m with regs := fun r => if r ∈ rs then f r else if r = .rsp then sp else m.regs r } := by
  induction rs generalizing sp with
  | nil =>
    have hregs : m.regs = fun r => if r = .rsp then sp else m.regs r := by
      funext r
      split
      · rename_i hr
        rw [hr, hsp]
        simp
      · rfl
    simp only [List.not_mem_nil, if_false, ← hregs]
    rfl
  | cons r rs ih =>
    obtain ⟨hr, hrs⟩ := not_or.1 (mt List.mem_cons.2 hrsp)
    have hlength : sp - 8 * UInt64.ofNat (r :: rs).length = sp - 8 - 8 * UInt64.ofNat rs.length := by
      rw [List.length_cons, UInt64.ofNat_add]
      grind
    have hload : loadWord m.mem (sp - 8) = f r := hstack.1
    rw [List.reverse_cons, List.map_append, run_append, ih hrs (hsp.trans hlength) hstack.2, List.map_singleton]
    simp only [run, List.foldl_cons, List.foldl_nil, exec, popValue, hrs, if_false, if_true, hload, sub_add_cancel]
    congr 1
    funext r'
    by_cases hr' : r' = r
    · subst hr'
      rw [Function.update_self, if_pos List.mem_cons_self]
    · rw [Function.update_of_ne hr']
      simp only [List.mem_cons, hr', false_or]
      by_cases hsp' : r' = .rsp
      · subst hsp'
        rw [Function.update_self, if_neg hrs, if_pos rfl]
      · rw [Function.update_of_ne hsp', if_neg hsp', if_neg hsp']

end Machine

/-! ## The CPU -/

structure Cpu where
  machine : Machine
  gsBase : UInt64
  kernelGsBase : UInt64
  /-- How often `swapgs` has been executed. -/
  swaps : Nat

/-- `storeGs src d` is `movq %src, %gs:d`, `loadGs d dst` is `movq %gs:d, %dst` and `pushGs d` is `pushq %gs:d`. -/
inductive SysInstr where
  | plain (i : Instr)
  | swapgs
  | storeGs (src : Reg) (d : UInt64)
  | loadGs (d : UInt64) (dst : Reg)
  | pushGs (d : UInt64)
  | add (n : UInt64) (r : Reg)
  | sub (n : UInt64) (r : Reg)
  deriving DecidableEq, Repr

namespace Cpu

def exec (c : Cpu) : SysInstr → Cpu
  | .plain i => { c with machine := c.machine.exec i }
  | .swapgs => { c with gsBase := c.kernelGsBase, kernelGsBase := c.gsBase, swaps := c.swaps + 1 }
  | .storeGs src d =>
    { c with machine := { c.machine with mem := storeWord c.machine.mem (c.gsBase + d) (c.machine.regs src) } }
  | .loadGs d dst =>
    { c with machine := { c.machine with regs := Function.update c.machine.regs dst (loadWord c.machine.mem (c.gsBase + d)) } }
  | .pushGs d => { c with machine := c.machine.pushValue (loadWord c.machine.mem (c.gsBase + d)) }
  | .add n r => { c with machine := { c.machine with regs := Function.update c.machine.regs r (c.machine.regs r + n) } }
  | .sub n r => { c with machine := { c.machine with regs := Function.update c.machine.regs r (c.machine.regs r - n) } }

def run (c : Cpu) (code : List SysInstr) : Cpu := code.foldl exec c

theorem run_append (c : Cpu) (code code' : List SysInstr) : c.run (code ++ code') = (c.run code).run code' := List.foldl_append

/-- Plain instructions change the machine only. -/
theorem run_plain (c : Cpu) (code : List Instr) : c.run (code.map .plain) = { c with machine := c.machine.run code } := by
  induction code generalizing c with
  | nil => rfl
  | cons i code ih => exact ih (c.exec (.plain i))

/-- The CPU with other contents of its registers. -/
def withRegs (c : Cpu) (regs : Reg → UInt64) : Cpu := { c with machine := { c.machine with regs := regs } }

theorem run_pop {c : Cpu} {regs f : Reg → UInt64} {sp : UInt64} {rs : List Reg} (hrsp : .rsp ∉ rs)
    (hsp : regs .rsp = sp - 8 * UInt64.ofNat rs.length) (hstack : Stacked c.machine.mem sp (rs.map f)) :
    (c.withRegs regs).run ((rs.reverse.map .pop).map .plain) =
      c.withRegs fun r => if r ∈ rs then f r else if r = .rsp then sp else regs r := by
  have hpop : Machine.run { c.machine with regs := regs } (rs.reverse.map .pop) = _ := Machine.run_pop hrsp hsp hstack
  rw [run_plain, withRegs, hpop]
  rfl

/-- `SYSCALL`, when the next instruction is at `rip`: the user's instruction pointer and flags go to `rcx` and `r11`, and the mask of
the flags disables interrupts. Neither the stack nor GS is switched. -/
def syscall (c : Cpu) (rflags lstar : UInt64) : Cpu :=
  { c with
    machine :=
      { c.machine with
        regs := Function.update (Function.update c.machine.regs .rcx c.machine.rip) .r11 rflags
        rip := lstar
        interrupts := false } }

end Cpu

/-! ## The System V convention -/

/-- The first seven integer arguments of a function, at its first instruction: the seventh is above the return address. -/
def sysvArgs (m : Machine) : List UInt64 :=
  [m.regs .rdi, m.regs .rsi, m.regs .rdx, m.regs .rcx, m.regs .r8, m.regs .r9, loadWord m.mem (m.regs .rsp + 8)]

/-- What a function with seven integer arguments owes its caller, from its first instruction to its return, on a stack that ends at
`top`: the callee-saved registers and the stack above its frame are kept, but for the slot of the seventh argument. -/
structure SysvReturn (top : UInt64) (m m' : Machine) : Prop where
  rip : m'.rip = loadWord m.mem (m.regs .rsp)
  rsp : m'.regs .rsp = m.regs .rsp + 8
  saved : ∀ r ∈ [Reg.rbx, .rbp, .r12, .r13, .r14, .r15], m'.regs r = m.regs r
  stack : AgreeOn (span (m.regs .rsp + 16) (top - (m.regs .rsp + 16)).toNat) m.mem m'.mem

end X86
