import GolemKernel.Lib.Cpu

/-!
# The system call trampoline

`syscall_entry` of `src/syscall/entry.rs`, where `SYSCALL` goes. The listing is cut at the call of `syscall_dispatch`, which is any
routine that keeps the calling convention. The per-CPU area has the top of the kernel stack at offset 0 and a slot for the user's stack
pointer at offset 8.
-/

namespace GolemKernel

namespace Syscall

open X86

/-- `syscall_entry`, up to the call of `syscall_dispatch`. -/
def syscallEntry : List SysInstr :=
  [.swapgs,
    .storeGs .rsp 8,
    .loadGs 0 .rsp,
    .pushGs 8,
    .plain (.push .r11),
    .plain (.push .rcx),
    .plain (.push .rax),
    .plain (.push .rdi),
    .plain (.push .rsi),
    .plain (.push .rdx),
    .plain (.push .r10),
    .plain (.push .r8),
    .plain (.push .r9),
    .plain (.push .rbx),
    .plain (.push .rbp),
    .plain (.push .r12),
    .plain (.push .r13),
    .plain (.push .r14),
    .plain (.push .r15),
    .sub 8 .rsp,
    .plain (.push .r9),
    .plain (.mov .r8 .r9),
    .plain (.mov .r10 .r8),
    .plain (.mov .rdx .rcx),
    .plain (.mov .rsi .rdx),
    .plain (.mov .rdi .rsi),
    .plain (.mov .rax .rdi)]

/-- `syscall_entry`, from the return of `syscall_dispatch` to `sysretq`. -/
def syscallExit : List SysInstr :=
  [.add 16 .rsp,
    .plain (.pop .r15),
    .plain (.pop .r14),
    .plain (.pop .r13),
    .plain (.pop .r12),
    .plain (.pop .rbp),
    .plain (.pop .rbx),
    .plain (.pop .r9),
    .plain (.pop .r8),
    .plain (.pop .r10),
    .plain (.pop .rdx),
    .plain (.pop .rsi),
    .plain (.pop .rdi),
    .add 8 .rsp,
    .plain (.pop .rcx),
    .plain (.pop .r11),
    .plain (.pop .rsp),
    .swapgs]

/-- The top of the kernel stack of this CPU, as the per-CPU area has it while a user program runs. -/
def kernelStackTop (u : Cpu) : UInt64 := loadWord u.machine.mem u.kernelGsBase

/-- The CPU at the call, when the user program has executed `SYSCALL`. -/
def atCall (u : Cpu) (rflags lstar : UInt64) : Cpu := (u.syscall rflags lstar).run syscallEntry

/-- `syscall_dispatch` at its first instruction. -/
def dispatched (u : Cpu) (rflags lstar returnAddress : UInt64) : Machine := (atCall u rflags lstar).machine.call returnAddress

/-- The CPU at `sysretq`, when `syscall_dispatch` has returned in the state `m`. -/
def atSysret (u : Cpu) (rflags lstar : UInt64) (m : Machine) : Cpu := Cpu.run { atCall u rflags lstar with machine := m } syscallExit

end Syscall

end GolemKernel
