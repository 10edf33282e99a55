import GolemKernel.Syscall.Entry

/-!
# The system calls

`src/syscall/dispatch.rs` and `src/syscall/handlers.rs`: the table, what a handler checks and the hooks that it hands its arguments to.
The hooks belong to other subsystems, and a build has those of the file system and of the processes or it does not. Here they are any
functions on a state `σ`. A hook that does not come back gives no result, and then the system call has none. Pointers are addresses.
-/

namespace GolemKernel

namespace Syscall

/-! ## Results -/

inductive Errno where
  | EPERM | ENOENT | EINTR | EIO | EBADF | ECHILD | ENOMEM | EACCES | EFAULT | EBUSY | EEXIST | ENOTDIR | EISDIR | EINVAL | ENFILE | EMFILE
  | ENOSYS
  deriving DecidableEq, Repr

/-- `e as i64`. -/
def Errno.code : Errno → Int64
  | EPERM => 1
  | ENOENT => 2
  | EINTR => 4
  | EIO => 5
  | EBADF => 9
  | ECHILD => 10
  | ENOMEM => 12
  | EACCES => 13
  | EFAULT => 14
  | EBUSY => 16
  | EEXIST => 17
  | ENOTDIR => 20
  | EISDIR => 21
  | EINVAL => 22
  | ENFILE => 23
  | EMFILE => 24
  | ENOSYS => 38

abbrev SyscallResult := Except Errno Int64

/-- The six arguments of a system call. -/
structure Args where
  a0 : UInt64
  a1 : UInt64
  a2 : UInt64
  a3 : UInt64
  a4 : UInt64
  a5 : UInt64
  deriving DecidableEq, Repr

/-- A handler, on the state of the subsystems. -/
abbrev Handler (σ : Type) := Args → σ → Option SyscallResult × σ

/-! ## Hooks -/

/-- The hooks of the feature `vfs`. -/
structure VfsHooks (σ : Type) where
  vfsRead (fd : Int32) (buf count : UInt64) : σ → Except Errno UInt64 × σ
  vfsWrite (fd : Int32) (buf count : UInt64) : σ → Except Errno UInt64 × σ
  vfsOpen (path : UInt64) (flags : Int32) (mode : UInt32) : σ → Except Errno Int32 × σ
  vfsClose (fd : Int32) : σ → Except Errno Unit × σ

/-- The hooks of the feature `process`. When `proc_execve` succeeds it does not come back, and `proc_exit` never does. -/
structure ProcessHooks (σ : Type) where
  procFork : σ → Except Errno Int32 × σ
  procExecve (path argv envp : UInt64) : σ → Option Errno × σ
  procExit (status : Int32) : σ → σ

/-- What a build has been linked with. -/
structure Hooks (σ : Type) where
  vfs : Option (VfsHooks σ)
  process : Option (ProcessHooks σ)

/-! ## Checks -/

def userVaMax : UInt64 := 0x0000800000000000

/-- `validate_user_ptr`. -/
def validateUserPtr (ptr len : UInt64) : Except Errno Unit :=
  if ptr = 0 then .error .EFAULT
  else if 2 ^ 64 ≤ ptr.toNat + len.toNat then .error .EFAULT
  else if ptr + len > userVaMax then .error .EFAULT
  else .ok ()

/-- `validate_fd`. -/
def validateFd (raw : UInt64) : Except Errno Int32 :=
  if raw > 0x7FFFFFFF then .error .EBADF else .ok raw.toUInt32.toInt32

/-- A pointer that may be null. -/
def validateOptionalPtr (ptr len : UInt64) : Except Errno Unit := if ptr ≠ 0 then validateUserPtr ptr len else .ok ()

/-! ## Handlers -/

section

variable {σ : Type}

/-- A handler that has made its checks: it returns the error, or goes on. -/
def checked {α : Type} (check : Except Errno α) (next : α → σ → Option SyscallResult × σ) (s : σ) : Option SyscallResult × σ :=
  match check with
  | .error e => (some (.error e), s)
  | .ok a => next a s

/-- A hook is called and its result turned into that of the system call. Without the hook the call is not implemented. -/
def hooked {α : Type} (hook : Option (σ → Except Errno α × σ)) (f : α → Int64) (s : σ) : Option SyscallResult × σ :=
  match hook with
  | some hook =>
    let (result, s) := hook s
    (some (result.map f), s)
  | none => (some (.error .ENOSYS), s)

/-- What `sys_read` and `sys_write` do with their hook. -/
def transfer (hook : Option (Int32 → UInt64 → UInt64 → σ → Except Errno UInt64 × σ)) : Handler σ := fun args =>
  checked (validateFd args.a0) fun fd => checked (validateUserPtr args.a1 args.a2) fun _ =>
    hooked (hook.map fun hook => hook fd args.a1 args.a2) UInt64.toInt64

def sysRead (hooks : Hooks σ) : Handler σ := transfer (hooks.vfs.map (·.vfsRead))

def sysWrite (hooks : Hooks σ) : Handler σ := transfer (hooks.vfs.map (·.vfsWrite))

def sysOpen (hooks : Hooks σ) : Handler σ := fun args =>
  checked (validateUserPtr args.a0 1) fun _ => checked (if args.a1 > 0x7FFFFFFF then .error .EINVAL else .ok ()) fun _ =>
    hooked (hooks.vfs.map fun vfs => vfs.vfsOpen args.a0 args.a1.toUInt32.toInt32 args.a2.toUInt32) Int32.toInt64

def sysClose (hooks : Hooks σ) : Handler σ := fun args =>
  checked (validateFd args.a0) fun fd => hooked (hooks.vfs.map fun vfs => vfs.vfsClose fd) fun _ => 0

def sysFork (hooks : Hooks σ) : Handler σ := fun _ => hooked (hooks.process.map (·.procFork)) Int32.toInt64

def sysExecve (hooks : Hooks σ) : Handler σ := fun args =>
  checked (validateUserPtr args.a0 1) fun _ => checked (validateOptionalPtr args.a1 8) fun _ =>
    checked (validateOptionalPtr args.a2 8) fun _ s =>
      match hooks.process with
      | some process =>
        let (result, s) := process.procExecve args.a0 args.a1 args.a2 s
        (result.map .error, s)
      | none => (some (.error .ENOSYS), s)

def sysExit (hooks : Hooks σ) : Handler σ := fun args s =>
  match hooks.process with
  | some process => (none, process.procExit args.a0.toUInt32.toInt32 s)
  | none => (some (.error .ENOSYS), s)

/-- The handler of the numbers that have none. -/
def enosys : Handler σ := fun _ s => (some (.error .ENOSYS), s)

/-! ## The table -/

/-! The numbers of the module `nr`. -/

def nrRead : Nat := 0

def nrWrite : Nat := 1

def nrOpen : Nat := 2

def nrClose : Nat := 3

def nrFork : Nat := 57

def nrExecve : Nat := 59

def nrExit : Nat := 60

def syscallTableSize : Nat := 512

abbrev Table (σ : Type) := Vector (Handler σ) syscallTableSize

/-- `SYSCALL_TABLE` before `init`. -/
def Table.new : Table σ := Vector.replicate syscallTableSize enosys

/-- `init`. -/
def Table.init (table : Table σ) (hooks : Hooks σ) : Table σ :=
  let table := table.setIfInBounds nrRead (sysRead hooks)
  let table := table.setIfInBounds nrWrite (sysWrite hooks)
  let table := table.setIfInBounds nrOpen (sysOpen hooks)
  let table := table.setIfInBounds nrClose (sysClose hooks)
  let table := table.setIfInBounds nrFork (sysFork hooks)
  let table := table.setIfInBounds nrExecve (sysExecve hooks)
  table.setIfInBounds nrExit (sysExit hooks)

/-- The result of a handler as a user program gets it: an error is the negative of its code. -/
def flatten : SyscallResult → Int64
  | .ok v => v
  | .error e => -e.code

def syscallDispatch (table : Table σ) (nr : UInt64) (args : Args) (s : σ) : Option Int64 × σ :=
  let handler := (table[nr.toNat]?).getD enosys
  let (result, s) := handler args s
  (result.map flatten, s)

/-- `syscall_dispatch` as it was compiled: from its first instruction to its return it keeps the calling convention, takes the number and
the arguments from where the convention has them, and leaves the result in `rax`. -/
structure Compiled (table : Table σ) (stackTop : UInt64) (m : X86.Machine) (s : σ) (m' : X86.Machine) (s' : σ) : Prop where
  returns : X86.SysvReturn stackTop m m'
  result : ∀ nr a0 a1 a2 a3 a4 a5, X86.sysvArgs m = [nr, a0, a1, a2, a3, a4, a5] →
    syscallDispatch table nr ⟨a0, a1, a2, a3, a4, a5⟩ s = (some (m'.regs .rax).toInt64, s')

end

end Syscall

end GolemKernel
