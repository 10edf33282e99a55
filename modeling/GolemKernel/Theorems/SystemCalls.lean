import GolemKernel.Syscall.Dispatch
import GolemKernel.Theorems.Syscall

/-!
# What user programs can do by system calls

A run is any system calls, from any states of the registers, one after another (`Calls`). The hooks get arguments that have passed the
checks and no others, so what they keep for such arguments is kept by every run; and a user program finds in `rax` a negative number
exactly when its call has failed (`system_calls_bounded`).
-/

namespace GolemKernel

namespace Syscall

open X86

variable {σ : Type}

/-! ## Checks -/

/-- The bytes from `ptr` on are in user space. -/
def UserRange (ptr len : UInt64) : Prop := 0 < ptr.toNat ∧ ptr.toNat + len.toNat ≤ 2 ^ 47

/-- A pointer passes exactly if its range is in user space. -/
theorem validateUserPtr_ok_iff {ptr len : UInt64} : validateUserPtr ptr len = .ok () ↔ UserRange ptr len := by
  have hmax : userVaMax.toNat = 2 ^ 47 := rfl
  have hzero : ptr = 0 ↔ ptr.toNat = 0 := UInt64.toNat_inj.symm
  unfold validateUserPtr UserRange
  split_ifs with hnull hover hlarge
  · simp [hzero.mp hnull]
  · simp only [false_iff, not_and]
    omega
  · rw [gt_iff_lt, UInt64.lt_iff_toNat_lt, UInt64.toNat_add, Nat.mod_eq_of_lt (by omega), hmax] at hlarge
    simp only [false_iff, not_and]
    omega
  · rw [gt_iff_lt, UInt64.lt_iff_toNat_lt, UInt64.toNat_add, Nat.mod_eq_of_lt (by omega), hmax] at hlarge
    have hpos : ptr.toNat ≠ 0 := mt hzero.mpr hnull
    simp only [true_iff]
    omega

/-- An optional pointer may also be null. -/
theorem validateOptionalPtr_ok {ptr len : UInt64} (h : validateOptionalPtr ptr len = .ok ()) : ptr = 0 ∨ UserRange ptr len := by
  unfold validateOptionalPtr at h
  split_ifs at h with hnull
  · exact .inr (validateUserPtr_ok_iff.mp h)
  · exact .inl (not_not.mp hnull)

/-- A number in the range of `i32` is kept by the conversion. -/
theorem toInt_toInt32 {raw : UInt64} (h : ¬raw > 0x7FFFFFFF) : raw.toUInt32.toInt32.toInt = raw.toNat := by
  have hle : raw.toNat ≤ 0x7FFFFFFF := by simpa [UInt64.lt_iff_toNat_lt] using h
  have hnat : raw.toUInt32.toNat = raw.toNat := by
    rw [UInt64.toNat_toUInt32, Nat.mod_eq_of_lt (by omega)]
  have hbits : raw.toUInt32.toInt32.toInt = raw.toUInt32.toBitVec.toInt := rfl
  rw [hbits, BitVec.toInt_eq_toNat_of_lt, ← hnat]
  · rfl
  · show 2 * raw.toUInt32.toNat < 2 ^ 32
    omega

/-- A descriptor that passes is not negative. -/
theorem validateFd_ok {raw : UInt64} {fd : Int32} (h : validateFd raw = .ok fd) : 0 ≤ fd.toInt := by
  unfold validateFd at h
  split_ifs at h with hlarge
  obtain rfl := Except.ok.inj h
  rw [toInt_toInt32 hlarge]
  exact Int.natCast_nonneg _

/-- A number below 2^63 is the same with a sign. -/
theorem toInt_toInt64 {n : UInt64} (h : n.toNat < 2 ^ 63) : n.toInt64.toInt = n.toNat := by
  have hbits : n.toInt64.toInt = n.toBitVec.toInt := rfl
  rw [hbits, BitVec.toInt_eq_toNat_of_lt]
  · rfl
  · show 2 * n.toNat < 2 ^ 64
    omega

/-! ## Hooks -/

/-- The hooks keep `I` when their arguments have passed the checks, and they give results as they should: no more bytes than were asked
for, descriptors and pids that are not negative. -/
structure Hooks.Keep (I : σ → Prop) (hooks : Hooks σ) : Prop where
  read : ∀ vfs, hooks.vfs = some vfs → ∀ fd buf count s, 0 ≤ fd.toInt → UserRange buf count → I s →
    I (vfs.vfsRead fd buf count s).2 ∧ ∀ n, (vfs.vfsRead fd buf count s).1 = .ok n → n ≤ count
  write : ∀ vfs, hooks.vfs = some vfs → ∀ fd buf count s, 0 ≤ fd.toInt → UserRange buf count → I s →
    I (vfs.vfsWrite fd buf count s).2 ∧ ∀ n, (vfs.vfsWrite fd buf count s).1 = .ok n → n ≤ count
  openFile : ∀ vfs, hooks.vfs = some vfs → ∀ path flags mode s, UserRange path 1 → 0 ≤ flags.toInt → I s →
    I (vfs.vfsOpen path flags mode s).2 ∧ ∀ fd, (vfs.vfsOpen path flags mode s).1 = .ok fd → 0 ≤ fd.toInt
  close : ∀ vfs, hooks.vfs = some vfs → ∀ fd s, 0 ≤ fd.toInt → I s → I (vfs.vfsClose fd s).2
  fork : ∀ process, hooks.process = some process → ∀ s, I s →
    I (process.procFork s).2 ∧ ∀ pid, (process.procFork s).1 = .ok pid → 0 ≤ pid.toInt
  execve : ∀ process, hooks.process = some process → ∀ path argv envp s, UserRange path 1 → (argv = 0 ∨ UserRange argv 8) →
    (envp = 0 ∨ UserRange envp 8) → I s → I (process.procExecve path argv envp s).2
  exit : ∀ process, hooks.process = some process → ∀ status s, I s → I (process.procExit status s)

/-! ## Handlers -/

/-- What a handler does keeps `I`, and it succeeds with numbers that are not negative. -/
def Sound (I : σ → Prop) (outcome : Option SyscallResult × σ) : Prop :=
  I outcome.2 ∧ ∀ v, outcome.1 = some (.ok v) → 0 ≤ v.toInt

variable {I : σ → Prop} {s : σ} {hooks : Hooks σ}

/-- To fail without doing anything is sound. -/
theorem sound_error (hs : I s) (e : Errno) : Sound I (some (.error e), s) := ⟨hs, fun v hv => by cases hv⟩

/-- A check that fails is sound, and one that succeeds is as sound as what comes next. -/
theorem sound_checked {α : Type} {check : Except Errno α} {next : α → σ → Option SyscallResult × σ} (hs : I s)
    (hnext : ∀ a, check = .ok a → Sound I (next a s)) : Sound I (checked check next s) := by
  unfold checked
  cases check with
  | error e => exact sound_error hs e
  | ok a => exact hnext a rfl

/-- Without a hook the call fails. With one it is sound if the hook is. -/
theorem sound_hooked {α : Type} {hook : Option (σ → Except Errno α × σ)} {f : α → Int64} (hs : I s)
    (hhook : ∀ h, hook = some h → I (h s).2 ∧ ∀ a, (h s).1 = .ok a → 0 ≤ (f a).toInt) : Sound I (hooked hook f s) := by
  unfold hooked
  cases hook with
  | none => exact sound_error hs _
  | some h =>
    obtain ⟨hkept, hresult⟩ := hhook h rfl
    refine ⟨hkept, ?_⟩
    intro v hv
    cases hr : (h s).1 with
    | error e => simp [hr, Except.map] at hv
    | ok a =>
      obtain rfl : f a = v := by simpa [hr, Except.map] using hv
      exact hresult a hr

/-- `sys_read` and `sys_write` are sound, since their hooks are called with arguments that have passed. -/
theorem sound_transfer {hook : Option (Int32 → UInt64 → UInt64 → σ → Except Errno UInt64 × σ)} (hs : I s)
    (hkeep : ∀ h, hook = some h → ∀ fd buf count, 0 ≤ fd.toInt → UserRange buf count →
      I (h fd buf count s).2 ∧ ∀ n, (h fd buf count s).1 = .ok n → n ≤ count) (args : Args) : Sound I (transfer hook args s) := by
  refine sound_checked hs fun fd hfd => sound_checked hs fun _ hptr => sound_hooked hs ?_
  intro h hh
  obtain ⟨hook', hhook, rfl⟩ := Option.map_eq_some_iff.mp hh
  have hrange := validateUserPtr_ok_iff.mp hptr
  obtain ⟨hkept, hcount⟩ := hkeep hook' hhook fd args.a1 args.a2 (validateFd_ok hfd) hrange
  refine ⟨hkept, ?_⟩
  intro n hn
  have hle := UInt64.le_iff_toNat_le.mp (hcount n hn)
  have hbound := hrange.2
  rw [toInt_toInt64 (by omega)]
  exact Int.natCast_nonneg _

/-- The handler of a number. -/
def handlerOf (hooks : Hooks σ) : Nat → Handler σ
  | 0 => sysRead hooks
  | 1 => sysWrite hooks
  | 2 => sysOpen hooks
  | 3 => sysClose hooks
  | 57 => sysFork hooks
  | 59 => sysExecve hooks
  | 60 => sysExit hooks
  | _ => enosys

/-- The numbers of the system calls that there are. -/
def implemented : List Nat := [0, 1, 2, 3, 57, 59, 60]

/-- All other numbers are answered with an error. -/
theorem handlerOf_eq_enosys {n : Nat} (h : n ∉ implemented) : handlerOf hooks n = enosys := by
  unfold handlerOf
  split
  all_goals first | rfl | exact absurd (by decide) h

/-- What `init` puts in the table. -/
theorem getD_init (hooks : Hooks σ) (n : Nat) : ((Table.new.init hooks)[n]?).getD enosys = handlerOf hooks n := by
  have hnew : ∀ n : Nat, ((Table.new : Table σ)[n]?).getD enosys = enosys := by
    intro n
    rw [Table.new, Vector.getElem?_replicate]
    split <;> rfl
  have hset : ∀ (table : Table σ) (i : Nat) (handler : Handler σ), i < syscallTableSize →
      ((table.setIfInBounds i handler)[n]?).getD enosys = if n = i then handler else (table[n]?).getD enosys := by
    intro table i handler hi
    rw [Vector.getElem?_setIfInBounds]
    by_cases hn : i = n
    · rw [if_pos hn, if_pos hn.symm, if_pos (hn ▸ hi)]
      rfl
    · rw [if_neg hn, if_neg (Ne.symm hn)]
  unfold Table.init
  simp only [hset _ _ _ (by decide : nrRead < syscallTableSize), hset _ _ _ (by decide : nrWrite < syscallTableSize),
    hset _ _ _ (by decide : nrOpen < syscallTableSize), hset _ _ _ (by decide : nrClose < syscallTableSize),
    hset _ _ _ (by decide : nrFork < syscallTableSize), hset _ _ _ (by decide : nrExecve < syscallTableSize),
    hset _ _ _ (by decide : nrExit < syscallTableSize), hnew]
  split_ifs with hexit hexecve hfork hclose hopen hwrite hread
  · rw [hexit]; rfl
  · rw [hexecve]; rfl
  · rw [hfork]; rfl
  · rw [hclose]; rfl
  · rw [hopen]; rfl
  · rw [hwrite]; rfl
  · rw [hread]; rfl
  · refine (handlerOf_eq_enosys ?_).symm
    simp only [implemented, List.mem_cons, List.not_mem_nil, or_false, not_or]
    exact ⟨hread, hwrite, hopen, hclose, hfork, hexecve, hexit⟩

/-- `sys_open` is sound. -/
theorem sound_sysOpen (hkeep : hooks.Keep I) (hs : I s) (args : Args) : Sound I (sysOpen hooks args s) := by
  refine sound_checked hs fun _ hptr => sound_checked hs fun _ hflags => sound_hooked hs ?_
  intro h hh
  obtain ⟨vfs, hvfs, rfl⟩ := Option.map_eq_some_iff.mp hh
  split_ifs at hflags with hlarge
  have hnonneg : 0 ≤ args.a1.toUInt32.toInt32.toInt := by
    rw [toInt_toInt32 hlarge]
    exact Int.natCast_nonneg _
  obtain ⟨hkept, hfd⟩ := hkeep.openFile vfs hvfs _ _ args.a2.toUInt32 s (validateUserPtr_ok_iff.mp hptr) hnonneg hs
  refine ⟨hkept, fun fd hok => ?_⟩
  rw [Int32.toInt_toInt64]
  exact hfd fd hok

/-- `sys_execve` is sound. -/
theorem sound_sysExecve (hkeep : hooks.Keep I) (hs : I s) (args : Args) : Sound I (sysExecve hooks args s) := by
  refine sound_checked hs fun _ hpath => sound_checked hs fun _ hargv => sound_checked hs fun _ henvp => ?_
  dsimp only
  split
  · rename_i process hprocess
    have hkept := hkeep.execve process hprocess _ _ _ s (validateUserPtr_ok_iff.mp hpath) (validateOptionalPtr_ok hargv)
      (validateOptionalPtr_ok henvp) hs
    refine ⟨hkept, fun v hv => ?_⟩
    obtain ⟨e, -, he⟩ := Option.map_eq_some_iff.mp hv
    cases he
  · exact sound_error hs _

/-- And so are all handlers. -/
theorem sound_handlerOf (hkeep : hooks.Keep I) (hs : I s) (n : Nat) (args : Args) : Sound I (handlerOf hooks n args s) := by
  unfold handlerOf
  split
  · refine sound_transfer hs ?_ args
    intro h hh fd buf count hfd hrange
    obtain ⟨vfs, hvfs, rfl⟩ := Option.map_eq_some_iff.mp hh
    exact hkeep.read vfs hvfs fd buf count s hfd hrange hs
  · refine sound_transfer hs ?_ args
    intro h hh fd buf count hfd hrange
    obtain ⟨vfs, hvfs, rfl⟩ := Option.map_eq_some_iff.mp hh
    exact hkeep.write vfs hvfs fd buf count s hfd hrange hs
  · exact sound_sysOpen hkeep hs args
  · refine sound_checked hs fun fd hfd => sound_hooked hs ?_
    intro h hh
    obtain ⟨vfs, hvfs, rfl⟩ := Option.map_eq_some_iff.mp hh
    exact ⟨hkeep.close vfs hvfs fd s (validateFd_ok hfd) hs, fun _ _ => by decide⟩
  · refine sound_hooked hs ?_
    intro h hh
    obtain ⟨process, hprocess, rfl⟩ := Option.map_eq_some_iff.mp hh
    obtain ⟨hkept, hpid⟩ := hkeep.fork process hprocess s hs
    refine ⟨hkept, fun pid hok => ?_⟩
    rw [Int32.toInt_toInt64]
    exact hpid pid hok
  · exact sound_sysExecve hkeep hs args
  · unfold sysExit
    split
    · rename_i process hprocess
      exact ⟨hkeep.exit process hprocess _ s hs, fun v hv => by cases hv⟩
    · exact sound_error hs _
  · exact sound_error hs _

/-! ## Runs -/

/-- The arguments that a user program has put in its registers. -/
def userArgs (u : Cpu) : Args :=
  ⟨u.machine.regs .rdi, u.machine.regs .rsi, u.machine.regs .rdx, u.machine.regs .r10, u.machine.regs .r8, u.machine.regs .r9⟩

/-- A system call: the CPU at `SYSCALL`, the state of the subsystems before and after it, and the CPU at `sysretq`, if it comes back. -/
structure SystemCall (σ : Type) where
  cpu : Cpu
  before : σ
  after : σ
  back : Option Cpu

/-- A system call is served: by the trampoline and `syscall_dispatch`. -/
inductive SystemCall.Served (table : Table σ) : SystemCall σ → Prop where
  | returns (u : Cpu) (rflags lstar returnAddress : UInt64) (s s' : σ) (m : Machine)
      (compiled : Compiled table (kernelStackTop u) (dispatched u rflags lstar returnAddress) s m s') :
      Served table ⟨u, s, s', some (atSysret u rflags lstar m)⟩
  | gone (u : Cpu) (s s' : σ) (never : syscallDispatch table (u.machine.regs .rax) (userArgs u) s = (none, s')) :
      Served table ⟨u, s, s', none⟩

/-- System calls one after another, of any programs. -/
inductive Calls (table : Table σ) (start : σ) : List (SystemCall σ) → σ → Prop where
  | nil : Calls table start [] start
  | concat {cs : List (SystemCall σ)} {c : SystemCall σ} (run : Calls table start cs c.before) (served : c.Served table) :
      Calls table start (cs ++ [c]) c.after

/-- A call has been dispatched with what was in the registers, and the result is what the program finds in `rax`. -/
theorem SystemCall.Served.dispatch {table : Table σ} {c : SystemCall σ} (h : c.Served table) :
    syscallDispatch table (c.cpu.machine.regs .rax) (userArgs c.cpu) c.before =
      (c.back.map fun back => (back.machine.regs .rax).toInt64, c.after) := by
  cases h with
  | returns u rflags lstar returnAddress s s' m compiled =>
    have hrax : (atSysret u rflags lstar m).machine.regs .rax = m.regs .rax := by
      rw [atSysret_eq compiled.returns]
      rfl
    rw [Option.map_some, hrax]
    exact compiled.result _ _ _ _ _ _ _ (sysvArgs_dispatched u rflags lstar returnAddress)
  | gone u s s' never => exact never

/-- The error codes are from 1 to 38. -/
theorem code_bounds (e : Errno) : -38 ≤ (-e.code).toInt ∧ (-e.code).toInt < 0 := by cases e <;> decide

/-- `syscall_dispatch` calls the handler of the number and flattens its result. -/
theorem syscallDispatch_eq (hooks : Hooks σ) (nr : UInt64) (args : Args) (s : σ) :
    syscallDispatch (Table.new.init hooks) nr args s =
      ((handlerOf hooks nr.toNat args s).1.map flatten, (handlerOf hooks nr.toNat args s).2) := by
  rw [syscallDispatch, getD_init]

/-- The handler of a call that was made. -/
def SystemCall.outcome (hooks : Hooks σ) (c : SystemCall σ) : Option SyscallResult × σ :=
  handlerOf hooks (c.cpu.machine.regs .rax).toNat (userArgs c.cpu) c.before

/-- What the program finds in `rax` is what the handler has come to. -/
theorem SystemCall.Served.outcome {c : SystemCall σ} (h : c.Served (Table.new.init hooks)) :
    (c.outcome hooks).2 = c.after ∧ (c.outcome hooks).1.map flatten = c.back.map fun back => (back.machine.regs .rax).toInt64 := by
  have hdispatch := h.dispatch
  rw [syscallDispatch_eq, Prod.mk.injEq] at hdispatch
  exact ⟨hdispatch.2, hdispatch.1⟩

/-- A run of system calls keeps what the hooks keep. -/
theorem Calls.keep (hkeep : hooks.Keep I) {start : σ} (hstart : I start) {cs : List (SystemCall σ)}
    (run : Calls (Table.new.init hooks) start cs s) : I s ∧ ∀ c ∈ cs, I c.before ∧ c.Served (Table.new.init hooks) := by
  induction run with
  | nil => exact ⟨hstart, fun c hc => by cases hc⟩
  | @concat cs c run served ih =>
    obtain ⟨hbefore, hcalls⟩ := ih
    refine ⟨?_, List.forall_mem_append.mpr ⟨hcalls, List.forall_mem_singleton.mpr ⟨hbefore, served⟩⟩⟩
    rw [← served.outcome.1]
    exact (sound_handlerOf hkeep hbefore _ _).1

/-- Let `I` be anything that the hooks keep when they are called with pointers to user space and descriptors and flags in the range of
`int`. Then every run of system calls keeps it, whatever the programs have in their registers. When a call comes back, the program finds
in `rax` either what its handler has succeeded with, and it is not negative, or the negative of the error code, from -38 to -1. A number
that is not one of the seven is answered with -38, and nothing has been done. -/
theorem system_calls_bounded (hooks : Hooks σ) (I : σ → Prop) (hkeep : hooks.Keep I) (start s : σ) (hstart : I start)
    (cs : List (SystemCall σ)) (run : Calls (Table.new.init hooks) start cs s) :
    I s ∧ ∀ c ∈ cs, I c.before ∧ I c.after ∧
      (∀ back, c.back = some back →
        (∃ v, (c.outcome hooks).1 = some (.ok v) ∧ (back.machine.regs .rax).toInt64 = v ∧ 0 ≤ v.toInt) ∨
        (∃ e, (c.outcome hooks).1 = some (.error e) ∧ (back.machine.regs .rax).toInt64 = -e.code ∧
          -38 ≤ (-e.code).toInt ∧ (-e.code).toInt < 0)) ∧
      ((c.cpu.machine.regs .rax).toNat ∉ implemented →
        c.after = c.before ∧ ∃ back, c.back = some back ∧ (back.machine.regs .rax).toInt64 = -38) := by
  obtain ⟨hend, hcalls⟩ := run.keep hkeep hstart
  refine ⟨hend, fun c hc => ?_⟩
  obtain ⟨hbefore, hserved⟩ := hcalls c hc
  obtain ⟨hafter, hback⟩ := hserved.outcome
  have hsound : Sound I (c.outcome hooks) := sound_handlerOf hkeep hbefore _ _
  refine ⟨hbefore, hafter ▸ hsound.1, ?_, ?_⟩
  · intro back hsome
    rw [hsome, Option.map_some] at hback
    obtain ⟨result, hresult, hrax⟩ := Option.map_eq_some_iff.mp hback
    cases result with
    | ok v => exact .inl ⟨v, hresult, hrax.symm, hsound.2 v hresult⟩
    | error e => exact .inr ⟨e, hresult, hrax.symm, code_bounds e⟩
  · intro hnone
    have houtcome : c.outcome hooks = (some (.error .ENOSYS), c.before) := by
      rw [SystemCall.outcome, handlerOf_eq_enosys hnone]
      rfl
    rw [houtcome] at hafter hback
    obtain ⟨back, hsome, hrax⟩ := Option.map_eq_some_iff.mp hback.symm
    exact ⟨hafter.symm, back, hsome, hrax⟩

/-- Hooks that write down which bytes they were pointed to, and do nothing else. -/
def recordingHooks : Hooks (List (UInt64 × UInt64)) where
  vfs := some
    { vfsRead := fun _ buf count s => (.ok 0, s ++ [(buf, count)])
      vfsWrite := fun _ buf count s => (.ok count, s ++ [(buf, count)])
      vfsOpen := fun path _ _ s => (.ok 3, s ++ [(path, 1)])
      vfsClose := fun _ s => (.ok (), s) }
  process := none

/-- These hooks are only ever pointed to user space. -/
theorem recordingHooks_keep : recordingHooks.Keep fun s => ∀ r ∈ s, UserRange r.1 r.2 := by
  have hadd : ∀ {s : List (UInt64 × UInt64)} {ptr len : UInt64}, UserRange ptr len → (∀ r ∈ s, UserRange r.1 r.2) →
      ∀ r ∈ s ++ [(ptr, len)], UserRange r.1 r.2 :=
    fun hrange hs => List.forall_mem_append.mpr ⟨hs, List.forall_mem_singleton.mpr hrange⟩
  refine ⟨?_, ?_, ?_, ?_, ?_, ?_, ?_⟩
  · rintro _ ⟨⟩ fd buf count s - hrange hs
    exact ⟨hadd hrange hs, fun n hn => by cases hn; exact UInt64.zero_le⟩
  · rintro _ ⟨⟩ fd buf count s - hrange hs
    exact ⟨hadd hrange hs, fun n hn => by cases hn; exact UInt64.le_refl _⟩
  · rintro _ ⟨⟩ path flags mode s hrange - hs
    exact ⟨hadd hrange hs, fun fd hfd => by cases hfd; decide⟩
  · rintro _ ⟨⟩ fd s - hs
    exact hs
  · rintro _ ⟨⟩
  · rintro _ ⟨⟩
  · rintro _ ⟨⟩

/-- The dispatcher returns what the handler has come to. -/
theorem compiled_returnValue {hooks : Hooks σ} {u : Cpu} {s s' : σ} {v : UInt64} (rflags lstar returnAddress : UInt64)
    (h : syscallDispatch (Table.new.init hooks) (u.machine.regs .rax) (userArgs u) s = (some v.toInt64, s')) :
    Compiled (Table.new.init hooks) (kernelStackTop u) (dispatched u rflags lstar returnAddress) s
      (returnValue v (dispatched u rflags lstar returnAddress)) s' := by
  refine ⟨sysvReturn_returnValue _ _ _, ?_⟩
  intro nr a0 a1 a2 a3 a4 a5 hargs
  rw [sysvArgs_dispatched] at hargs
  simp only [List.map_cons, List.map_nil, List.cons.injEq, and_true] at hargs
  obtain ⟨rfl, rfl, rfl, rfl, rfl, rfl, rfl⟩ := hargs
  exact h

/-- The program of `lowStack` at `write(5, 0x1000, 5)`. -/
def atWrite : Cpu :=
  { lowStack with machine := { lowStack.machine with regs := fun r => if r = .rax then 1 else if r = .rsi then 0x1000 else 5 } }

/-- A program makes system call `write`, and then the program of `lowStack` makes system call 5. -/
theorem system_calls_bounded_recording : ∃ c c' : SystemCall (List (UInt64 × UInt64)),
    Calls (Table.new.init recordingHooks) [] [c, c'] [(0x1000, 5)] ∧ (c.cpu, c.after) = (atWrite, [(0x1000, 5)]) ∧
      UserRange 0x1000 5 ∧ (∃ back, c.back = some back ∧ (back.machine.regs .rax).toInt64 = 5) ∧
      ∃ back, c'.back = some back ∧ (back.machine.regs .rax).toInt64 = -38 := by
  have hwrite : syscallDispatch (Table.new.init recordingHooks) (atWrite.machine.regs .rax) (userArgs atWrite) [] =
      (some (5 : UInt64).toInt64, [(0x1000, 5)]) := by
    rw [syscallDispatch_eq]
    decide
  have hnone : syscallDispatch (Table.new.init recordingHooks) (lowStack.machine.regs .rax) (userArgs lowStack) [(0x1000, 5)] =
      (some (0 - 38 : UInt64).toInt64, [(0x1000, 5)]) := by
    rw [syscallDispatch_eq]
    decide
  have run : Calls (Table.new.init recordingHooks) [] ([] ++ [⟨atWrite, [], [(0x1000, 5)], some _⟩] ++
      [⟨lowStack, [(0x1000, 5)], [(0x1000, 5)], some _⟩]) [(0x1000, 5)] :=
    .concat (.concat .nil (.returns atWrite 0x202 0 0x9000 [] _ _ (compiled_returnValue _ _ _ hwrite)))
      (.returns lowStack 0x202 0 0x9000 _ _ _ (compiled_returnValue _ _ _ hnone))
  obtain ⟨hend, hcalls⟩ := system_calls_bounded recordingHooks _ recordingHooks_keep [] _ (by simp) _ run
  obtain ⟨⟨-, -, hback, -⟩, hcalls⟩ := List.forall_mem_cons.mp hcalls
  obtain ⟨⟨-, -, -, hanswer⟩, -⟩ := List.forall_mem_cons.mp hcalls
  refine ⟨_, _, run, rfl, hend (0x1000, 5) (by simp), ⟨_, rfl, ?_⟩, (hanswer (by decide)).2⟩
  -- `write` has succeeded with 5
  rcases hback _ rfl with ⟨v, hv, hrax, -⟩ | ⟨e, he, -⟩
  · cases hv
    exact hrax
  · cases he

end Syscall

end GolemKernel
