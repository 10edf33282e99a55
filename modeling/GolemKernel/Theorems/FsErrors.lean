import GolemKernel.Lemmas.OpenCreate
import GolemKernel.Lemmas.RamFsNode

/-!
# What a call that fails leaves behind

A call of a RamFs that fails changes nothing (`Op.Effect.of_error`). An operation of the virtual filesystem reads, and then makes at most
one call that changes something, with one exception: `open` may create a file, or find one, and then truncate it and ask for its
size. Neither of the two can fail on a regular file, so `open` too either succeeds or changes nothing.

A `File` handle does not keep that rule: an empty write past the end of a file extends the file, and a write that appends moves the offset
before it knows whether the write succeeds.
-/

namespace GolemKernel

namespace Fs

open Text

/-! ## Operations of the virtual filesystem -/

/-- Every filesystem satisfies its invariant. -/
def World.Inv (w : World) : Prop := ∀ fs, (w.disk fs).Inv

namespace World

variable {w : World} {α β : Type}

/-- An operation returns, keeps the invariant, and changes nothing if it fails. -/
def Clean (w : World) (x : VfsM α) : Prop := ∃ r w', w.run x = some (r, w') ∧ w'.Inv ∧ ∀ e, r = .error e → w' = w

/-- A sound table in the place of another keeps the world sound. -/
theorem Inv.setDisk (hw : w.Inv) (fs : FsId) {s : Inner} (hs : s.Inv) : (w.setDisk fs s).Inv := by
  intro fs'
  by_cases h : fs' = fs
  · subst h
    rw [disk_setDisk]
    exact hs
  · simp only [World.setDisk, Function.update_of_ne h]
    exact hw fs'

/-- A call of a filesystem returns, keeps the invariant, and changes nothing if it fails. -/
theorem Inv.op (hw : w.Inv) (fs : FsId) (op : Op) : ∃ r s, op.run (w.disk fs) = some (r, s) ∧ (w.setDisk fs s).Inv ∧
    ∀ e, r = .error e → w.setDisk fs s = w := by
  obtain ⟨r, s, hrun, hchange⟩ := op.run_change (hw fs)
  refine ⟨r, s, hrun, hw.setDisk fs ((hw fs).changes hchange), ?_⟩
  rintro e rfl
  rw [(Op.run_effect hrun).of_error, setDisk_self]

/-- A call made through the virtual filesystem that is a call of the filesystem. -/
theorem Inv.clean_make (hw : w.Inv) (c : Call) (fs : FsId) (op : Op) (hc : ∀ r s, op.run (w.disk fs) = some (r, s) →
    ∃ r', exec c w = some (r', w.setDisk fs s) ∧ ∀ e, r' = .error e → r = .error e) : w.Clean c.make := by
  obtain ⟨r, s, hrun, hinv, herror⟩ := hw.op fs op
  obtain ⟨r', hexec, hr'⟩ := hc r s hrun
  refine ⟨r', w.setDisk fs s, by rw [run_make, hexec], hinv, ?_⟩
  intro e he
  exact herror e (hr' e he)

/-- To fail at once is clean. -/
theorem clean_error (hw : w.Inv) (e : FsError) : w.Clean (throw e : VfsM α) := ⟨.error e, w, rfl, hw, fun _ _ => rfl⟩

/-- An operation that begins with one that changes nothing. -/
theorem clean_bind {x : VfsM α} {f : α → VfsM β} {r : FsResult α} (hw : w.Inv) (hx : w.run x = some (r, w))
    (hf : ∀ a, r = .ok a → w.Clean (f a)) : w.Clean (x >>= f) := by
  cases r with
  | ok a =>
    obtain ⟨r, w', hrun, hinv, herror⟩ := hf a rfl
    exact ⟨r, w', by rw [run_bind_ok w hx, hrun], hinv, herror⟩
  | error e => exact ⟨.error e, w, run_bind_error w hx f, hw, fun _ _ => rfl⟩

/-- An operation whose answer is not looked at. -/
theorem Clean.map {x : VfsM α} (h : w.Clean x) (f : α → β) : w.Clean (x >>= fun a => pure (f a)) := by
  obtain ⟨r, w', hrun, hinv, herror⟩ := h
  refine ⟨r.map f, w', run_bind_pure w hrun f, hinv, ?_⟩
  intro e he
  cases r with
  | ok a => cases he
  | error e' => exact herror e' rfl

/-- A result that is computed without a call changes nothing. -/
theorem run_ofResult (r : FsResult α) : w.run (ofResult r) = some (r, w) := rfl

/-- What the operations on names begin with changes nothing. -/
theorem run_parentOf (w : World) (path : Text) : ∃ r, w.run (Vfs.parentOf path) = some (r, w) := by
  unfold Vfs.parentOf
  cases hsplit : splitParent path with
  | error e => exact ⟨.error e, rfl⟩
  | ok p =>
    obtain ⟨r, hrun⟩ := w.resolve_returns p.1
    exact ⟨_, run_bind_pure w hrun fun d => (d.1, d.2, String.ofList p.2)⟩

/-- An operation on a name that ends with a call of the filesystem. -/
theorem clean_parentOf (hw : w.Inv) (path : Text) {f : FsId × InodeNum × String → VfsM α} (hf : ∀ p, w.Clean (f p)) :
    w.Clean (Vfs.parentOf path >>= f) := by
  obtain ⟨r, hrun⟩ := w.run_parentOf path
  exact clean_bind hw hrun fun p _ => hf p

/-- `create` fails without a trace. -/
theorem clean_create (hw : w.Inv) (fs : FsId) (d : InodeNum) (name : String) (ft : FileType) (mode : Mode) :
    w.Clean (FileSystem.create fs d name ft mode) := by
  refine hw.clean_make (.create fs d name ft mode) fs (.create d name ft mode) ?_
  intro r s hrun
  obtain ⟨rfl, rfl⟩ := Prod.mk.inj (Option.some.inj hrun)
  refine ⟨_, rfl, ?_⟩
  intro e he
  simp [he, Except.map]

/-- `mkdir` fails without a trace. -/
theorem clean_mkdir (hw : w.Inv) (path : Text) (mode : Mode) : w.Clean (Vfs.mkdir path mode) := by
  refine clean_parentOf hw path ?_
  rintro ⟨fs, d, name⟩
  exact (clean_create hw fs d name .directory mode).map fun _ => ()

/-- `unlink` fails without a trace. -/
theorem clean_unlink (hw : w.Inv) (path : Text) : w.Clean (Vfs.unlink path) := by
  refine clean_parentOf hw path ?_
  rintro ⟨fs, d, name⟩
  refine hw.clean_make (.unlink fs d name) fs (.unlink d name) ?_
  intro r s hrun
  refine ⟨r, ?_, fun e he => he⟩
  simp only [World.exec]
  rw [Option.some.inj hrun]

/-- `rmdir` fails without a trace. -/
theorem clean_rmdir (hw : w.Inv) (path : Text) : w.Clean (Vfs.rmdir path) := by
  refine clean_parentOf hw path ?_
  rintro ⟨fs, d, name⟩
  refine hw.clean_make (.rmdir fs d name) fs (.rmdir d name) ?_
  intro r s hrun
  refine ⟨r, ?_, fun e he => he⟩
  simp only [World.exec]
  rw [Option.some.inj hrun]

/-- `rename` fails without a trace. -/
theorem clean_rename (hw : w.Inv) (src dst : Text) : w.Clean (Vfs.rename src dst) := by
  refine clean_bind hw (run_ofResult (splitParent src)) ?_
  rintro ⟨srcParent, srcName⟩ -
  refine clean_bind hw (run_ofResult (splitParent dst)) ?_
  rintro ⟨dstParent, dstName⟩ -
  obtain ⟨r₁, hrun₁⟩ := w.resolve_returns srcParent
  refine clean_bind hw hrun₁ ?_
  rintro ⟨fs, d⟩ -
  obtain ⟨r₂, hrun₂⟩ := w.resolve_returns dstParent
  refine clean_bind hw hrun₂ ?_
  rintro ⟨fs', d'⟩ -
  dsimp only
  split
  · exact clean_error hw .crossDevice
  · refine hw.clean_make (.rename fs d _ d' _) fs (.rename d (String.ofList srcName) d' (String.ofList dstName)) ?_
    intro r s hrun
    refine ⟨r, ?_, fun e he => he⟩
    have hrename : RamFs.rename (w.disk fs) d (String.ofList srcName) d' (String.ofList dstName) = some (r, s) := hrun
    simp [World.exec, hrename]

/-! `open`: what it does after it has found or created the file cannot fail on a regular file. -/

/-- The offset of a new handle. -/
theorem run_initialOffset (w : World) (flags : OpenFlags) (fs : FsId) (inode : InodeNum) :
    ∃ r, w.run (if flags.append then (·.size) <$> FileSystem.metadata fs inode else pure 0) = some (r, w) ∧
      ∀ data, (w.disk fs).content inode = some data → ∃ offset, r = .ok offset := by
  split
  · rw [← bind_pure_comp]
    refine ⟨_, run_bind_pure w (w.run_metadata fs inode) _, ?_⟩
    intro data hdata
    obtain ⟨m, hm, -⟩ := RamFs.metadata_size hdata
    exact ⟨m.size, by rw [hm]; rfl⟩
  · exact ⟨.ok 0, rfl, fun _ _ => ⟨0, rfl⟩⟩

/-- On a regular file the end of `open` succeeds. -/
theorem run_handle_file (hw : w.Inv) (flags : OpenFlags) {fs : FsId} {inode : InodeNum} {data : List UInt8}
    (hdata : (w.disk fs).content inode = some data) : ∃ f w', w.run (Vfs.handle flags fs inode) = some (.ok f, w') ∧ w'.Inv := by
  rw [Vfs.handle_eq]
  have htruncate : ∃ w₁ data₁, w.run (if flags.truncate && flags.write then FileSystem.truncate fs inode 0 else pure ()) =
      some (.ok (), w₁) ∧ w₁.Inv ∧ (w₁.disk fs).content inode = some data₁ := by
    split
    · obtain ⟨s, hs, hcontent, -⟩ := RamFs.truncate_content hdata (RamFs.resize_zero data)
      obtain ⟨r, s', hrun, hinv, -⟩ := hw.op fs (.truncate inode 0)
      obtain ⟨-, rfl⟩ := Prod.mk.inj (hs.symm.trans (Option.some.inj hrun))
      exact ⟨w.setDisk fs s, _, by rw [run_truncate, hs], hinv, by rw [disk_setDisk]; exact hcontent⟩
    · exact ⟨w, data, rfl, hw, hdata⟩
  obtain ⟨w₁, data₁, hrun₁, hw₁, hdata₁⟩ := htruncate
  obtain ⟨r, hrun₂, hok⟩ := w₁.run_initialOffset flags fs inode
  obtain ⟨offset, rfl⟩ := hok data₁ hdata₁
  exact ⟨_, w₁, by rw [run_bind_ok w hrun₁, run_bind_ok w₁ hrun₂]; rfl, hw₁⟩

/-- On anything else it changes nothing. -/
theorem clean_handle (hw : w.Inv) (flags : OpenFlags) (fs : FsId) (inode : InodeNum) : w.Clean (Vfs.handle flags fs inode) := by
  cases hdata : (w.disk fs).content inode with
  | some data =>
    obtain ⟨f, w', hrun, hinv⟩ := run_handle_file hw flags hdata
    refine ⟨_, w', hrun, hinv, ?_⟩
    rintro e ⟨⟩
  | none =>
    rw [Vfs.handle_eq]
    have htruncate : ∃ r, w.run (if flags.truncate && flags.write then FileSystem.truncate fs inode 0 else pure ()) = some (r, w) := by
      split
      · rcases RamFs.truncate_cases (w.disk fs) inode 0 with ⟨e, he⟩ | ⟨node, data, -, hnode, hkind, -⟩
        · exact ⟨.error e, by rw [run_truncate, he, setDisk_self]⟩
        · simp [Inner.content, hnode, hkind] at hdata
      · exact ⟨.ok (), rfl⟩
    obtain ⟨r₁, hrun₁⟩ := htruncate
    refine clean_bind hw hrun₁ fun _ _ => ?_
    obtain ⟨r₂, hrun₂, -⟩ := w.run_initialOffset flags fs inode
    refine clean_bind hw hrun₂ fun offset _ => ?_
    exact ⟨_, w, rfl, hw, fun _ _ => rfl⟩

/-- What `open` does with what `resolve` returned, and what it does with the file. -/
theorem clean_found (hw : w.Inv) (path : Text) (flags : OpenFlags) (r : FsResult (FsId × InodeNum)) :
    w.Clean (Vfs.found path flags r >>= fun p => Vfs.handle flags p.1 p.2) := by
  cases r with
  | ok p =>
    have hfound : Vfs.found path flags (.ok p) = if flags.exclusive && flags.create then throw .alreadyExists else pure p := rfl
    rw [hfound]
    split
    · exact clean_bind hw (r := .error .alreadyExists) rfl fun _ h => nomatch h
    · exact clean_bind hw (r := .ok p) rfl fun a _ => clean_handle hw flags a.1 a.2
  | error e =>
    by_cases he : e = .notFound ∧ flags.create = true
    · obtain ⟨rfl, hcreate⟩ := he
      rw [Vfs.found, if_pos hcreate]
      simp only [bind_assoc]
      refine clean_bind hw (run_ofResult (splitParent path)) ?_
      rintro ⟨parentPath, name⟩ -
      dsimp only
      obtain ⟨r, hrun⟩ := w.resolve_returns parentPath
      refine clean_bind hw hrun ?_
      rintro ⟨fs, d⟩ -
      simp only [pure_bind]
      obtain ⟨r', w', hrun', hinv, herror⟩ := clean_create hw fs d (String.ofList name) .regular 0o644
      cases r' with
      | error e => exact ⟨.error e, w', run_bind_error w hrun' _, hinv, fun _ _ => herror e rfl⟩
      | ok i =>
        have hmade : RamFs.create (w.disk fs) d (String.ofList name) .regular 0o644 = (.ok i, w'.disk fs) := by
          have hexec := (w.run_create fs d (String.ofList name) .regular 0o644).symm.trans hrun'
          obtain ⟨hr, hw'⟩ := Prod.mk.inj (Option.some.inj hexec)
          rw [← hw', disk_setDisk, ← hr]
        obtain ⟨f, w'', hhandle, hinv''⟩ := run_handle_file hinv flags (RamFs.create_content (hw fs) hmade)
        refine ⟨.ok f, w'', by rw [run_bind_ok w hrun', hhandle], hinv'', ?_⟩
        rintro e ⟨⟩
    · have hfound : Vfs.found path flags (.error e) = throw e := by
        cases e <;> simp_all [Vfs.found]
      rw [hfound]
      exact clean_bind hw (r := .error e) rfl fun _ h => nomatch h

/-- `open` fails without a trace: after a create, neither `truncate` nor `metadata` fails. -/
theorem clean_open (hw : w.Inv) (path : Text) (flags : OpenFlags) : w.Clean (Vfs.open path flags) := by
  obtain ⟨r, hrun⟩ := w.resolve_returns path
  obtain ⟨r', w', hrun', hinv, herror⟩ := clean_found hw path flags r
  refine ⟨r', w', ?_, hinv, herror⟩
  rw [← hrun', run_bind, Vfs.open, run_bind]
  congr 1
  unfold World.run at hrun ⊢
  rw [ExceptT.run_mk, Concurrent.Prog.run_bind, hrun]
  rfl

end World

/-! ## Errors change nothing -/

/-- A mount that fails leaves the mount table. -/
theorem Vfs.mount_error {v : Vfs} {mountPoint : Text} {fs : FsId} {e : FsError} (h : (v.mount mountPoint fs).1 = .error e) :
    (v.mount mountPoint fs).2 = v := by
  unfold Vfs.mount at h ⊢
  dsimp only at h ⊢
  split
  · rfl
  · rename_i habs
    rw [if_neg habs] at h
    split
    · rfl
    · rename_i hfree
      rw [if_neg hfree] at h
      cases h

/-- So does an unmount. -/
theorem Vfs.unmount_error {v : Vfs} {mountPoint : Text} {e : FsError} (h : (v.unmount mountPoint).1 = .error e) :
    (v.unmount mountPoint).2 = v := by
  unfold Vfs.unmount at h ⊢
  dsimp only at h ⊢
  split
  · rfl
  · rename_i pos hpos
    rw [hpos] at h
    cases h

/-- Every operation comes to an end, keeps the world sound, and fails without a trace. -/
theorem SysOp.run_clean {w : World} (hw : w.Inv) (op : SysOp) :
    ∃ r w', op.run w = some (r, w') ∧ w'.Inv ∧ ∀ e, r = .error e → w' = w := by
  cases op with
  | ramfs fs op =>
    obtain ⟨r, s, hrun, hinv, herror⟩ := hw.op fs op
    exact ⟨r, w.setDisk fs s, by simp [SysOp.run, hrun], hinv, herror⟩
  | mount mountPoint fs =>
    refine ⟨(w.vfs.mount mountPoint fs).1, { w with vfs := (w.vfs.mount mountPoint fs).2 }, rfl, hw, ?_⟩
    intro e he
    rw [Vfs.mount_error he]
  | unmount mountPoint =>
    refine ⟨(w.vfs.unmount mountPoint).1, { w with vfs := (w.vfs.unmount mountPoint).2 }, rfl, hw, ?_⟩
    intro e he
    rw [Vfs.unmount_error he]
  | «open» path flags =>
    obtain ⟨r, w', hrun, hinv, herror⟩ := World.clean_open hw path flags
    refine ⟨r.map fun _ => (), w', by simp [SysOp.run, hrun], hinv, ?_⟩
    intro e he
    cases r with
    | ok f => cases he
    | error e' => exact herror e' rfl
  | mkdir path mode => exact World.clean_mkdir hw path mode
  | unlink path => exact World.clean_unlink hw path
  | rmdir path => exact World.clean_rmdir hw path
  | rename src dst => exact World.clean_rename hw src dst

/-- Without mounts and with new filesystems the world is sound. -/
theorem World.new_inv : World.new.Inv := fun _ => RamFs.new_inv

/-- A sequence of operations always ends, and keeps the invariant of every filesystem. -/
theorem World.runSys_inv {w : World} (hw : w.Inv) (ops : List SysOp) : ∃ w', w.runSys ops = some w' ∧ w'.Inv := by
  induction ops generalizing w with
  | nil => exact ⟨w, rfl, hw⟩
  | cons op ops ih =>
    obtain ⟨r, w₁, hrun, hinv, -⟩ := op.run_clean hw
    obtain ⟨w', hrest, hw'⟩ := ih hinv
    exact ⟨w', by simp [World.runSys, hrun, hrest], hw'⟩

/-- In every state that the filesystems and the mount table can reach, every operation returns or panics, and if it fails the mount table
and every inode table are what they were. -/
theorem errors_change_nothing (ops : List SysOp) (op : SysOp) :
    ∃ w, World.new.runSys ops = some w ∧ ∃ r w', op.run w = some (r, w') ∧ ∀ e, r = .error e → w' = w := by
  obtain ⟨w, hrun, hw⟩ := World.runSys_inv World.new_inv ops
  obtain ⟨r, w', hop, -, herror⟩ := op.run_clean hw
  exact ⟨w, hrun, r, w', hop, herror⟩

/-! ## Handles -/

namespace File

/-- The calls on a handle that transfer bytes at its offset. -/
inductive Transfer where
  | read (buf : List UInt8)
  | write (buf : List UInt8)

/-- One of these calls: the number of bytes it transferred, the handle, and the filesystems after it. -/
def Transfer.run (w : World) (f : File) : Transfer → Option ((FsResult Nat × File) × World)
  | .read buf => ((f.read buf).run World.exec w).map fun ((r, f'), w') => ((r.map (·.1), f'), w')
  | .write buf => (f.write buf).run World.exec w

/-- The call ends; if it fails or transfers nothing the filesystems are what they were, and if it returns an error (and does not panic) the
offset is too. -/
def Quiet (w : World) (f : File) (c : Transfer) : Prop :=
  ∃ r f' w', c.run w f = some ((r, f'), w') ∧ ((∃ e, r = .error e) ∨ r = .ok 0 → w' = w) ∧
    ((∃ e, r = .error e ∧ e ≠ .panic) → f'.offset = f.offset)

/-- What the call must not meet. A write that appends must end within the address space, or find the size where the offset is. Another write
must not be an empty one to a regular file, past its end, unless it panics. -/
def Harmless (w : World) (f : File) : Transfer → Prop
  | .read _ => True
  | .write buf => f.flags.write = true →
    if f.flags.append then ∀ m, RamFs.metadata (w.disk f.fs) f.inode = .ok m → m.size = f.offset ∨
      ∃ data, (w.disk f.fs).content f.inode = some data ∧ data.length + buf.length < 2 ^ 64
    else buf = [] → ∀ data, (w.disk f.fs).content f.inode = some data → f.offset ≤ data.length ∨ RamFs.isizeMax < f.offset

variable {w : World} {f : File}

/-- A call that fails leaves the filesystems, and keeps the rule exactly if it leaves the offset. -/
theorem quiet_iff_of_error {c : Transfer} {e : FsError} {f' : File} (h : c.run w f = some ((.error e, f'), w)) :
    Quiet w f c ↔ e = .panic ∨ f'.offset = f.offset := by
  constructor
  · rintro ⟨r, f'', w', hrun, -, hoffset⟩
    obtain ⟨⟨rfl, rfl⟩, rfl⟩ : (r = .error e ∧ f'' = f') ∧ w' = w := by
      simpa [eq_comm] using hrun.symm.trans h
    exact or_iff_not_imp_left.mpr fun hpanic => hoffset ⟨e, rfl, hpanic⟩
  · intro hoffset
    refine ⟨_, f', w, h, fun _ => rfl, ?_⟩
    rintro ⟨_, ⟨⟩, hpanic⟩
    exact hoffset.resolve_left hpanic

/-- A call that succeeds keeps the rule unless it changes the filesystems and transfers nothing. -/
theorem quiet_iff_of_ok {c : Transfer} {n : Nat} {f' : File} {w' : World} (h : c.run w f = some ((.ok n, f'), w')) :
    Quiet w f c ↔ (n = 0 → w' = w) := by
  constructor
  · rintro ⟨r, f'', w'', hrun, hsame, -⟩ rfl
    obtain ⟨⟨rfl, -⟩, rfl⟩ : (r = .ok 0 ∧ f'' = f') ∧ w'' = w' := by
      simpa [eq_comm] using hrun.symm.trans h
    exact hsame (.inr rfl)
  · intro hsame
    refine ⟨_, f', w', h, ?_, ?_⟩
    · rintro (⟨e, ⟨⟩⟩ | hzero)
      exact hsame (Except.ok.inj hzero)
    · rintro ⟨e, ⟨⟩, -⟩

/-- A read through a handle without the flag is refused. -/
theorem run_read_denied (hflag : f.flags.read = false) (buf : List UInt8) :
    (Transfer.read buf).run w f = some ((.error .permissionDenied, f), w) := by
  simp [Transfer.run, File.read, hflag, Except.map]

/-- A read that the filesystem refuses leaves the handle. -/
theorem run_read_error (hflag : f.flags.read = true) {buf : List UInt8} {e : FsError}
    (h : RamFs.read (w.disk f.fs) f.inode f.offset buf = .error e) :
    (Transfer.read buf).run w f = some ((.error e, f), w) := by
  simp [Transfer.run, File.read, hflag, Concurrent.Prog.run_call, World.exec, h, Except.map]

/-- A read moves the offset by what was read. -/
theorem run_read_ok (hflag : f.flags.read = true) {buf : List UInt8} {out : Nat × List UInt8}
    (h : RamFs.read (w.disk f.fs) f.inode f.offset buf = .ok out) :
    (Transfer.read buf).run w f = some ((.ok out.1, { f with offset := (f.offset + out.1) % 2 ^ 64 }), w) := by
  simp [Transfer.run, File.read, hflag, Concurrent.Prog.run_call, World.exec, h, Except.map]

/-- No read changes anything that it should not. -/
theorem quiet_read (w : World) (f : File) (buf : List UInt8) : Quiet w f (.read buf) := by
  cases hflag : f.flags.read with
  | false => exact (quiet_iff_of_error (run_read_denied hflag buf)).mpr (.inr rfl)
  | true =>
    cases hread : RamFs.read (w.disk f.fs) f.inode f.offset buf with
    | error e => exact (quiet_iff_of_error (run_read_error hflag hread)).mpr (.inr rfl)
    | ok out => exact (quiet_iff_of_ok (run_read_ok hflag hread)).mpr fun _ => rfl

/-- A write through a handle without the flag is refused. -/
theorem run_write_denied (hwrite : f.flags.write = false) (buf : List UInt8) :
    (Transfer.write buf).run w f = some ((.error .permissionDenied, f), w) := by
  simp [Transfer.run, File.write, hwrite]

/-- To append to an inode that is not there is refused. -/
theorem run_write_gone (hwrite : f.flags.write = true) (happend : f.flags.append = true) {e : FsError}
    (h : RamFs.metadata (w.disk f.fs) f.inode = .error e) (buf : List UInt8) :
    (Transfer.write buf).run w f = some ((.error e, f), w) := by
  simp [Transfer.run, File.write, hwrite, happend, Concurrent.Prog.run_call, World.exec, h]

/-- A write without the append flag is one at the offset. -/
theorem run_write_plain (hwrite : f.flags.write = true) (happend : f.flags.append = false) (buf : List UInt8) :
    (Transfer.write buf).run w f = (f.writeAtOffset buf).run World.exec w := by
  simp [Transfer.run, File.write, hwrite, happend]

/-- The write at the offset of the handle. -/
theorem run_writeAtOffset (w : World) (f : File) (buf : List UInt8) :
    (f.writeAtOffset buf).run World.exec w = some (match RamFs.write (w.disk f.fs) f.inode f.offset buf with
      | (.ok n, s) => ((.ok n, { f with offset := (f.offset + n) % 2 ^ 64 }), w.setDisk f.fs s)
      | (.error e, s) => ((.error e, f), w.setDisk f.fs s)) := by
  simp only [writeAtOffset, Concurrent.Prog.run_call, World.exec, Option.bind_some]
  obtain ⟨r, s⟩ := RamFs.write (w.disk f.fs) f.inode f.offset buf
  cases r <;> rfl

/-- A write that fails changes neither the handle nor the filesystem. -/
theorem run_writeAtOffset_error {buf : List UInt8} {e : FsError}
    (he : RamFs.write (w.disk f.fs) f.inode f.offset buf = (.error e, w.disk f.fs)) :
    (f.writeAtOffset buf).run World.exec w = some ((.error e, f), w) := by
  have hrun := run_writeAtOffset w f buf
  rw [he] at hrun
  dsimp only at hrun
  rwa [World.setDisk_self] at hrun

/-- A write that appends, once it has asked for the size. -/
theorem run_write_append (hwrite : f.flags.write = true) (happend : f.flags.append = true) {m : Metadata}
    (hm : RamFs.metadata (w.disk f.fs) f.inode = .ok m) (buf : List UInt8) :
    (Transfer.write buf).run w f = (({ f with offset := m.size } : File).writeAtOffset buf).run World.exec w := by
  simp [Transfer.run, File.write, hwrite, happend, Concurrent.Prog.run_call, World.exec, hm]

/-- A write that appends keeps the rule unless it fails with the offset already moved. -/
theorem quiet_append_iff (hwrite : f.flags.write = true) (happend : f.flags.append = true) (buf : List UInt8) :
    Quiet w f (.write buf) ↔ ∀ m, RamFs.metadata (w.disk f.fs) f.inode = .ok m → m.size = f.offset ∨
      ∃ data, (w.disk f.fs).content f.inode = some data ∧ data.length + buf.length < 2 ^ 64 := by
  cases hm : RamFs.metadata (w.disk f.fs) f.inode with
  | error e =>
    rw [quiet_iff_of_error (run_write_gone hwrite happend hm buf)]
    simp
  | ok m =>
    have hrun := (run_write_append hwrite happend hm buf).trans (run_writeAtOffset w { f with offset := m.size } buf)
    have hfail : ∀ {e}, RamFs.write (w.disk f.fs) f.inode m.size buf = (.error e, w.disk f.fs) →
        (Quiet w f (.write buf) ↔ e = .panic ∨ m.size = f.offset) := by
      intro e he
      have herror : (({ f with offset := m.size } : File).writeAtOffset buf).run World.exec w = _ := run_writeAtOffset_error he
      exact quiet_iff_of_error ((run_write_append hwrite happend hm buf).trans herror)
    cases hdata : (w.disk f.fs).content f.inode with
    | none =>
      obtain ⟨e, he, hpanic⟩ := RamFs.write_of_content_eq_none hdata m.size buf
      rw [hfail he]
      simp [hpanic]
    | some data =>
      obtain ⟨m', hm', hsize⟩ := RamFs.metadata_size hdata
      obtain rfl := Except.ok.inj (hm.symm.trans hm')
      rw [hsize] at hrun hfail
      by_cases hlt : data.length + buf.length < 2 ^ 64
      · -- the write succeeds, and an empty one stores nothing; or it panics
        refine iff_of_true ?_ fun m' hm' => .inr ⟨data, rfl, hlt⟩
        cases hwritten : RamFs.writeAt data data.length buf with
        | none => exact (hfail (RamFs.write_panic hdata hlt hwritten)).mpr (.inl rfl)
        | some data' =>
          obtain ⟨s, hs, -, hsame⟩ := RamFs.write_file hdata hlt hwritten
          rw [hs] at hrun
          refine (quiet_iff_of_ok hrun).mpr ?_
          intro hzero
          obtain rfl := List.eq_nil_of_length_eq_zero hzero
          rw [hsame (by rw [RamFs.writeAt_length hwritten, List.append_nil]), World.setDisk_self]
      · rw [hfail (RamFs.write_full hdata hlt)]
        constructor
        · rintro (⟨⟨⟩⟩ | heq) _ ⟨⟩
          exact .inl (hsize.trans heq)
        · intro h
          rcases h m rfl with heq | ⟨_, ⟨⟩, hfits⟩
          · exact .inr (hsize.symm.trans heq)
          · exact absurd hfits hlt

/-- Another write keeps the rule unless it is an empty one past the end of a regular file. -/
theorem quiet_write_iff (hwrite : f.flags.write = true) (happend : f.flags.append = false) (hoffset : f.offset < 2 ^ 64)
    (buf : List UInt8) :
    Quiet w f (.write buf) ↔
      (buf = [] → ∀ data, (w.disk f.fs).content f.inode = some data → f.offset ≤ data.length ∨ RamFs.isizeMax < f.offset) := by
  have hrun := (run_write_plain hwrite happend buf).trans (run_writeAtOffset w f buf)
  have hfail : ∀ {e}, RamFs.write (w.disk f.fs) f.inode f.offset buf = (.error e, w.disk f.fs) → Quiet w f (.write buf) := by
    intro e he
    exact (quiet_iff_of_error ((run_write_plain hwrite happend buf).trans (run_writeAtOffset_error he))).mpr (.inr rfl)
  cases hdata : (w.disk f.fs).content f.inode with
  | none =>
    obtain ⟨e, he, -⟩ := RamFs.write_of_content_eq_none hdata f.offset buf
    simp [hfail he]
  | some data =>
    by_cases hlt : f.offset + buf.length < 2 ^ 64
    · cases hwritten : RamFs.writeAt data f.offset buf with
      | none =>
        refine iff_of_true (hfail (RamFs.write_panic hdata hlt hwritten)) ?_
        rintro rfl _ ⟨⟩
        exact .inr (RamFs.writeAt_eq_none_iff.mp hwritten).2
      | some data' =>
        obtain ⟨s, hs, hcontent, hsame⟩ := RamFs.write_file hdata hlt hwritten
        rw [hs] at hrun
        rw [quiet_iff_of_ok hrun]
        constructor
        · rintro hzero rfl _ ⟨⟩
          -- an unchanged filesystem holds a file of the same length
          have hdisk := congrArg (fun v => (v.disk f.fs).content f.inode) (hzero rfl)
          simp only [World.disk_setDisk, hcontent, hdata, Option.some.injEq] at hdisk
          have hlength := RamFs.length_writeAt hwritten
          rw [hdisk] at hlength
          exact .inl (by simpa using hlength)
        · intro hwithin hzero
          obtain rfl := List.eq_nil_of_length_eq_zero hzero
          have hle : f.offset ≤ data.length := by
            by_contra hpast
            have hfits := mt RamFs.writeAt_eq_none_iff.mpr (by rw [hwritten]; simp)
            rcases hwithin rfl data rfl with hle | hlong
            · exact hpast hle
            · exact hfits ⟨by simpa using hpast, hlong⟩
          rw [RamFs.writeAt_nil, if_neg (by omega)] at hwritten
          rw [hsame (Option.some.inj hwritten).symm, World.setDisk_self]
    · refine iff_of_true (hfail (RamFs.write_full hdata hlt)) ?_
      rintro rfl
      simp at hlt
      omega

end File

/-- A call on a handle, with any flags and any offset, on any inode of any table, keeps the rule exactly if it is harmless. -/
theorem transfers_nothing_iff (w : World) (f : File) (hoffset : f.offset < 2 ^ 64) (c : File.Transfer) :
    File.Quiet w f c ↔ File.Harmless w f c := by
  cases c with
  | read buf => exact iff_of_true (File.quiet_read w f buf) trivial
  | write buf =>
    unfold File.Harmless
    cases hwrite : f.flags.write with
    | false =>
      rw [File.quiet_iff_of_error (File.run_write_denied hwrite buf)]
      simp
    | true =>
      cases happend : f.flags.append with
      | true => simpa using File.quiet_append_iff hwrite happend buf
      | false => simpa using File.quiet_write_iff hwrite happend hoffset buf

/-- One filesystem at the root, where `open` creates a file for writing. -/
def World.openNew : Option (FsResult File × World) :=
  ({ World.new with vfs := ⟨[⟨"/", 0⟩]⟩ } : World).run (Vfs.open "/f" ⟨false, true, false, true, false, false⟩)

/-- The handle of an empty file seeks past its end and writes nothing. No byte is transferred, and the file is longer. -/
theorem empty_write_extends : ∃ w f f' w', World.openNew = some (.ok f, w) ∧
    (f.seek (.start 1)).run World.exec w = some ((.ok 1, f'), w) ∧
      (File.Transfer.write []).run w f' = some ((.ok 0, f'), w') ∧ (w.disk 0).content 2 = some [] ∧
        (w'.disk 0).content 2 = some [0] ∧ ¬File.Quiet w f' (.write []) := by
  have hopen : World.openNew = some (.ok ⟨0, 2, 0, ⟨false, true, false, true, false, false⟩⟩, (World.openNew.get rfl).2) := rfl
  refine ⟨_, _, ⟨0, 2, 1, ⟨false, true, false, true, false, false⟩⟩, _, hopen, rfl, rfl, rfl, rfl, ?_⟩
  rintro ⟨r, f'', w'', hrun, hsame, -⟩
  obtain ⟨hr, hw⟩ := Prod.mk.inj (Option.some.inj hrun)
  have hcontent := congrArg (fun v : World => (v.disk 0).content 2) (hw.trans (hsame (.inr (Prod.mk.inj hr).1.symm)))
  cases hcontent

/-- The same write where the handle stands when it is opened. -/
theorem transfers_nothing_iff_start : ∃ w f, World.openNew = some (.ok f, w) ∧ File.Quiet w f (.write []) := by
  have hopen : World.openNew = some (.ok ⟨0, 2, 0, ⟨false, true, false, true, false, false⟩⟩, (World.openNew.get rfl).2) := rfl
  refine ⟨_, _, hopen, (transfers_nothing_iff _ _ (by decide) (.write [])).mpr ?_⟩
  rintro - - data -
  exact .inl (Nat.zero_le _)

end Fs

end GolemKernel
