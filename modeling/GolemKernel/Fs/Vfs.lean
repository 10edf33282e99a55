import GolemKernel.Fs.RamFs
import GolemKernel.Lib.Concurrent
import GolemKernel.Text

/-!
# The virtual filesystem

`src/fs/vfs.rs` over `RamFs` mounts. `mount` and `unmount` hold the lock of the mount table for their whole body. The other operations
make several calls, each of which takes a lock for itself: one access to the mount table and then calls to the methods of a filesystem.
So they are programs over those calls (`Call`), written as the source has them; what a call does to the mount table and the filesystems
is `World.exec`, and `World.run` runs an operation that nobody interferes with.

An `Arc<dyn FileSystem>` is the number of the filesystem it points to. `root_inode` is a constant, not a call.
-/

namespace GolemKernel

namespace Fs

open Text

structure OpenFlags where
  read : Bool
  write : Bool
  append : Bool
  create : Bool
  truncate : Bool
  exclusive : Bool
  deriving DecidableEq, Repr

/-- Which filesystem an `Arc` points to. -/
abbrev FsId := Nat

structure MountEntry where
  path : Text
  fs : FsId
  deriving DecidableEq, Repr

structure Vfs where
  mounts : List MountEntry
  deriving DecidableEq, Repr

def normalizeMountPath (p : Text) : Text := if p = "/" then "/" else p.trimEndMatches '/'

/-- `path_starts_with_mount`. `none`: the slice panics. -/
def pathStartsWithMount (path mount : Text) : Option Bool :=
  if mount = "/" then some true
  else if !mount.isPrefixOf path then some false
  else (path.sliceFrom mount.len).map fun after => after.isEmpty || after.startsWith '/'

def splitParent (path : Text) : FsResult (Text × Text) :=
  if !path.startsWith '/' then .error .invalidPath
  else
    let trimmed := path.trimEndMatches '/'
    if trimmed.isEmpty then .error .invalidPath
    else
      match trimmed.rsplitOnce '/' with
      | some (parent, name) =>
        if name.isEmpty then .error .invalidPath else .ok (if parent.isEmpty then "/" else parent, name)
      | none => .error .invalidPath

/-- `Iterator::max_by_key`: of several greatest elements the last. -/
def maxByKey {α : Type} (key : α → Nat) : List α → Option α
  | [] => none
  | a :: l => some (l.foldl (fun best x => if key best ≤ key x then x else best) a)

namespace Vfs

def new : Vfs := ⟨[]⟩

def mount (v : Vfs) (mountPoint : Text) (fs : FsId) : FsResult Unit × Vfs :=
  if !mountPoint.startsWith '/' then (.error .invalidPath, v)
  else
    let normalized := normalizeMountPath mountPoint
    if v.mounts.any (·.path = normalized) then (.error .alreadyExists, v)
    else (.ok (), ⟨v.mounts ++ [⟨normalized, fs⟩]⟩)

def unmount (v : Vfs) (mountPoint : Text) : FsResult Unit × Vfs :=
  let normalized := normalizeMountPath mountPoint
  match v.mounts.findIdx? (·.path = normalized) with
  | none => (.error .notFound, v)
  | some pos => (.ok (), ⟨v.mounts.eraseIdx pos⟩)

/-- The calls that change the mount table. -/
inductive MountCall where
  | mount (mountPoint : Text) (fs : FsId)
  | unmount (mountPoint : Text)
  deriving DecidableEq, Repr

def MountCall.mountPoint : MountCall → Text
  | mount mountPoint _ | unmount mountPoint => mountPoint

/-- The mount table after a call, successful or failing. -/
def apply (v : Vfs) : MountCall → Vfs
  | .mount mountPoint fs => (v.mount mountPoint fs).2
  | .unmount mountPoint => (v.unmount mountPoint).2

/-- The mount table after a sequence of calls. -/
def after (calls : List MountCall) : Vfs := calls.foldl apply new

/-- The mounts that the filter in `resolve` lets through. -/
def candidates (path : Text) : List MountEntry → Option (List MountEntry)
  | [] => some []
  | m :: mounts => do
    let matched ← pathStartsWithMount path m.path
    let rest ← candidates path mounts
    return if matched then m :: rest else rest

/-- The access to the mount table in `resolve`: the filesystem to walk, and the rest of the path. `none`: a slice panics. -/
def select (v : Vfs) (path : Text) : Option (FsResult (FsId × Text)) := do
  match maxByKey (·.path.len) (← candidates path v.mounts) with
  | none => return .error .notFound
  | some entry =>
    let stripped ← if entry.path = "/" then path.sliceFrom 1 else path.sliceFrom entry.path.len
    return .ok (entry.fs, stripped.trimStartMatches '/')

end Vfs

/-! ## Calls -/

/-- The calls an operation of the `Vfs` or of a `File` makes, each under one lock. -/
inductive Call where
  | select (path : Text)
  | lookup (fs : FsId) (parent : InodeNum) (name : String)
  | create (fs : FsId) (parent : InodeNum) (name : String) (fileType : FileType) (mode : Mode)
  | unlink (fs : FsId) (parent : InodeNum) (name : String)
  | rmdir (fs : FsId) (parent : InodeNum) (name : String)
  | rename (fs : FsId) (oldParent : InodeNum) (oldName : String) (newParent : InodeNum) (newName : String)
  | metadata (fs : FsId) (inode : InodeNum)
  | readdir (fs : FsId) (inode : InodeNum)
  | read (fs : FsId) (inode : InodeNum) (offset : Nat) (buf : List UInt8)
  | write (fs : FsId) (inode : InodeNum) (offset : Nat) (buf : List UInt8)
  | truncate (fs : FsId) (inode : InodeNum) (size : Nat)
  deriving DecidableEq, Repr

/-- What a call returns when it succeeds. -/
@[reducible] def Call.Value : Call → Type
  | .select _ => FsId × Text
  | .lookup .. | .create .. => InodeNum
  | .unlink .. | .rmdir .. | .rename .. | .truncate .. => Unit
  | .metadata .. => Metadata
  | .readdir .. => List DirEntry
  | .read .. => Nat × List UInt8
  | .write .. => Nat

abbrev Call.Answer (c : Call) : Type := FsResult c.Value

/-- The operations of the virtual filesystem: programs over the calls, with `?` on errors. -/
abbrev VfsM (α : Type) : Type := ExceptT FsError (Concurrent.Prog Call Call.Answer) α

/-- Make a call, and go on if it succeeds. -/
def Call.make (c : Call) : VfsM c.Value := ExceptT.mk (.call c .ret)

/-- `?` on a result that takes no call. -/
def ofResult {α : Type} (r : FsResult α) : VfsM α := ExceptT.mk (pure r)

/-! The methods of a mounted filesystem. -/
namespace FileSystem

def lookup (fs : FsId) (parent : InodeNum) (name : String) : VfsM InodeNum := (Call.lookup fs parent name).make

def create (fs : FsId) (parent : InodeNum) (name : String) (fileType : FileType) (mode : Mode) : VfsM InodeNum :=
  (Call.create fs parent name fileType mode).make

def unlink (fs : FsId) (parent : InodeNum) (name : String) : VfsM Unit := (Call.unlink fs parent name).make

def rmdir (fs : FsId) (parent : InodeNum) (name : String) : VfsM Unit := (Call.rmdir fs parent name).make

def rename (fs : FsId) (oldParent : InodeNum) (oldName : String) (newParent : InodeNum) (newName : String) : VfsM Unit :=
  (Call.rename fs oldParent oldName newParent newName).make

def metadata (fs : FsId) (inode : InodeNum) : VfsM Metadata := (Call.metadata fs inode).make

def readdir (fs : FsId) (inode : InodeNum) : VfsM (List DirEntry) := (Call.readdir fs inode).make

def read (fs : FsId) (inode : InodeNum) (offset : Nat) (buf : List UInt8) : VfsM (Nat × List UInt8) :=
  (Call.read fs inode offset buf).make

def write (fs : FsId) (inode : InodeNum) (offset : Nat) (buf : List UInt8) : VfsM Nat := (Call.write fs inode offset buf).make

def truncate (fs : FsId) (inode : InodeNum) (size : Nat) : VfsM Unit := (Call.truncate fs inode size).make

end FileSystem

structure File where
  fs : FsId
  inode : InodeNum
  offset : Nat
  flags : OpenFlags
  deriving DecidableEq, Repr

inductive SeekFrom where
  | start (offset : Nat)
  | «end» (distance : Int)
  | current (distance : Int)
  deriving DecidableEq, Repr

namespace Vfs

def selectMount (path : Text) : VfsM (FsId × Text) := (Call.select path).make

/-- The loop of `resolve` over the components of the path. -/
def walk (fs : FsId) (current : InodeNum) : List Text → VfsM InodeNum
  | [] => pure current
  | component :: rest =>
    if component.isEmpty || component = "." then walk fs current rest
    else do
      let next ← FileSystem.lookup fs current (String.ofList component)
      walk fs next rest

def resolve (path : Text) : VfsM (FsId × InodeNum) :=
  if !path.startsWith '/' then throw .invalidPath
  else do
    let (fs, rel) ← selectMount path
    let inode ← walk fs rootInode (rel.split '/')
    return (fs, inode)

/-- What `open` does with what `resolve` returned: it takes what was found, or creates the file. -/
def found (path : Text) (flags : OpenFlags) : FsResult (FsId × InodeNum) → VfsM (FsId × InodeNum)
  | .ok found => if flags.exclusive && flags.create then throw .alreadyExists else return found
  | .error .notFound =>
    if flags.create then do
      let (parentPath, name) ← ofResult (splitParent path)
      let (fs, parentInode) ← resolve parentPath
      let inode ← FileSystem.create fs parentInode (String.ofList name) .regular 0o644
      return (fs, inode)
    else throw .notFound
  | .error e => throw e

/-- The end of `open`: the file is truncated, and the offset of a handle that appends is the size. -/
def handle (flags : OpenFlags) (fs : FsId) (inode : InodeNum) : VfsM File := do
  let _ ← if flags.truncate && flags.write then FileSystem.truncate fs inode 0 else pure ()
  let initialOffset ← if flags.append then (·.size) <$> FileSystem.metadata fs inode else pure 0
  return ⟨fs, inode, initialOffset, flags⟩

def «open» (path : Text) (flags : OpenFlags) : VfsM File := do
  let (fs, inode) ← ExceptT.mk ((resolve path).run >>= fun r => (found path flags r).run)
  handle flags fs inode

/-- The directory that holds the last component of a path, and that component: what the operations on names begin with. -/
def parentOf (path : Text) : VfsM (FsId × InodeNum × String) := do
  let (parentPath, name) ← ofResult (splitParent path)
  let (fs, parentInode) ← resolve parentPath
  return (fs, parentInode, String.ofList name)

def mkdir (path : Text) (mode : Mode) : VfsM Unit := do
  let (fs, parentInode, name) ← parentOf path
  let _ ← FileSystem.create fs parentInode name .directory mode

def unlink (path : Text) : VfsM Unit := do
  let (fs, parentInode, name) ← parentOf path
  FileSystem.unlink fs parentInode name

def rmdir (path : Text) : VfsM Unit := do
  let (fs, parentInode, name) ← parentOf path
  FileSystem.rmdir fs parentInode name

def metadata (path : Text) : VfsM Metadata := do
  let (fs, inode) ← resolve path
  FileSystem.metadata fs inode

def readdir (path : Text) : VfsM (List DirEntry) := do
  let (fs, inode) ← resolve path
  FileSystem.readdir fs inode

def rename (src dst : Text) : VfsM Unit := do
  let (fromParentPath, fromName) ← ofResult (splitParent src)
  let (toParentPath, toName) ← ofResult (splitParent dst)
  let (fromFs, fromParent) ← resolve fromParentPath
  let (toFs, toParent) ← resolve toParentPath
  if fromFs ≠ toFs then throw .crossDevice
  else FileSystem.rename fromFs fromParent (String.ofList fromName) toParent (String.ofList toName)

end Vfs

namespace File

/-- The write of `File::write` at the offset of the handle, and the handle after it. -/
def writeAtOffset (f : File) (buf : List UInt8) : Concurrent.Prog Call Call.Answer (FsResult Nat × File) :=
  .call (.write f.fs f.inode f.offset buf) fun
    | .ok n => .ret (.ok n, { f with offset := (f.offset + n) % 2 ^ 64 })
    | .error e => .ret (.error e, f)

/-- `write` holds the lock of the offset for its whole body, so it takes the handle and gives it back. -/
def write (f : File) (buf : List UInt8) : Concurrent.Prog Call Call.Answer (FsResult Nat × File) :=
  if !f.flags.write then .ret (.error .permissionDenied, f)
  else if f.flags.append then
    .call (.metadata f.fs f.inode) fun
      | .ok metadata => writeAtOffset { f with offset := metadata.size } buf
      | .error e => .ret (.error e, f)
  else writeAtOffset f buf

/-- `read` returns the number of bytes read and the buffer after the call. It holds the lock of the offset as `write` does. -/
def read (f : File) (buf : List UInt8) : Concurrent.Prog Call Call.Answer (FsResult (Nat × List UInt8) × File) :=
  if !f.flags.read then .ret (.error .permissionDenied, f)
  else
    .call (.read f.fs f.inode f.offset buf) fun
      | .ok (n, out) => .ret (.ok (n, out), { f with offset := (f.offset + n) % 2 ^ 64 })
      | .error e => .ret (.error e, f)

/-- The end of `seek`: the position as an `i128`, refused when negative and then cut to a `u64`. -/
def seekTo (f : File) (n : Int) : FsResult Nat × File :=
  if n < 0 then (.error .invalidOffset, f) else (.ok (n.toNat % 2 ^ 64), { f with offset := n.toNat % 2 ^ 64 })

def seek (f : File) : SeekFrom → Concurrent.Prog Call Call.Answer (FsResult Nat × File)
  | .start p => .ret (.ok p, { f with offset := p })
  | .end d =>
    .call (.metadata f.fs f.inode) fun
      | .ok metadata => .ret (f.seekTo (metadata.size + d))
      | .error e => .ret (.error e, f)
  | .current d => .ret (f.seekTo (f.offset + d))

def readAt (f : File) (offset : Nat) (buf : List UInt8) : VfsM (Nat × List UInt8) :=
  if !f.flags.read then throw .permissionDenied else FileSystem.read f.fs f.inode offset buf

def writeAt (f : File) (offset : Nat) (buf : List UInt8) : VfsM Nat :=
  if !f.flags.write then throw .permissionDenied else FileSystem.write f.fs f.inode offset buf

def metadata (f : File) : VfsM Metadata := FileSystem.metadata f.fs f.inode

def truncate (f : File) (size : Nat) : VfsM Unit :=
  if !f.flags.write then throw .permissionDenied else FileSystem.truncate f.fs f.inode size

end File

/-! ## What the calls do -/

/-- The mount table and every filesystem. -/
structure World where
  vfs : Vfs
  disk : FsId → Inner

namespace World

/-- A filesystem after a call. -/
def setDisk (w : World) (fs : FsId) (s : Inner) : World := { w with disk := Function.update w.disk fs s }

/-- One call. `none`: the access to the mount table panics, or a rename does not end. -/
def exec : (c : Call) → World → Option (c.Answer × World)
  | .select path, w => (w.vfs.select path).map (·, w)
  | .lookup fs parent name, w => some (RamFs.lookup (w.disk fs) parent name, w)
  | .create fs parent name fileType mode, w =>
    let (r, s) := RamFs.create (w.disk fs) parent name fileType mode
    some (r, w.setDisk fs s)
  | .unlink fs parent name, w =>
    let (r, s) := RamFs.unlink (w.disk fs) parent name
    some (r, w.setDisk fs s)
  | .rmdir fs parent name, w =>
    let (r, s) := RamFs.rmdir (w.disk fs) parent name
    some (r, w.setDisk fs s)
  | .rename fs oldParent oldName newParent newName, w =>
    (RamFs.rename (w.disk fs) oldParent oldName newParent newName).map fun (r, s) => (r, w.setDisk fs s)
  | .metadata fs inode, w => some (RamFs.metadata (w.disk fs) inode, w)
  | .readdir fs inode, w => some (RamFs.readdir (w.disk fs) inode, w)
  | .read fs inode offset buf, w => some (RamFs.read (w.disk fs) inode offset buf, w)
  | .write fs inode offset buf, w =>
    let (r, s) := RamFs.write (w.disk fs) inode offset buf
    some (r, w.setDisk fs s)
  | .truncate fs inode size, w =>
    let (r, s) := RamFs.truncate (w.disk fs) inode size
    some (r, w.setDisk fs s)

/-- An operation that nobody interferes with. -/
def run {α : Type} (w : World) (x : VfsM α) : Option (FsResult α × World) := Concurrent.Prog.run exec x.run w

/-- What `resolve` returns. -/
def resolve (w : World) (path : Text) : Option (FsResult (FsId × InodeNum)) := (w.run (Vfs.resolve path)).map (·.1)

/-- No mount, and every filesystem new. -/
def new : World := ⟨Vfs.new, fun _ => RamFs.new⟩

end World

/-! ## Runs of the whole layer -/

/-- The operations that can change something: the calls of a `RamFs`, made directly, and the operations of the `Vfs`. -/
inductive SysOp where
  | ramfs (fs : FsId) (op : Op)
  | mount (mountPoint : Text) (fs : FsId)
  | unmount (mountPoint : Text)
  | «open» (path : Text) (flags : OpenFlags)
  | mkdir (path : Text) (mode : Mode)
  | unlink (path : Text)
  | rmdir (path : Text)
  | rename (src dst : Text)

/-- One operation that nobody interferes with: whether it succeeds, and the mount table and the filesystems after it. `none`: it panics, or
does not return. -/
def SysOp.run (w : World) : SysOp → Option (FsResult Unit × World)
  | .ramfs fs op => (op.run (w.disk fs)).map fun (r, s) => (r, w.setDisk fs s)
  | .mount mountPoint fs =>
    let (r, v) := w.vfs.mount mountPoint fs
    some (r, { w with vfs := v })
  | .unmount mountPoint =>
    let (r, v) := w.vfs.unmount mountPoint
    some (r, { w with vfs := v })
  | .open path flags => (w.run (Vfs.open path flags)).map fun (r, w') => (r.map fun _ => (), w')
  | .mkdir path mode => w.run (Vfs.mkdir path mode)
  | .unlink path => w.run (Vfs.unlink path)
  | .rmdir path => w.run (Vfs.rmdir path)
  | .rename src dst => w.run (Vfs.rename src dst)

/-- What a sequence of operations leaves, successful or failing. -/
def World.runSys (w : World) : List SysOp → Option World
  | [] => some w
  | op :: ops => (op.run w).bind fun r => r.2.runSys ops

end Fs

end GolemKernel
