import GolemKernel.Basic

/-!
# RamFs: the in-memory bootstrap filesystem

`src/fs/ramfs.rs` over the types of `src/fs/vfs.rs`. A filesystem is its inode table and the next inode number (`Inner`); every
method takes the lock of the table for its whole body, so a method is a function from the table to a result and a table. The
maps are ordered maps, as `BTreeMap` is. A file's bytes are a list; memory is not modelled as a bounded resource, so an
allocation fails only where a vector refuses it: above `isize::MAX` bytes (`resize`). Then the call panics, before it has
changed the table, and the kernel halts. Runs of calls go on after a panic here, which the kernel does not: they include all
runs the kernel makes.

Methods that only read return a result. Methods that write return the result and the table after the call. `rename` walks the
parent pointers in a loop without a bound of its own, so it returns `none` when that loop does not end.
-/

namespace GolemKernel

namespace Fs

/-- Inode numbers are `u64`, local to one filesystem. -/
abbrev InodeNum := Nat

abbrev Mode := Nat

inductive FileType where
  | regular | directory | symlink | charDevice | blockDevice | fifo | socket
  deriving DecidableEq, Repr

structure Metadata where
  inode : InodeNum
  fileType : FileType
  size : Nat
  mode : Mode
  uid : Nat
  gid : Nat
  nlink : Nat
  atime : Nat
  mtime : Nat
  ctime : Nat
  deriving DecidableEq, Repr

structure DirEntry where
  name : String
  inode : InodeNum
  fileType : FileType
  deriving DecidableEq, Repr

/-- The errors of the source, and `panic`, which is none of them: the call panics. No caller catches either, so a panic ends an
operation on the way an error does. -/
inductive FsError where
  | notFound | alreadyExists | notADirectory | isADirectory | notEmpty | invalidPath | invalidArgument | invalidOffset
  | permissionDenied | noSpace | readOnly | io | unsupported | badDescriptor | crossDevice
  | panic
  deriving DecidableEq, Repr

abbrev FsResult (α : Type) : Type := Except FsError α

/-- The root inode number. -/
def rootInode : InodeNum := 1

inductive NodeKind where
  | file (data : List UInt8)
  | directory (entries : BTreeMap String InodeNum)
  | symlink (target : String)

namespace NodeKind

def fileType : NodeKind → FileType
  | file _ => .regular
  | directory _ => .directory
  | symlink _ => .symlink

/-- `matches!(kind, NodeKind::Directory(_))`. -/
def isDirectory : NodeKind → Bool
  | directory _ => true
  | _ => false

/-- The entries of a directory. -/
def entries? : NodeKind → Option (BTreeMap String InodeNum)
  | directory entries => some entries
  | _ => none

/-- `if let NodeKind::Directory(entries) = &mut kind`, with what is done to the entries. -/
def mapEntries (f : BTreeMap String InodeNum → BTreeMap String InodeNum) : NodeKind → NodeKind
  | directory entries => directory (f entries)
  | kind => kind

end NodeKind

structure Node where
  parent : InodeNum
  kind : NodeKind
  mode : Mode
  uid : Nat
  gid : Nat
  atime : Nat
  mtime : Nat
  ctime : Nat

/-- The state under the lock of a `RamFs`: the inode table and the next inode number. -/
structure Inner where
  nodes : BTreeMap InodeNum Node
  nextInode : InodeNum

/-- `RamFs::new`: a root directory and nothing else. -/
def RamFs.new : Inner where
  nodes := (∅ : BTreeMap InodeNum Node).insert rootInode
    { parent := rootInode, kind := .directory ∅, mode := 0o755, uid := 0, gid := 0, atime := 0, mtime := 0, ctime := 0 }
  nextInode := rootInode + 1

/-- The names `validate_name` rejects: empty, `.`, `..`, and those with a `/`. -/
def validateName (name : String) : FsResult Unit :=
  if name = "" ∨ name = "." ∨ name = ".." ∨ '/' ∈ name.toList then .error .invalidArgument else .ok ()

namespace Inner

/-- `matches!(nodes.get(&inode).map(|n| &n.kind), Some(NodeKind::Directory(_)))`. -/
def isDir (s : Inner) (inode : InodeNum) : Bool := (s.nodes[inode]?.map (·.kind.isDirectory)).getD false

/-- `nodes.get_mut(&inode)` and, when it is a directory, what is done to its entries. -/
def modifyEntries (s : Inner) (inode : InodeNum) (f : BTreeMap String InodeNum → BTreeMap String InodeNum) : Inner :=
  { s with nodes := s.nodes.modify inode fun n => { n with kind := n.kind.mapEntries f } }

/-- `nodes.remove(&inode)`. -/
def removeNode (s : Inner) (inode : InodeNum) : Inner := { s with nodes := s.nodes.erase inode }

end Inner

namespace RamFs

def metadata (s : Inner) (inode : InodeNum) : FsResult Metadata :=
  match s.nodes[inode]? with
  | none => .error .notFound
  | some node =>
    let size := match node.kind with
      | .file b => b.length
      | .directory d => d.size
      | .symlink t => t.utf8ByteSize
    let nlink := match node.kind with
      | .directory d => (2 + (d.values.filter fun i => s.isDir i).length % 2 ^ 32) % 2 ^ 32
      | _ => 1
    .ok { inode, fileType := node.kind.fileType, size, mode := node.mode, uid := node.uid, gid := node.gid, nlink,
          atime := node.atime, mtime := node.mtime, ctime := node.ctime }

def lookup (s : Inner) (parent : InodeNum) (name : String) : FsResult InodeNum :=
  match s.nodes[parent]? with
  | none => .error .notFound
  | some node =>
    match node.kind with
    | .directory entries =>
      if name = "." then .ok parent
      else if name = ".." then .ok node.parent
      else match entries[name]? with
        | some i => .ok i
        | none => .error .notFound
    | _ => .error .notADirectory

def readdir (s : Inner) (inode : InodeNum) : FsResult (List DirEntry) :=
  match s.nodes[inode]? with
  | none => .error .notFound
  | some node =>
    match node.kind with
    | .directory entries =>
      .ok ({ name := ".", inode, fileType := .directory } :: { name := "..", inode := node.parent, fileType := .directory } ::
        entries.toList.map fun e =>
          { name := e.1, inode := e.2, fileType := (s.nodes[e.2]?.map (·.kind.fileType)).getD .regular })
    | _ => .error .notADirectory

/-- `read` returns the number of bytes read and the buffer after the call. -/
def read (s : Inner) (inode : InodeNum) (offset : Nat) (buf : List UInt8) : FsResult (Nat × List UInt8) :=
  match s.nodes[inode]? with
  | none => .error .notFound
  | some node =>
    match node.kind with
    | .file data =>
      if data.length ≤ offset then .ok (0, buf)
      else
        let n := min buf.length (data.length - offset)
        .ok (n, (data.drop offset).take n ++ buf.drop n)
    | .directory _ => .error .isADirectory
    | .symlink _ => .error .invalidArgument

/-- `isize::MAX`, the most bytes a vector can hold. -/
def isizeMax : Nat := 2 ^ 63 - 1

/-- `Vec::resize(len, 0)`, of a vector that reserves no more than it needs. `none`: it panics. -/
def resize (data : List UInt8) (len : Nat) : Option (List UInt8) :=
  if len ≤ isizeMax then some (data.take len ++ List.replicate (len - data.length) 0) else none

/-- The bytes of a file after `buf` is written at `offset`: zero-extended up to the end of the write if it lies past the end of
the file, then overwritten. `none`: it panics. -/
def writeAt (data : List UInt8) (offset : Nat) (buf : List UInt8) : Option (List UInt8) :=
  let stop := offset + buf.length
  (if data.length < stop then resize data stop else some data).map fun data => data.take offset ++ buf ++ data.drop stop

/-- What `write` and `truncate` leave: the new bytes in the file, or after a panic the table as it was. -/
def storeFile {α : Type} (s : Inner) (inode : InodeNum) (node : Node) (answer : α) : Option (List UInt8) → FsResult α × Inner
  | some data => (.ok answer, { s with nodes := s.nodes.insert inode { node with kind := .file data } })
  | none => (.error .panic, s)

def write (s : Inner) (inode : InodeNum) (offset : Nat) (buf : List UInt8) : FsResult Nat × Inner :=
  match s.nodes[inode]? with
  | none => (.error .notFound, s)
  | some node =>
    match node.kind with
    | .file data =>
      if offset + buf.length < 2 ^ 64 then storeFile s inode node buf.length (writeAt data offset buf)
      else (.error .noSpace, s)
    | .directory _ => (.error .isADirectory, s)
    | .symlink _ => (.error .invalidArgument, s)

def truncate (s : Inner) (inode : InodeNum) (size : Nat) : FsResult Unit × Inner :=
  match s.nodes[inode]? with
  | none => (.error .notFound, s)
  | some node =>
    match node.kind with
    | .file data => storeFile s inode node () (resize data size)
    | .directory _ => (.error .isADirectory, s)
    | .symlink _ => (.error .invalidArgument, s)

def readlink (s : Inner) (inode : InodeNum) : FsResult String :=
  match s.nodes[inode]? with
  | none => .error .notFound
  | some node =>
    match node.kind with
    | .symlink target => .ok target
    | _ => .error .invalidArgument

/-- The check `create` and `symlink` begin with: the parent exists, is a directory, and does not hold the name. -/
def checkVacant (s : Inner) (parent : InodeNum) (name : String) : FsResult Unit :=
  match s.nodes[parent]? with
  | none => .error .notFound
  | some p =>
    match p.kind with
    | .directory entries => if name ∈ entries then .error .alreadyExists else .ok ()
    | _ => .error .notADirectory

/-- What `create` and `symlink` end with: take the next inode number, insert the node, and enter it in its parent. -/
def addNode (s : Inner) (parent : InodeNum) (name : String) (kind : NodeKind) (mode : Mode) : FsResult InodeNum × Inner :=
  let inum := s.nextInode
  if inum + 1 < 2 ^ 64 then
    let node : Node := { parent, kind, mode, uid := 0, gid := 0, atime := 0, mtime := 0, ctime := 0 }
    let s : Inner := { nodes := s.nodes.insert inum node, nextInode := inum + 1 }
    (.ok inum, s.modifyEntries parent (·.insert name inum))
  else (.error .noSpace, s)

/-- The node a `create` of this type makes: ramfs hosts no device, fifo or socket nodes. -/
def newKind : FileType → FsResult NodeKind
  | .regular => .ok (.file [])
  | .directory => .ok (.directory ∅)
  | .symlink => .ok (.symlink "")
  | _ => .error .unsupported

def create (s : Inner) (parent : InodeNum) (name : String) (fileType : FileType) (mode : Mode) :
    FsResult InodeNum × Inner :=
  match validateName name with
  | .error e => (.error e, s)
  | .ok () =>
    match checkVacant s parent name with
    | .error e => (.error e, s)
    | .ok () =>
      match newKind fileType with
      | .error e => (.error e, s)
      | .ok kind => addNode s parent name kind mode

def symlink (s : Inner) (parent : InodeNum) (name : String) (target : String) : FsResult InodeNum × Inner :=
  match validateName name with
  | .error e => (.error e, s)
  | .ok () =>
    match checkVacant s parent name with
    | .error e => (.error e, s)
    | .ok () => addNode s parent name (.symlink target) 0o777

/-- The lookup `unlink`, `rmdir` and `rename` begin with: the inode number the parent holds under the name. -/
def childOf (s : Inner) (parent : InodeNum) (name : String) : FsResult InodeNum :=
  match s.nodes[parent]? with
  | none => .error .notFound
  | some p =>
    match p.kind with
    | .directory entries =>
      match entries[name]? with
      | some i => .ok i
      | none => .error .notFound
    | _ => .error .notADirectory

def unlink (s : Inner) (parent : InodeNum) (name : String) : FsResult Unit × Inner :=
  match childOf s parent name with
  | .error e => (.error e, s)
  | .ok inum =>
    match s.nodes[inum]? with
    | none => (.error .notFound, s)
    | some target =>
      if target.kind.isDirectory then (.error .isADirectory, s)
      else (.ok (), (s.modifyEntries parent (·.erase name)).removeNode inum)

def rmdir (s : Inner) (parent : InodeNum) (name : String) : FsResult Unit × Inner :=
  match childOf s parent name with
  | .error e => (.error e, s)
  | .ok inum =>
    match s.nodes[inum]? with
    | none => (.error .notFound, s)
    | some target =>
      match target.kind with
      | .directory entries =>
        if entries.isEmpty then (.ok (), (s.modifyEntries parent (·.erase name)).removeNode inum)
        else (.error .notEmpty, s)
      | _ => (.error .notADirectory, s)

/-- The loop by which `rename` rejects moving a directory into itself or a descendant, run for at most `turns` turns: `none` when
they were not enough. -/
def cycleCheck (s : Inner) (inum : InodeNum) : Nat → InodeNum → Option (FsResult Unit)
  | 0, _ => none
  | turns + 1, cur =>
    if cur = inum then some (.error .invalidArgument)
    else
      match s.nodes[cur]? with
      | none => some (.error .notFound)
      | some n => if n.parent = cur then some (.ok ()) else cycleCheck s inum turns n.parent

/-- The ancestor check of `rename`, made only when the source is a directory. A walk that ends visits no inode twice, so as many
turns as there are inodes, and one for an inode that is missing, are all a walk that ends can take. -/
def ancestorCheck (s : Inner) (inum newParent : InodeNum) : Option (FsResult Unit) :=
  if s.isDir inum then cycleCheck s inum (s.nodes.size + 1) newParent else some (.ok ())

/-- The end of `rename`: the entry leaves the old parent, joins the new one, and the node is re-parented. -/
def moveEntry (s : Inner) (oldParent : InodeNum) (oldName : String) (newParent : InodeNum) (newName : String)
    (inum : InodeNum) : Inner :=
  let s := s.modifyEntries oldParent (·.erase oldName)
  let s := s.modifyEntries newParent (·.insert newName inum)
  { s with nodes := s.nodes.modify inum fun child => { child with parent := newParent } }

/-- What `rename` does about an entry `eid` that already has the new name: refuse, or the table without it. -/
def replaceTarget (s : Inner) (inum newParent : InodeNum) (newName : String) (eid : InodeNum) : FsResult Inner :=
  if s.isDir inum ≠ s.isDir eid then .error (if s.isDir eid then .isADirectory else .notADirectory)
  else if s.isDir eid ∧ ((s.nodes[eid]?.bind (·.kind.entries?)).map (·.isEmpty)).getD true = false then .error .notEmpty
  else .ok ((s.removeNode eid).modifyEntries newParent (·.erase newName))

def rename (s : Inner) (oldParent : InodeNum) (oldName : String) (newParent : InodeNum) (newName : String) :
    Option (FsResult Unit × Inner) :=
  match validateName newName with
  | .error e => some (.error e, s)
  | .ok () =>
    match childOf s oldParent oldName with
    | .error e => some (.error e, s)
    | .ok inum =>
      if s.isDir newParent then
        match ancestorCheck s inum newParent with
        | none => none
        | some (.error e) => some (.error e, s)
        | some (.ok ()) =>
          match (s.nodes[newParent]?.bind (·.kind.entries?)).bind (·[newName]?) with
          | some eid =>
            if eid = inum then some (.ok (), s)
            else
              match replaceTarget s inum newParent newName eid with
              | .error e => some (.error e, s)
              | .ok s' => some (.ok (), moveEntry s' oldParent oldName newParent newName inum)
          | none => some (.ok (), moveEntry s oldParent oldName newParent newName inum)
      else some (.error .notADirectory, s)

end RamFs

/-- The calls that can change the table, with their arguments. -/
inductive Op where
  | create (parent : InodeNum) (name : String) (fileType : FileType) (mode : Mode)
  | symlink (parent : InodeNum) (name : String) (target : String)
  | unlink (parent : InodeNum) (name : String)
  | rmdir (parent : InodeNum) (name : String)
  | rename (oldParent : InodeNum) (oldName : String) (newParent : InodeNum) (newName : String)
  | write (inode : InodeNum) (offset : Nat) (buf : List UInt8)
  | truncate (inode : InodeNum) (size : Nat)

/-- One call: whether it succeeds, and the table after it. `none`: it does not end. -/
def Op.run (s : Inner) : Op → Option (FsResult Unit × Inner)
  | .create parent name fileType mode =>
    let (r, s') := RamFs.create s parent name fileType mode
    some (r.map fun _ => (), s')
  | .symlink parent name target =>
    let (r, s') := RamFs.symlink s parent name target
    some (r.map fun _ => (), s')
  | .unlink parent name => some (RamFs.unlink s parent name)
  | .rmdir parent name => some (RamFs.rmdir s parent name)
  | .rename oldParent oldName newParent newName => RamFs.rename s oldParent oldName newParent newName
  | .write inode offset buf =>
    let (r, s') := RamFs.write s inode offset buf
    some (r.map fun _ => (), s')
  | .truncate inode size => some (RamFs.truncate s inode size)

/-- The table after a sequence of calls, successful or failing. -/
def runOps (s : Inner) : List Op → Option Inner
  | [] => some s
  | op :: ops => (op.run s).bind fun r => runOps r.2 ops

end Fs

end GolemKernel
