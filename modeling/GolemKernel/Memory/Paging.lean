import GolemKernel.Lib.TableTree
import GolemKernel.Memory.Allocator

/-!
# Four-level paging

`src/memory/paging.rs`. The tables live in physical memory. The source reaches a table at `offset + phys`, where `offset` is the
mapping of all physical memory that `paging::init` records; that mapping is the boot module's contract, so a table is named by
its physical address here, and what is kept of `phys_to_virt` is its failure before `init`. TLB flushes and the lock have no
counterpart: calls are made one after another.

The frame allocator that `next_table_or_create` calls is a parameter: a function on a state of its own.
-/

namespace GolemKernel

namespace Memory

/-- Bits 12 to 51 of an entry hold the address of the frame. -/
def physAddrMask : BitVec 64 := 0x000FFFFFFFFFF000#64

/-- The flags of an entry. The constants and the operators of the source, and `from_bits_truncate`, give no other bits. -/
structure PageFlags where
  bits : BitVec 64
  clear : bits &&& physAddrMask = 0#64
  deriving DecidableEq

namespace PageFlags

def present : PageFlags := ⟨1#64 <<< 0, by decide⟩
def writable : PageFlags := ⟨1#64 <<< 1, by decide⟩
def user : PageFlags := ⟨1#64 <<< 2, by decide⟩
def hugePage : PageFlags := ⟨1#64 <<< 7, by decide⟩
def noExecute : PageFlags := ⟨1#64 <<< 63, by decide⟩

def empty : PageFlags := ⟨0#64, by decide⟩

def fromBitsTruncate (bits : BitVec 64) : PageFlags where
  bits := bits &&& ~~~physAddrMask
  clear := by rw [BitVec.and_assoc, BitVec.and_comm (~~~physAddrMask), BitVec.and_not_self]; exact BitVec.and_zero

def contains (self other : PageFlags) : Bool := self.bits &&& other.bits == other.bits

def bitor (self rhs : PageFlags) : PageFlags where
  bits := self.bits ||| rhs.bits
  clear := by rw [BitVec.and_comm, BitVec.and_or_distrib_left]; simp only [BitVec.and_comm physAddrMask, clear, BitVec.or_zero]

def bitand (self rhs : PageFlags) : PageFlags where
  bits := self.bits &&& rhs.bits
  clear := by rw [BitVec.and_assoc, rhs.clear, BitVec.and_zero]

end PageFlags

structure PageTableEntry where
  bits : BitVec 64
  deriving DecidableEq

namespace PageTableEntry

def empty : PageTableEntry := ⟨0#64⟩

def isPresent (e : PageTableEntry) : Bool := e.bits &&& 1#64 != 0#64

def frameAddr (e : PageTableEntry) : Nat := (e.bits &&& physAddrMask).toNat

def flags (e : PageTableEntry) : PageFlags := PageFlags.fromBitsTruncate e.bits

/-- The entry that `set` leaves. -/
def set (frameAddr : Nat) (flags : PageFlags) : PageTableEntry := ⟨(BitVec.ofNat 64 frameAddr &&& physAddrMask) ||| flags.bits⟩

end PageTableEntry

/-- A page table: 512 entries. -/
abbrev PageTable := Fin 512 → PageTableEntry

def PageTable.empty : PageTable := fun _ => .empty

inductive MapError where
  | alreadyMapped | notMapped | outOfFrames | hugePageConflict | notInitialized
  deriving DecidableEq, Repr

/-- The recorded offset (`u64::MAX` before `init`), the register that names the top table, the tables, and the state of the frame
allocator. -/
structure PagingState (σ : Type) where
  offset : Nat
  cr3 : BitVec 64
  tables : Nat → PageTable
  frames : σ

/-- Code that reads and writes the paging state and may fail. -/
abbrev PagingM (σ : Type) := ExceptT MapError (StateM (PagingState σ))

variable {σ : Type}

/-- A run of such code: what it returns or fails with, and the state it leaves in either case. -/
def PagingM.exec {β : Type} (m : PagingM σ β) (s : PagingState σ) : Except MapError β × PagingState σ := m.run s

/-- `paging::init`. -/
def pagingInit (s : PagingState σ) (physicalMemoryOffset : Nat) : Except MemoryInitError (PagingState σ) :=
  if physicalMemoryOffset = 2 ^ 64 - 1 then .error .pagingNotReady else .ok { s with offset := physicalMemoryOffset }

/-- `phys_to_virt`: the table at a physical address. -/
def physToVirt (phys : Nat) : PagingM σ Nat := do
  let s ← get
  if s.offset = 2 ^ 64 - 1 then throw .notInitialized
  return phys

/-- `active_l4`. -/
def activeL4 : PagingM σ Nat := do
  let s ← get
  physToVirt (s.cr3 &&& physAddrMask).toNat

/-- The nine bits of an address from `shift` on. -/
def indexAt (virt shift : Nat) : Fin 512 :=
  ⟨(virt >>> shift) &&& 0x1FF, Nat.lt_of_le_of_lt Nat.and_le_right (by decide)⟩

/-- `split_indices`. -/
def splitIndices (virt : Nat) : Fin 512 × Fin 512 × Fin 512 × Fin 512 × Nat :=
  (indexAt virt 39, indexAt virt 30, indexAt virt 21, indexAt virt 12, virt &&& 0xFFF)

/-- `allocator::alloc_frame()`, on the state of the allocator. -/
def allocFrame (alloc : σ → Option Frame × σ) : PagingM σ (Option Frame) := do
  let s ← get
  let (frame, frames) := alloc s.frames
  set { s with frames := frames }
  return frame

/-- The flags of a new intermediate entry. -/
def intermediateFlags (parentFlags : PageFlags) : PageFlags :=
  (PageFlags.present.bitor .writable).bitor (parentFlags.bitand .user)

/-- `next_table_or_create`. -/
def nextTableOrCreate (alloc : σ → Option Frame × σ) (table : Nat) (index : Fin 512) (parentFlags : PageFlags) : PagingM σ Nat := do
  let entry := (← get).tables table index
  if entry.isPresent then
    if entry.flags.contains .hugePage then throw .hugePageConflict
    physToVirt entry.frameAddr
  else
    match ← allocFrame alloc with
    | none => throw .outOfFrames
    | some frame =>
      let newTablePa := frame.startAddress
      let newTable ← physToVirt newTablePa
      modify fun s => { s with tables := Function.update s.tables newTable .empty }
      let entry := PageTableEntry.set newTablePa (intermediateFlags parentFlags)
      modify fun s => { s with tables := TableTree.write s.tables table index entry }
      physToVirt entry.frameAddr

/-- `next_table`. -/
def nextTable (table : Nat) (index : Fin 512) : PagingM σ Nat := do
  let entry := (← get).tables table index
  if !entry.isPresent then throw .notMapped
  if entry.flags.contains .hugePage then throw .hugePageConflict
  physToVirt entry.frameAddr

/-- What `map` does after its assertions. -/
def mapPage (alloc : σ → Option Frame × σ) (virt phys : Nat) (flags : PageFlags) : PagingM σ Unit := do
  let flags := flags.bitor .present
  let (l4i, l3i, l2i, l1i, _) := splitIndices virt
  let l4 ← activeL4
  let l3 ← nextTableOrCreate alloc l4 l4i flags
  let l2 ← nextTableOrCreate alloc l3 l3i flags
  let l1 ← nextTableOrCreate alloc l2 l2i flags
  let entry := (← get).tables l1 l1i
  if entry.isPresent then throw .alreadyMapped
  modify fun s => { s with tables := TableTree.write s.tables l1 l1i (.set phys flags) }

/-- What `unmap` does after its assertion. -/
def unmapPage (virt : Nat) : PagingM σ Nat := do
  let (l4i, l3i, l2i, l1i, _) := splitIndices virt
  let l4 ← activeL4
  let l3 ← nextTable l4 l4i
  let l2 ← nextTable l3 l3i
  let l1 ← nextTable l2 l2i
  let entry := (← get).tables l1 l1i
  if !entry.isPresent then throw .notMapped
  modify fun s => { s with tables := TableTree.write s.tables l1 l1i .empty }
  return entry.frameAddr

/-- `map`. `none`: an assertion fails. -/
def map (alloc : σ → Option Frame × σ) (virt phys : Nat) (flags : PageFlags) (s : PagingState σ) :
    Option (Except MapError Unit × PagingState σ) :=
  if virt &&& 0xFFF = 0 ∧ phys &&& 0xFFF = 0 then some ((mapPage alloc virt phys flags).exec s) else none

/-- `unmap`. `none`: the assertion fails. -/
def unmap (virt : Nat) (s : PagingState σ) : Option (Except MapError Nat × PagingState σ) :=
  if virt &&& 0xFFF = 0 then some ((unmapPage virt).exec s) else none

/-- `translate`. -/
def translate (s : PagingState σ) (virt : Nat) : Option Nat :=
  let (l4i, l3i, l2i, l1i, off) := splitIndices virt
  if s.offset = 2 ^ 64 - 1 then none
  else
    let e4 := s.tables (s.cr3 &&& physAddrMask).toNat l4i
    if !e4.isPresent then none
    else
      let e3 := s.tables e4.frameAddr l3i
      if !e3.isPresent then none
      else if e3.flags.contains .hugePage then some (e3.frameAddr ||| (virt &&& ((1 <<< 30) - 1)))
      else
        let e2 := s.tables e3.frameAddr l2i
        if !e2.isPresent then none
        else if e2.flags.contains .hugePage then some (e2.frameAddr ||| (virt &&& ((1 <<< 21) - 1)))
        else
          let e1 := s.tables e2.frameAddr l1i
          if !e1.isPresent then none else some (e1.frameAddr ||| off)

end Memory

end GolemKernel
