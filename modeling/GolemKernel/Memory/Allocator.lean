import GolemKernel.Lib.Bitmap
import GolemKernel.Memory.Basic

/-!
# The physical frame allocator

`BitmapFrameAllocator` of `src/memory/allocator.rs`, and the initialisation of the global instance. A set bit of the bitmap means
a frame in use; the words at and above `bitmapWords`, which the source's array does not have, are never read or written.
-/

namespace GolemKernel

namespace Memory

/-- Maximum supported physical RAM, 32 GiB. -/
def maxPhysicalBytes : Nat := 32 * 1024 * 1024 * 1024

def maxFrames : Nat := maxPhysicalBytes / pageSize

def bitmapWords : Nat := maxFrames / 64

/-- A 4 KiB physical frame, identified by its base address. -/
structure Frame where
  startAddress : Nat
  deriving DecidableEq, Repr

/-- Index of a frame in the bitmap. -/
def Frame.number (f : Frame) : Nat := f.startAddress / pageSize

structure BitmapFrameAllocator where
  bitmap : Bitmap
  nextSearch : Nat
  totalFrames : Nat
  freeFrames : Nat

namespace BitmapFrameAllocator

/-- Every frame in use. -/
def new : BitmapFrameAllocator where
  bitmap := fun _ => BitVec.allOnes 64
  nextSearch := 0
  totalFrames := 0
  freeFrames := 0

def markFree (a : BitmapFrameAllocator) (frame : Frame) : BitmapFrameAllocator :=
  let i := frame.number
  if maxFrames ≤ i then a
  else
    let word := i / 64
    let bit := i % 64
    if a.bitmap word &&& (1#64 <<< bit) ≠ 0 then
      { a with
        bitmap := Function.update a.bitmap word (a.bitmap word &&& ~~~(1#64 <<< bit))
        freeFrames := (a.freeFrames + 1) % 2 ^ 64 }
    else a

/-- Has no caller in the source: `allocate_frame` sets the bit itself. -/
def markUsed (a : BitmapFrameAllocator) (frame : Frame) : BitmapFrameAllocator :=
  let i := frame.number
  if maxFrames ≤ i then a
  else
    let word := i / 64
    let bit := i % 64
    if a.bitmap word &&& (1#64 <<< bit) = 0 then
      { a with
        bitmap := Function.update a.bitmap word (a.bitmap word ||| 1#64 <<< bit)
        freeFrames := wrappingSub a.freeFrames 1 }
    else a

/-- The turns of the search in `allocate_frame` from `offset` on, `left` of them. -/
def search (a : BitmapFrameAllocator) : (left offset : Nat) → Option Frame × BitmapFrameAllocator
  | 0, _ => (none, a)
  | left + 1, offset =>
    let i := (a.nextSearch + offset) % bitmapWords
    let word := a.bitmap i
    if word ≠ BitVec.allOnes 64 then
      let bit := (~~~word).ctz.toNat
      let frameIndex := i * 64 + bit
      (some ⟨frameIndex * pageSize⟩,
        { a with
          bitmap := Function.update a.bitmap i (word ||| 1#64 <<< bit)
          freeFrames := wrappingSub a.freeFrames 1
          nextSearch := i })
    else a.search left (offset + 1)

def allocateFrame (a : BitmapFrameAllocator) : Option Frame × BitmapFrameAllocator :=
  if a.freeFrames = 0 then (none, a) else a.search bitmapWords 0

def deallocateFrame (a : BitmapFrameAllocator) (frame : Frame) : BitmapFrameAllocator :=
  let a := a.markFree frame
  let word := frame.number / 64
  if word < bitmapWords then { a with nextSearch := word } else a

/-- The `while` loop of `init` over one region, from `addr` to `stop`, for at most `turns` turns: the error it returns with, if
any, and the allocator after it. `none`: the turns did not suffice. -/
def initRegion (stop : Nat) : (turns addr : Nat) → BitmapFrameAllocator → Option (Except MemoryInitError Unit × BitmapFrameAllocator)
  | 0, _, _ => none
  | turns + 1, addr, a =>
    if (addr + pageSize) % 2 ^ 64 ≤ stop then
      let idx := (Frame.mk addr).number
      if maxFrames ≤ idx then some (.error .bitmapTooSmall, a)
      else
        let a :=
          if a.bitmap (idx / 64) &&& (1#64 <<< (idx % 64)) ≠ 0 then
            { a with
              bitmap := Function.update a.bitmap (idx / 64) (a.bitmap (idx / 64) &&& ~~~(1#64 <<< (idx % 64)))
              freeFrames := (a.freeFrames + 1) % 2 ^ 64
              totalFrames := (a.totalFrames + 1) % 2 ^ 64 }
          else a
        initRegion stop turns ((addr + pageSize) % 2 ^ 64) a
    else some (.ok (), a)

/-- The `for` loop of `init`, with the `any_usable` flag, where the loop over each region has `turns` turns. -/
def initRegions (turns : Nat) :
    List MemoryRegion → Bool → BitmapFrameAllocator → Option (Except MemoryInitError Unit × BitmapFrameAllocator)
  | [], anyUsable, a => some (if anyUsable then .ok () else .error .noUsableRegions, a)
  | r :: regions, anyUsable, a =>
    if r.kind ≠ .usable then initRegions turns regions anyUsable a
    else
      let start := alignUp r.start pageSize
      let stop := alignDown r.stop pageSize
      if stop ≤ start then initRegions turns regions anyUsable a
      else
        match initRegion stop turns start a with
        | some (.ok (), a) => initRegions turns regions true a
        | r => r

end BitmapFrameAllocator

/-- The statics of `allocator.rs`. -/
structure AllocatorGlobals where
  allocator : BitmapFrameAllocator
  initialized : Bool

namespace AllocatorGlobals

/-- Their values when the kernel starts. -/
def boot : AllocatorGlobals := ⟨.new, false⟩

/-- `allocator::init`. A frame index beyond the bitmap ends the loop over a region, so no such loop takes more than
`maxFrames + 1` turns. -/
def init (g : AllocatorGlobals) (regions : List MemoryRegion) : Option (Except MemoryInitError Unit × AllocatorGlobals) :=
  if g.initialized then some (.error .alreadyInitialized, g)
  else (BitmapFrameAllocator.initRegions (maxFrames + 1) regions false g.allocator).map fun (r, a) => (r, ⟨a, true⟩)

end AllocatorGlobals

end Memory

end GolemKernel
