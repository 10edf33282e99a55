import GolemKernel.Lib.SpinLock
import GolemKernel.Memory.Allocator
import GolemKernel.Memory.Heap

/-!
# The allocators behind their locks, access by access

The frame allocator and the heap are behind a `SpinMutex` each (`FRAME_ALLOCATOR` of `src/memory/allocator.rs`, `ALLOCATOR` of
`src/memory/heap.rs`). `alloc_frame`, `dealloc_frame`, `stats` and the two methods of `GlobalAlloc` take the lock, make their accesses and
drop the guard. An access reads or writes one field of an allocator, one word of the bitmap, or one word of memory.
-/

namespace GolemKernel

namespace Memory

open Concurrent

inductive Lock where
  | frames | heap
  deriving DecidableEq, Repr

/-! ## Frames -/

/-- The accesses to the frame allocator. -/
inductive FrameAccess where
  | freeFrames
  | setFreeFrames (n : Nat)
  | totalFrames
  | nextSearch
  | setNextSearch (i : Nat)
  | word (i : Nat)
  | setWord (i : Nat) (word : BitVec 64)

@[reducible] def FrameAccess.Result : FrameAccess → Type
  | freeFrames | totalFrames | nextSearch => Nat
  | word _ => BitVec 64
  | setFreeFrames _ | setNextSearch _ | setWord _ _ => Unit

namespace BitmapFrameAllocator

/-- `none`: the index is out of bounds. -/
def access : (c : FrameAccess) → BitmapFrameAllocator → Option (c.Result × BitmapFrameAllocator)
  | .freeFrames, a => some (a.freeFrames, a)
  | .setFreeFrames n, a => some ((), { a with freeFrames := n })
  | .totalFrames, a => some (a.totalFrames, a)
  | .nextSearch, a => some (a.nextSearch, a)
  | .setNextSearch i, a => some ((), { a with nextSearch := i })
  | .word i, a => if i < bitmapWords then some (a.bitmap i, a) else none
  | .setWord i word, a => if i < bitmapWords then some ((), { a with bitmap := Function.update a.bitmap i word }) else none

abbrev Body (α : Type) : Type := Prog FrameAccess FrameAccess.Result α

/-- The turns of the search from `offset` on, `left` of them. -/
def searchBody : (left offset : Nat) → Body (Option Frame)
  | 0, _ => .ret none
  | left + 1, offset =>
    .call .nextSearch fun nextSearch =>
      let i := (nextSearch + offset) % bitmapWords
      .call (.word i) fun word =>
        if word ≠ BitVec.allOnes 64 then
          let bit := (~~~word).ctz.toNat
          .call (.setWord i (word ||| 1#64 <<< bit)) fun _ =>
            .call .freeFrames fun freeFrames =>
              .call (.setFreeFrames (wrappingSub freeFrames 1)) fun _ =>
                .call (.setNextSearch i) fun _ =>
                  let frameIndex := i * 64 + bit
                  .ret (some ⟨frameIndex * pageSize⟩)
        else searchBody left (offset + 1)

def allocateFrameBody : Body (Option Frame) :=
  .call .freeFrames fun freeFrames => if freeFrames = 0 then .ret none else searchBody bitmapWords 0

def markFreeBody (frame : Frame) : Body Unit :=
  let i := frame.number
  if maxFrames ≤ i then .ret ()
  else
    let word := i / 64
    let bit := i % 64
    .call (.word word) fun w =>
      if w &&& (1#64 <<< bit) ≠ 0 then
        .call (.word word) fun w =>
          .call (.setWord word (w &&& ~~~(1#64 <<< bit))) fun _ =>
            .call .freeFrames fun freeFrames =>
              .call (.setFreeFrames ((freeFrames + 1) % 2 ^ 64)) fun _ => .ret ()
      else .ret ()

def deallocateFrameBody (frame : Frame) : Body Unit := do
  markFreeBody frame
  let word := frame.number / 64
  if word < bitmapWords then .call (.setNextSearch word) fun _ => .ret () else .ret ()

/-- `stats`, from the lock on. -/
def statsBody : Body (Nat × Nat) :=
  .call .totalFrames fun totalFrames => .call .freeFrames fun freeFrames => .ret (totalFrames, freeFrames)

end BitmapFrameAllocator

/-! ## The heap -/

/-- The accesses to the free list. `diverge` is made by a walk that does not end. -/
inductive HeapAccess where
  | load (slot : Slot)
  | store (slot : Slot) (value : Nat)
  | size (block : Nat)
  | setSize (block value : Nat)
  | diverge

@[reducible] def HeapAccess.Result : HeapAccess → Type
  | load _ | size _ => Nat
  | store _ _ | setSize _ _ => Unit
  | diverge => Empty

namespace LinkedListAllocator

def access : (c : HeapAccess) → LinkedListAllocator → Option (c.Result × LinkedListAllocator)
  | .load slot, a => some (a.load slot, a)
  | .store slot value, a => some ((), a.store value slot)
  | .size block, a => some (a.mem block, a)
  | .setSize block value, a => some ((), { a with mem := Function.update a.mem block value })
  | .diverge, _ => none

abbrev Body (α : Type) : Type := Prog HeapAccess HeapAccess.Result α

def addFreeBody (addr size : Nat) : Body Unit :=
  .call (.setSize addr size) fun _ =>
    .call (.load .head) fun head =>
      .call (.store (.next addr) head) fun _ => .call (.store .head addr) fun _ => .ret ()

/-- What is left of a block goes back to the list. -/
def republishBody (addr size : Nat) : Body Unit := if 0 < size then addFreeBody addr size else .ret ()

/-- The end of `alloc_inner`, with a block that fits. -/
def carveBody (prev : Slot) (region : Extent) (size align : Nat) : Body Nat :=
  let regionEnd := region.stop % 2 ^ 64
  let allocStart := alignUp region.addr align
  let allocEnd := allocStart + size
  let excess := regionEnd - allocEnd
  let prefixLen := wrappingSub allocStart region.addr
  .call (.load (.next region.addr)) fun next =>
    .call (.store prev next) fun _ => do
      republishBody region.addr prefixLen
      republishBody allocEnd excess
      return allocStart

/-- The loop of `alloc_inner`, with the turns that `allocInner` gives it. -/
def walkBody (size align : Nat) : (turns : Nat) → Slot → Body Nat
  | 0, _ => .call .diverge fun e => e.elim
  | turns + 1, prev =>
    .call (.load prev) fun first =>
      if first = 0 then .ret 0
      else
        .call (.load prev) fun region =>
          .call (.size region) fun regionSize =>
            if fits size align ⟨region, regionSize⟩ then carveBody prev ⟨region, regionSize⟩ size align
            else walkBody size align turns (.next region)

def allocInnerBody (size align : Nat) : Body Nat := walkBody size align (heapSize / freeBlockSize + 1) .head

def deallocInnerBody (ptr size : Nat) : Body Unit := addFreeBody ptr size

/-- `GlobalAlloc::alloc`, from the lock on. The size and the alignment are computed before, and the call panics if they cannot be. -/
def allocBody (layout : Layout) : Body Nat :=
  match sizeAlign layout with
  | some (size, align) => allocInnerBody size align
  | none => .call .diverge fun e => e.elim

/-- `GlobalAlloc::dealloc`, from the lock on. -/
def deallocBody (ptr : Nat) (layout : Layout) : Body Unit :=
  match sizeAlign layout with
  | some (size, _) => deallocInnerBody ptr size
  | none => .call .diverge fun e => e.elim

end LinkedListAllocator

/-! ## The methods -/

inductive Method where
  | allocFrame
  | deallocFrame (frame : Frame)
  | stats
  | alloc (layout : Layout)
  | dealloc (ptr : Nat) (layout : Layout)

namespace Method

def lock : Method → Lock
  | allocFrame | deallocFrame _ | stats => .frames
  | alloc _ | dealloc _ _ => .heap

@[reducible] def Answer : Method → Type
  | allocFrame => Option Frame
  | stats => Nat × Nat
  | alloc _ => Nat
  | deallocFrame _ | dealloc _ _ => Unit

end Method

/-- What the locks guard. -/
@[reducible] def Lock.Value : Lock → Type
  | frames => BitmapFrameAllocator
  | heap => LinkedListAllocator

@[reducible] def Lock.Access : Lock → Type
  | frames => FrameAccess
  | heap => HeapAccess

@[reducible] def Lock.Result : (l : Lock) → l.Access → Type
  | frames => FrameAccess.Result
  | heap => HeapAccess.Result

def Lock.access : (l : Lock) → (a : l.Access) → l.Value → Option (l.Result a × l.Value)
  | frames => BitmapFrameAllocator.access
  | heap => LinkedListAllocator.access

/-- What a method does under its lock. -/
def Method.body : (c : Method) → Prog c.lock.Access c.lock.Result c.Answer
  | allocFrame => BitmapFrameAllocator.allocateFrameBody
  | deallocFrame frame => BitmapFrameAllocator.deallocateFrameBody frame
  | stats => BitmapFrameAllocator.statsBody
  | alloc layout => LinkedListAllocator.allocBody layout
  | dealloc ptr layout => LinkedListAllocator.deallocBody ptr layout

/-- A method as a whole. -/
def Method.whole : (c : Method) → c.lock.Value → Option (c.Answer × c.lock.Value)
  | allocFrame, a => some a.allocateFrame
  | deallocFrame frame, a => some ((), a.deallocateFrame frame)
  | stats, a => some ((a.totalFrames, a.freeFrames), a)
  | alloc layout, a => a.alloc layout
  | dealloc ptr layout, a => (a.dealloc ptr layout).map fun a => ((), a)

/-- The two allocators, and their methods. -/
@[reducible] def allocators : SpinLock.Guarded Lock Method where
  Value := Lock.Value
  Access := Lock.Access
  Result := Lock.Result
  access := Lock.access
  lock := Method.lock
  Answer := Method.Answer
  body := Method.body

end Memory

end GolemKernel
