import GolemKernel.Lib.Extent
import GolemKernel.Memory.Basic

/-!
# The kernel heap: a first-fit free list

`LinkedListAllocator` of `src/memory/heap.rs`. The free list lives in the heap region: the word at the beginning of a free block
is its size and the next word the address of the next free block (`FreeBlock`, 16 bytes, aligned to 8), so the memory is part of
the allocator's state. Memory is a function from addresses to words; the allocator reads and writes it at multiples of 8 only.
The walk of `alloc_inner` holds a pointer to the pointer it came by, which is either the head of the list or the link of a block
(`Slot`).

`none` stands for a call that does not return: the walk went on for longer than a list of blocks in the heap can be, or the
layout made `size_align` panic.
-/

namespace GolemKernel

namespace Memory

/-- `size_of::<FreeBlock>()`. -/
def freeBlockSize : Nat := 16

/-- The allocator and the memory its free list is stored in. -/
structure LinkedListAllocator where
  head : Nat
  mem : Nat → Nat

/-- Where a pointer of the free list is stored: in `self.head`, or in the `next` field of a block. -/
inductive Slot where
  | head
  | next (block : Nat)
  deriving DecidableEq, Repr

namespace LinkedListAllocator

/-- `(*block).next`, as a word of memory. -/
def nextField (block : Nat) : Nat := block + 8

/-- `*prev`. -/
def load (a : LinkedListAllocator) : Slot → Nat
  | .head => a.head
  | .next block => a.mem (nextField block)

/-- `*prev = value`. -/
def store (a : LinkedListAllocator) (value : Nat) : Slot → LinkedListAllocator
  | .head => { a with head := value }
  | .next block => { a with mem := Function.update a.mem (nextField block) value }

/-- Push a free block onto the head of the list. -/
def addFree (a : LinkedListAllocator) (addr size : Nat) : LinkedListAllocator where
  head := addr
  mem := Function.update (Function.update a.mem addr size) (nextField addr) a.head

/-- One free block that is the whole heap region. -/
def init (a : LinkedListAllocator) (start size : Nat) : LinkedListAllocator := ({ a with head := 0 }).addFree start size

/-- The tests of `alloc_inner` on one free block: the allocation ends inside the block, and what is left of the block before and
after it is nothing or has room for a header. -/
def fits (size align : Nat) (region : Extent) : Bool :=
  let regionEnd := region.stop % 2 ^ 64
  let allocStart := alignUp region.addr align
  -- `checked_add`
  decide (allocStart + size < 2 ^ 64) &&
    (let allocEnd := allocStart + size
     let excess := regionEnd - allocEnd
     let prefixLen := wrappingSub allocStart region.addr
     decide (allocEnd ≤ regionEnd) && !decide (0 < excess ∧ excess < freeBlockSize) &&
       !decide (0 < prefixLen ∧ prefixLen < freeBlockSize))

/-- What `alloc_inner` does with a block it takes: unlink it, and put back what is left before and after the allocation. -/
def carve (a : LinkedListAllocator) (prev : Slot) (region : Extent) (size align : Nat) : LinkedListAllocator :=
  let regionEnd := region.stop % 2 ^ 64
  let allocStart := alignUp region.addr align
  let allocEnd := allocStart + size
  let excess := regionEnd - allocEnd
  let prefixLen := wrappingSub allocStart region.addr
  let a := a.store (a.mem (nextField region.addr)) prev
  let a := if 0 < prefixLen then a.addFree region.addr prefixLen else a
  if 0 < excess then a.addFree allocEnd excess else a

/-- The loop of `alloc_inner`, run for at most `turns` turns: the address it returns (0: null) and the allocator after it. -/
def allocLoop (size align : Nat) : Nat → Slot → LinkedListAllocator → Option (Nat × LinkedListAllocator)
  | 0, _, _ => none
  | turns + 1, prev, a =>
    let region := a.load prev
    if region = 0 then some (0, a)
    else
      let block : Extent := ⟨region, a.mem region⟩
      if fits size align block then some (alignUp region align, a.carve prev block size align)
      else allocLoop size align turns (.next region) a

/-- `alloc_inner`. No list of free blocks in the heap has more than `heapSize / 16` of them. -/
def allocInner (a : LinkedListAllocator) (size align : Nat) : Option (Nat × LinkedListAllocator) :=
  allocLoop size align (heapSize / freeBlockSize + 1) .head a

def deallocInner (a : LinkedListAllocator) (ptr size : Nat) : LinkedListAllocator := a.addFree ptr size

end LinkedListAllocator

/-- `core::alloc::Layout`: the alignment is a power of two, and the size rounded up to it does not overflow an `isize`. -/
structure Layout where
  size : Nat
  align : Nat
  isPow : ∃ k, align = 2 ^ k
  fits : size + align ≤ 2 ^ 63

namespace Layout

/-- `Layout::align_to`, which fails when the size does not fit the larger alignment. -/
def alignTo (l : Layout) (k : Nat) : Option Layout :=
  if h : l.size + max l.align (2 ^ k) ≤ 2 ^ 63 then
    some { size := l.size, align := max l.align (2 ^ k), fits := h,
           isPow := by
             rcases Nat.le_total l.align (2 ^ k) with hle | hle
             · exact ⟨k, Nat.max_eq_right hle⟩
             · obtain ⟨j, hj⟩ := l.isPow
               exact ⟨j, (Nat.max_eq_left hle).trans hj⟩ }
  else none

/-- The size of `Layout::pad_to_align`: rounded up to the alignment. -/
def paddedSize (l : Layout) : Nat := alignUp l.size l.align

end Layout

namespace LinkedListAllocator

/-- `size_align`: the size and the alignment the allocator works with. `none`: `expect("alignment too large")` panics. -/
def sizeAlign (layout : Layout) : Option (Nat × Nat) :=
  (layout.alignTo 3).map fun l => (max l.paddedSize freeBlockSize, l.align)

/-- `GlobalAlloc::alloc`. -/
def alloc (a : LinkedListAllocator) (layout : Layout) : Option (Nat × LinkedListAllocator) :=
  (sizeAlign layout).bind fun (size, align) => a.allocInner size align

/-- `GlobalAlloc::dealloc`. -/
def dealloc (a : LinkedListAllocator) (ptr : Nat) (layout : Layout) : Option LinkedListAllocator :=
  (sizeAlign layout).map fun (size, _) => a.deallocInner ptr size

end LinkedListAllocator

end Memory

end GolemKernel
