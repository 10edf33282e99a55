import GolemKernel.Memory.Heap
import GolemKernel.Memory.Paging

/-!
# Memory bring-up

`heap::init` of `src/memory/heap.rs` and `init_from_info` of `src/memory/mod.rs`, over the statics of the three modules: the
recorded offset and the page tables, the frame allocator, and the heap. The paging code takes its frames from the global frame
allocator.
-/

namespace GolemKernel

namespace Memory

/-- `allocator::alloc_frame`. -/
def AllocatorGlobals.allocFrame (g : AllocatorGlobals) : Option Frame × AllocatorGlobals :=
  let (frame, a) := g.allocator.allocateFrame
  (frame, { g with allocator := a })

/-- The flags of the heap's pages. -/
def heapFlags : PageFlags := (PageFlags.present.bitor .writable).bitor .noExecute

/-- The loop of `heap::init`, from `mapped` bytes on, for at most `turns` turns. `none`: an assertion of `map` fails, or the turns
do not suffice. -/
def mapHeap : (turns mapped : Nat) → PagingState AllocatorGlobals →
    Option (Except MemoryInitError Unit × PagingState AllocatorGlobals)
  | 0, mapped, s => if mapped < heapSize then none else some (.ok (), s)
  | turns + 1, mapped, s =>
    if mapped < heapSize then
      let virt := heapStart + mapped
      match s.frames.allocFrame with
      | (none, g) => some (.error .heapMappingFailed, { s with frames := g })
      | (some frame, g) =>
        match map AllocatorGlobals.allocFrame virt frame.startAddress heapFlags { s with frames := g } with
        | none => none
        | some (.error _, s) => some (.error .heapMappingFailed, s)
        | some (.ok (), s) => mapHeap turns (mapped + pageSize) s
    else some (.ok (), s)

/-- The statics of the memory subsystem. -/
structure KernelMemory where
  paging : PagingState AllocatorGlobals
  heap : LinkedListAllocator

namespace KernelMemory

/-- `heap::init`: map the pages of the heap, then hand the region to the allocator. -/
def heapInit (k : KernelMemory) : Option (Except MemoryInitError Unit × KernelMemory) :=
  (mapHeap (heapSize / pageSize) 0 k.paging).map fun
    | (.ok (), s) => (.ok (), { paging := s, heap := k.heap.init heapStart heapSize })
    | (.error e, s) => (.error e, { k with paging := s })

/-- `init_from_info`. -/
def initFromInfo (k : KernelMemory) (info : MemoryInfo) : Option (Except MemoryInitError Unit × KernelMemory) :=
  match pagingInit k.paging info.physicalMemoryOffset with
  | .error e => some (.error e, k)
  | .ok s =>
    match s.frames.init info.regions with
    | none => none
    | some (.error e, g) => some (.error e, { k with paging := { s with frames := g } })
    | some (.ok (), g) => heapInit { k with paging := { s with frames := g } }

end KernelMemory

end Memory

end GolemKernel
