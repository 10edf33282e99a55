import GolemKernel.Theorems.Heap

/-!
# Where the arithmetic of the heap wraps

The heap lies 64 TiB below the end of the address space, and a `Layout` may ask for an alignment of up to 4 EiB. Of the sums in
`alloc_inner` only the end of the allocation is computed with `checked_add`. The first aligned address above a block can lie at or beyond
the end of the address space. Rounding up then gives address zero, and the tests that follow accept the block. What is taken to be left
of it becomes two free blocks: one in the heap with a size of about 64 TiB, and one whose header is written far outside of the heap. As
long as that happens to no free block, everything the loop computes is exact.
-/

namespace GolemKernel

namespace Memory

open LinkedListAllocator

/-- The first multiple of the alignment at or above the beginning of a block. -/
def firstAligned (align : Nat) (b : Extent) : Nat := (b.addr + align - 1) / align * align

/-- The values `alloc_inner` computes on a block are those of the integers. -/
structure ExactOn (size align : Nat) (b : Extent) : Prop where
  start : alignUp b.addr align = firstAligned align b
  stop : b.stop % 2 ^ 64 = b.stop
  excess : ((b.stop % 2 ^ 64 - (alignUp b.addr align + size) : Nat) : Int) = b.stop - (firstAligned align b + size)
  front : (wrappingSub (alignUp b.addr align) b.addr : Int) = firstAligned align b - b.addr

/-- The free blocks whose headers are written when a block is split. -/
def published (b : Extent) (size align : Nat) : List Extent :=
  let allocEnd := alignUp b.addr align + size
  let excess := b.stop % 2 ^ 64 - allocEnd
  let prefixLen := wrappingSub (alignUp b.addr align) b.addr
  (if 0 < prefixLen then [⟨b.addr, prefixLen⟩] else []) ++ if 0 < excess then [⟨allocEnd, excess⟩] else []

/-- Taking a block out unlinks its region and publishes what is left of it. -/
theorem carve_eq (a : LinkedListAllocator) (prev : Slot) (b : Extent) (size align : Nat) :
    a.carve prev b size align =
      (published b size align).foldl (fun a c => a.addFree c.addr c.size) (a.store (a.mem (nextField b.addr)) prev) := by
  unfold carve published
  dsimp only
  split <;> split <;> rfl

/-- An address of the heap. -/
def InHeap (x : Nat) : Prop := heapStart ≤ x ∧ x < heapStart + heapSize

/-- An allocation returns; on the block whose split is carried out every value is exact; the result is null or lies in a free block; and
headers are written inside the heap, where alone memory changes. -/
def AllocExact (a : LinkedListAllocator) (free : List Extent) (layout : Layout) : Prop :=
  ∃ size align ptr a', sizeAlign layout = some (size, align) ∧ a.alloc layout = some (ptr, a') ∧
    (∀ b, free.find? (fits size align) = some b → ExactOn size align b ∧
      ∀ c ∈ published b size align, InHeap c.addr ∧ InHeap (nextField c.addr)) ∧
    (ptr = 0 ∨ ∃ b ∈ free, b.addr ≤ ptr ∧ ptr + size ≤ b.stop) ∧
    ∀ x, ¬InHeap x → a'.mem x = a.mem x

/-- `size_align` does not panic, and no free block has its first aligned address beyond the end of the address space. -/
def Roomy (free : List Extent) (layout : Layout) : Prop :=
  layout.size + max layout.align 8 ≤ 2 ^ 63 ∧ ∀ b ∈ free, b.addr + layout.align ≤ 2 ^ 64

/-- `size_align` accepts a layout exactly if it stays within `isize` when it is padded. -/
theorem sizeAlign_isSome_iff (layout : Layout) :
    (∃ size align, sizeAlign layout = some (size, align)) ↔ layout.size + max layout.align 8 ≤ 2 ^ 63 := by
  unfold sizeAlign Layout.alignTo
  by_cases h : layout.size + max layout.align (2 ^ 3) ≤ 2 ^ 63
  · rw [dif_pos h]
    exact iff_of_true ⟨_, _, rfl⟩ h
  · rw [dif_neg h]
    refine iff_of_false ?_ h
    rintro ⟨size, align, heq⟩
    cases heq

section

variable {a : LinkedListAllocator} {free live : List Extent} {layout : Layout} {size align : Nat}

/-- Rounding up beyond the end of the address space gives zero. -/
theorem alignUp_wraps {addr k : Nat} (hk : k ≤ 63) (haddr : addr < 2 ^ 64) (h : 2 ^ 64 < addr + 2 ^ k) : alignUp addr (2 ^ k) = 0 := by
  have hle : 2 ^ k ≤ 2 ^ 63 := Nat.pow_le_pow_right Nat.two_pos hk
  have hmod : (addr + 2 ^ k - 1) % 2 ^ 64 = addr + 2 ^ k - 1 - 2 ^ 64 := by
    rw [Nat.mod_eq_sub_mod (by omega), Nat.mod_eq_of_lt (by omega)]
  rw [alignUp, hmod, and_not64 (by omega) (by omega), Nat.div_eq_of_lt (by omega), Nat.zero_mul]

/-- Such a block passes all tests. -/
theorem fits_of_wraps (h : HeapInv a free live) (hn : Requested layout size align) {b : Extent} (hb : b ∈ free)
    (hwrap : 2 ^ 64 < b.addr + align) : alignUp b.addr align = 0 ∧ fits size align b = true := by
  obtain ⟨k, -, hk, hpow⟩ := hn.pow
  have hbounds := h.bounds hb
  have hsize := hn.size_le
  have hheader := h.header b hb
  have hstart : alignUp b.addr align = 0 := by
    rw [hpow] at hwrap ⊢
    simp only [Extent.stop] at hbounds
    exact alignUp_wraps hk (by omega) hwrap
  have hstop : b.stop % 2 ^ 64 = b.stop := Nat.mod_eq_of_lt (by omega)
  have hfront : wrappingSub 0 b.addr = 2 ^ 64 - b.addr := by
    unfold wrappingSub
    simp only [Extent.stop] at hbounds
    omega
  refine ⟨hstart, ?_⟩
  simp only [fits, hstart, hstop, hfront, freeBlockSize, Bool.and_eq_true, decide_eq_true_eq, Bool.not_eq_true',
    decide_eq_false_iff_not]
  simp only [Extent.stop] at hbounds ⊢
  omega

/-- The first aligned address is not before the block. -/
theorem le_firstAligned (b : Extent) (hpos : 0 < align) : b.addr ≤ firstAligned align b := by
  unfold firstAligned
  have hdiv := Nat.div_add_mod' (b.addr + align - 1) align
  have hmod := Nat.mod_lt (b.addr + align - 1) hpos
  omega

/-- On a block that can be split the arithmetic does not wrap. -/
theorem exactOn_of_splits (hn : Requested layout size align) {b : Extent} (hstop : b.stop < 2 ^ 64)
    (hroom : b.addr + align ≤ 2 ^ 64) (hsplit : Splits size b (alignUp b.addr align)) : ExactOn size align b := by
  have hstart : alignUp b.addr align = firstAligned align b := by
    obtain ⟨k, -, hk, rfl⟩ := hn.pow
    have hpos : 0 < 2 ^ k := Nat.two_pow_pos k
    exact alignUp_eq (by omega) (by omega)
  have hend : b.stop % 2 ^ 64 = b.stop := Nat.mod_eq_of_lt hstop
  obtain ⟨hle, hstop', -, -⟩ := hsplit
  refine ⟨hstart, hend, ?_, ?_⟩
  · rw [hend, ← hstart, Nat.cast_sub hstop', Nat.cast_add]
  · rw [wrappingSub_eq hle (by omega), ← hstart, Nat.cast_sub hle]

theorem heap_end_lt : heapStart + heapSize < 2 ^ 64 := by decide

/-- What is left of a block of the heap lies in the heap. -/
theorem published_inHeap {b : Extent} (hlo : heapStart ≤ b.addr) (hhi : b.stop ≤ heapStart + heapSize) (hsize : 16 ≤ b.size)
    (hheader : 16 ≤ size) (hsplit : Splits size b (alignUp b.addr align)) :
    ∀ c ∈ published b size align, InHeap c.addr ∧ InHeap (nextField c.addr) := by
  have hend := heap_end_lt
  obtain ⟨hle, hstop, hfront, hback⟩ := hsplit
  intro c hc
  unfold published at hc
  rw [Nat.mod_eq_of_lt (by omega)] at hc
  unfold InHeap nextField
  rcases List.mem_append.mp hc with hc | hc
  · rw [List.mem_ite_nil_right, List.mem_singleton] at hc
    obtain ⟨-, rfl⟩ := hc
    simp only [Extent.stop] at *
    omega
  · rw [List.mem_ite_nil_right, List.mem_singleton] at hc
    obtain ⟨hpos, rfl⟩ := hc
    simp only at *
    omega

/-- A block that is pushed changes the two words of its header. -/
theorem mem_foldl_addFree {x : Nat} (l : List Extent) (h : ∀ c ∈ l, x ≠ c.addr ∧ x ≠ nextField c.addr) (a : LinkedListAllocator) :
    (l.foldl (fun a c => a.addFree c.addr c.size) a).mem x = a.mem x := by
  induction l generalizing a with
  | nil => rfl
  | cons c l ih =>
    obtain ⟨hsize, hnext⟩ := h c List.mem_cons_self
    rw [List.foldl_cons, ih (List.forall_mem_of_forall_mem_cons h)]
    exact (Function.update_of_ne hnext _ _).trans (Function.update_of_ne hsize _ _)

/-- The header of a free block is in the heap. -/
theorem inHeap_of_mem (h : HeapInv a free live) {b : Extent} (hb : b ∈ free) : InHeap b.addr ∧ InHeap (nextField b.addr) := by
  have hbounds : heapStart ≤ b.addr ∧ b.stop ≤ heapStart + heapSize := h.bounds hb
  have hsize := h.header b hb
  unfold InHeap nextField
  simp only [Extent.stop] at hbounds
  omega

/-- Storing to the slot before a block changes a word of the heap. -/
theorem mem_store_slotAfter (h : HeapInv a free live) {pre : List Extent} (hpre : ∀ c ∈ pre, c ∈ free) (value : Nat) {x : Nat}
    (hx : ¬InHeap x) : (a.store value (slotAfter .head pre)).mem x = a.mem x := by
  rcases List.eq_nil_or_concat pre with rfl | ⟨pre, c, rfl⟩
  · rfl
  · rw [List.concat_eq_append, slotAfter_concat]
    have hc := (inHeap_of_mem h (hpre c (by simp))).2
    have hne : x ≠ nextField c.addr := by
      rintro rfl
      exact hx hc
    exact Function.update_of_ne hne _ _

/-- If no block wraps, the call is exact. -/
theorem allocExact_of_roomy (h : HeapInv a free live) (hroom : Roomy free layout) : AllocExact a free layout := by
  obtain ⟨size, align, hsa⟩ := (sizeAlign_isSome_iff layout).mpr hroom.1
  have hn := sizeAlign_requested hsa
  have hend := heap_end_lt
  have hroom : ∀ b ∈ free, b.addr + align ≤ 2 ^ 64 := by
    intro b hb
    have h1 := hroom.2 b hb
    have h2 := h.bounds hb
    have h3 := h.header b hb
    simp only [Extent.stop] at h2
    rw [hn.align_eq]
    omega
  rcases allocLoop_spec a size align free .head _ h.chain h.length_lt with ⟨hnull, hnone⟩ | ⟨pre, b, post, hfree, hpre, hfits, heq⟩
  · refine ⟨size, align, 0, a, hsa, (alloc_eq a hsa).trans hnull, ?_, .inl rfl, fun x _ => rfl⟩
    intro b hb
    have hfits := List.find?_some hb
    rw [hnone b (List.mem_of_find?_eq_some hb)] at hfits
    cases hfits
  · have hb : b ∈ free := by
      rw [hfree]
      exact List.mem_append_right _ List.mem_cons_self
    have hbounds : heapStart ≤ b.addr ∧ b.stop ≤ heapStart + heapSize := h.bounds hb
    have hsplit := (HeapInv.fits_iff_splits hn h hb (hroom b hb)).mp hfits
    have hpublished := published_inHeap hbounds.1 hbounds.2 (h.header b hb) hn.header hsplit
    refine ⟨size, align, _, _, hsa, (alloc_eq a hsa).trans heq, ?_, .inr ⟨b, hb, hsplit.addr_le, hsplit.le_stop⟩, ?_⟩
    · intro c hc
      have hfirst : free.find? (fits size align) = some b := by
        rw [List.find?_eq_some_iff_append]
        refine ⟨hfits, pre, post, hfree, ?_⟩
        intro c hc
        rw [hpre c hc]
        rfl
      obtain rfl := Option.some.inj (hfirst.symm.trans hc)
      exact ⟨exactOn_of_splits hn (by omega) (hroom b hb) hsplit, hpublished⟩
    · intro x hx
      have hpre' : ∀ c ∈ pre, c ∈ free := by
        intro c hc
        rw [hfree]
        exact List.mem_append_left _ hc
      rw [carve_eq, mem_foldl_addFree, mem_store_slotAfter h hpre' _ hx]
      intro c hc
      obtain ⟨h1, h2⟩ := hpublished c hc
      constructor
      · rintro rfl
        exact hx h1
      · rintro rfl
        exact hx h2

/-- If a block wraps, no block before it in the list is large enough, and it is split. -/
theorem roomy_of_allocExact (h : HeapInv a free live) (hsize : layout.size ≠ 0) (hexact : AllocExact a free layout) :
    Roomy free layout := by
  obtain ⟨size, align, ptr, a', hsa, -, hfirst, -⟩ := hexact
  have hn := sizeAlign_requested hsa
  have hle : layout.align ≤ align := by
    rw [hn.align_eq]
    exact Nat.le_max_left _ _
  refine ⟨(sizeAlign_isSome_iff layout).mp ⟨size, align, hsa⟩, ?_⟩
  intro b hb
  by_contra hwrap
  have hfits := (fits_of_wraps h hn hb (by omega)).2
  obtain ⟨c, hc⟩ := Option.isSome_iff_exists.mp (List.find?_isSome.mpr ⟨b, hb, hfits⟩)
  have hmem := List.mem_of_find?_eq_some hc
  have hstart := (hfirst c hc).1.start
  have hbounds := h.bounds hmem
  have hbounds' := h.bounds hb
  have hlarge := hn.align_le hsize
  by_cases hroom : c.addr + align ≤ 2 ^ 64
  · -- the alignment is larger than the heap, and so is the size
    have hsplit := (HeapInv.fits_iff_splits hn h hmem hroom).mp (List.find?_some hc)
    have hle := hsplit.addr_le
    have hstop := hsplit.le_stop
    simp only [Extent.stop] at *
    omega
  · have hzero := (fits_of_wraps h hn hmem (by omega)).1
    have hpos : 8 ≤ align := by
      rw [hn.align_eq]
      exact Nat.le_max_right _ _
    have hge := le_firstAligned c (show 0 < align by omega)
    omega

/-- An allocation is exact exactly if the layout is accepted and no free block is aligned past the address space. -/
theorem allocExact_iff (h : HeapInv a free live) (hsize : layout.size ≠ 0) : AllocExact a free layout ↔ Roomy free layout :=
  ⟨roomy_of_allocExact h hsize, allocExact_of_roomy h⟩

end

/-! ## Runs -/

/-- A run of the heap from its initialisation on, with layouts of any alignment, and the allocations it made, each with the state it was
made in. -/
inductive HeapRun (a₀ : LinkedListAllocator) : List (HeapState × Layout) → HeapState → Prop where
  | boot : HeapRun a₀ [] (HeapState.boot a₀)
  | alloc {calls : List (HeapState × Layout)} {s : HeapState} (hrun : HeapRun a₀ calls s) (layout : Layout)
      (hsize : layout.size ≠ 0) (ptr : Nat) (a : LinkedListAllocator) (h : s.heap.alloc layout = some (ptr, a)) :
      HeapRun a₀ (calls ++ [(s, layout)]) ⟨a, if ptr = 0 then s.live else (ptr, layout) :: s.live⟩
  | dealloc {calls : List (HeapState × Layout)} {s : HeapState} (hrun : HeapRun a₀ calls s) (before after : List (Nat × Layout))
      (ptr : Nat) (layout : Layout) (a : LinkedListAllocator) (hlive : s.live = before ++ (ptr, layout) :: after)
      (h : s.heap.dealloc ptr layout = some a) : HeapRun a₀ calls ⟨a, before ++ after⟩
  | write {calls : List (HeapState × Layout)} {s : HeapState} (hrun : HeapRun a₀ calls s) (b : Extent) (addr value : Nat)
      (hb : b ∈ s.liveBlocks) (hlo : b.addr ≤ addr) (hhi : addr < b.stop) :
      HeapRun a₀ calls ⟨{ s.heap with mem := Function.update s.heap.mem addr value }, s.live⟩

/-- The allocation is exact in the state it is made in. -/
def CallExact (c : HeapState × Layout) : Prop := ∃ free, Chain c.1.heap.mem c.1.heap.head free ∧ AllocExact c.1.heap free c.2

/-- No free block is too near the end of the address space for the layout. -/
def CallRoomy (c : HeapState × Layout) : Prop := ∃ free, Chain c.1.heap.mem c.1.heap.head free ∧ Roomy free c.2

/-- And so is a call of a run. -/
theorem callExact_iff {s : HeapState} {free : List Extent} (h : HeapInv s.heap free s.liveBlocks) {layout : Layout}
    (hsize : layout.size ≠ 0) : CallExact (s, layout) ↔ CallRoomy (s, layout) := by
  refine exists_congr fun free' => and_congr_right fun hchain => ?_
  exact allocExact_iff (h.free_unique hchain) hsize

/-- As long as every allocation was exact, or had room, the heap keeps its invariant. -/
theorem HeapRun.inv {a₀ : LinkedListAllocator} {calls : List (HeapState × Layout)} {s : HeapState} (hrun : HeapRun a₀ calls s)
    (hcalls : (∀ c ∈ calls, CallExact c) ∨ ∀ c ∈ calls, CallRoomy c) :
    (∃ free, HeapInv s.heap free s.liveBlocks) ∧ (∀ c ∈ calls, CallExact c) ∧ ∀ c ∈ calls, CallRoomy c := by
  induction hrun with
  | boot => exact ⟨⟨_, HeapInv.init a₀⟩, List.forall_mem_nil _, List.forall_mem_nil _⟩
  | @alloc calls s hrun layout hsize ptr a heq ih =>
    simp only [List.forall_mem_append, List.forall_mem_singleton] at hcalls ⊢
    obtain ⟨⟨free, hinv⟩, hexact, hroomy⟩ := ih (hcalls.imp And.left And.left)
    have hiff := callExact_iff hinv hsize
    have hlast : CallRoomy (s, layout) := hcalls.elim (fun h => hiff.mp h.2) fun h => h.2
    refine ⟨?_, ⟨hexact, hiff.mpr hlast⟩, hroomy, hlast⟩
    obtain ⟨free', hchain, -, hroom⟩ := hlast
    have hinv := hinv.free_unique hchain
    obtain ⟨⟨size, align⟩, hsa, -⟩ := Option.bind_eq_some_iff.mp heq
    refine alloc_inv hinv hsa ?_ heq
    intro b hb
    have h1 := hroom b hb
    have h2 := hinv.bounds hb
    have h3 := hinv.header b hb
    simp only [Extent.stop] at h1 h2
    rw [(sizeAlign_requested hsa).align_eq]
    omega
  | dealloc hrun before after ptr layout a hlive heq ih =>
    obtain ⟨⟨free, hinv⟩, hexact, hroomy⟩ := ih hcalls
    exact ⟨(HeapStep.dealloc before after ptr layout a hlive heq).inv hinv, hexact, hroomy⟩
  | write hrun b addr value hb hlo hhi ih =>
    obtain ⟨⟨free, hinv⟩, hexact, hroomy⟩ := ih hcalls
    exact ⟨⟨free, hinv.write hb hlo hhi value⟩, hexact, hroomy⟩

/-- The allocations of a run, the one that follows it included, are all exact exactly if all of them had room. -/
theorem heap_arithmetic_exact_iff {a₀ : LinkedListAllocator} {calls : List (HeapState × Layout)} {s : HeapState}
    (hrun : HeapRun a₀ calls s) (layout : Layout) (hsize : layout.size ≠ 0) :
    (∀ c ∈ calls ++ [(s, layout)], CallExact c) ↔ ∀ c ∈ calls ++ [(s, layout)], CallRoomy c := by
  simp only [List.forall_mem_append, List.forall_mem_singleton]
  constructor
  · rintro ⟨hcalls, hlast⟩
    obtain ⟨⟨free, hinv⟩, -, hroomy⟩ := hrun.inv (.inl hcalls)
    exact ⟨hroomy, (callExact_iff hinv hsize).mp hlast⟩
  · rintro ⟨hcalls, hlast⟩
    obtain ⟨⟨free, hinv⟩, hexact, -⟩ := hrun.inv (.inr hcalls)
    exact ⟨hexact, (callExact_iff hinv hsize).mpr hlast⟩

/-- The first allocation, of 16 bytes aligned to 16. -/
theorem heap_arithmetic_exact_iff_first : CallExact (freshHeap, layout16) := by
  have hrun : HeapRun ⟨0, fun _ => 0⟩ [] freshHeap := .boot
  refine (heap_arithmetic_exact_iff hrun layout16 (by decide)).mpr ?_ _ List.mem_cons_self
  intro c hc
  obtain rfl := List.mem_singleton.mp hc
  refine ⟨[⟨heapStart, heapSize⟩], (HeapInv.init _).chain, by decide, ?_⟩
  intro b hb
  obtain rfl := List.mem_singleton.mp hb
  decide

/-- `Layout::from_size_align(1, 1 << 47)`. -/
def layoutHuge : Layout := ⟨1, 2 ^ 47, ⟨47, rfl⟩, by decide⟩

/-- The first allocation with that layout returns null, and leaves a free list that begins with a header at address `2 ^ 47`. -/
theorem huge_alignment_wraps : ∃ a, freshHeap.heap.alloc layoutHuge = some (0, a) ∧ a.head = 2 ^ 47 ∧ ¬InHeap (2 ^ 47) ∧
    a.mem (2 ^ 47) = heapStart + heapSize - 2 ^ 47 ∧ ¬CallExact (freshHeap, layoutHuge) := by
  have hsa : sizeAlign layoutHuge = some (2 ^ 47, 2 ^ 47) := by decide
  have halloc : freshHeap.heap.alloc layoutHuge =
      some (0, freshHeap.heap.carve .head ⟨heapStart, heapSize⟩ (2 ^ 47) (2 ^ 47)) := by
    rw [alloc_eq _ hsa, allocInner, allocLoop, if_neg (by decide), if_pos (by decide)]
    rfl
  refine ⟨_, halloc, by decide, by unfold InHeap; decide, by decide, ?_⟩
  rw [callExact_iff (HeapInv.init _) (by decide)]
  rintro ⟨free, hchain, -, hroom⟩
  rw [hchain.unique (HeapInv.init _).chain] at hroom
  exact absurd (hroom _ List.mem_cons_self) (by decide)

end Memory

end GolemKernel
