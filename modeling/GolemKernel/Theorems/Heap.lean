import GolemKernel.Lemmas.HeapList

/-!
# The heap over whole runs

A run of the heap begins with one free block that is the whole region and goes on with allocations, frees of live blocks and
stores by the owners of live blocks. The invariant is that the free list in memory and the live blocks together cover the region
(`HeapInv`). It gives `heap_blocks_partition`, and with the first-fit search it says exactly when an allocation fails
(`alloc_succeeds_iff_splittable`).
-/

namespace GolemKernel

namespace Memory

open LinkedListAllocator

/-- The size a layout takes in the heap; 0 for a layout that `size_align` panics on. -/
def normalisedSize (layout : Layout) : Nat := ((sizeAlign layout).map (·.1)).getD 0

/-- The heap and the blocks its callers hold, each with the layout it was allocated with. -/
structure HeapState where
  heap : LinkedListAllocator
  live : List (Nat × Layout)

namespace HeapState

/-- The addresses the callers hold. -/
def liveBlocks (s : HeapState) : List Extent := s.live.map fun (ptr, layout) => ⟨ptr, normalisedSize layout⟩

/-- The heap after `init`, whatever was in memory before. -/
def boot (a : LinkedListAllocator) : HeapState := ⟨a.init heapStart heapSize, []⟩

end HeapState

/-- One call of the allocator, or a store to a live block. -/
inductive HeapStep (s : HeapState) : HeapState → Prop where
  | alloc (layout : Layout) (ptr : Nat) (a : LinkedListAllocator) (hsize : layout.size ≠ 0) (halign : layout.align ≤ 4096)
      (h : s.heap.alloc layout = some (ptr, a)) : HeapStep s ⟨a, if ptr = 0 then s.live else (ptr, layout) :: s.live⟩
  | dealloc (before after : List (Nat × Layout)) (ptr : Nat) (layout : Layout) (a : LinkedListAllocator)
      (hlive : s.live = before ++ (ptr, layout) :: after) (h : s.heap.dealloc ptr layout = some a) :
      HeapStep s ⟨a, before ++ after⟩
  | write (b : Extent) (addr value : Nat) (hb : b ∈ s.liveBlocks) (hlo : b.addr ≤ addr) (hhi : addr < b.stop) :
      HeapStep s ⟨{ s.heap with mem := Function.update s.heap.mem addr value }, s.live⟩

/-- The states the heap can be in. -/
def HeapReachable (s : HeapState) : Prop := ∃ a, Relation.ReflTransGen HeapStep (HeapState.boot a) s

/-! ## Normalised layouts -/

/-- What `alloc_inner` needs of the size and the alignment it is given. -/
structure Normalised (size align : Nat) : Prop where
  pow : ∃ k, 3 ≤ k ∧ k ≤ 12 ∧ align = 2 ^ k
  granular : 8 ∣ size
  header : 16 ≤ size

/-- What `size_align` gives for a layout of any alignment. -/
structure Requested (layout : Layout) (size align : Nat) : Prop where
  align_eq : align = max layout.align 8
  pow : ∃ k, 3 ≤ k ∧ k ≤ 63 ∧ align = 2 ^ k
  granular : 8 ∣ size
  header : 16 ≤ size
  dvd : layout.align ∣ align
  le_size : layout.size ≤ size
  size_le : size ≤ 2 ^ 63
  align_le : layout.size ≠ 0 → align ≤ size

/-- What `size_align` makes of a layout has room for what was asked for. -/
theorem sizeAlign_requested {layout : Layout} {size align : Nat} (h : sizeAlign layout = some (size, align)) :
    Requested layout size align := by
  unfold sizeAlign Layout.alignTo at h
  split at h
  · rename_i hfits
    simp only [Option.map_some, Option.some.injEq, Prod.mk.injEq, Layout.paddedSize, freeBlockSize] at h
    obtain ⟨rfl, rfl⟩ := h
    obtain ⟨j, hj⟩ := layout.isPow
    obtain ⟨k, hk3, hk⟩ : ∃ k, 3 ≤ k ∧ max layout.align (2 ^ 3) = 2 ^ k := by
      rcases Nat.le_total 3 j with h3 | h3
      · exact ⟨j, h3, by rw [hj, Nat.max_eq_left (Nat.pow_le_pow_right Nat.two_pos h3)]⟩
      · exact ⟨3, Nat.le_refl _, by rw [hj, Nat.max_eq_right (Nat.pow_le_pow_right Nat.two_pos h3)]⟩
    have hdvd : layout.align ∣ 2 ^ k := by
      have hle : layout.align ≤ 2 ^ k := hk ▸ Nat.le_max_left _ _
      rw [hj] at hle ⊢
      exact Nat.pow_dvd_pow 2 ((Nat.pow_le_pow_iff_right Nat.one_lt_two).mp hle)
    have hmax : max layout.align 8 = 2 ^ k := hk
    rw [hk] at hfits ⊢
    have hk63 : k ≤ 63 := (Nat.pow_le_pow_iff_right Nat.one_lt_two).mp (by omega)
    obtain ⟨hdiv, hle, hlt⟩ := alignUp_spec layout.size (k := k) (by omega) (by omega)
    have h8 : 8 ∣ alignUp layout.size (2 ^ k) := (Nat.pow_dvd_pow 2 hk3).trans hdiv
    refine ⟨hmax.symm, ⟨k, hk3, hk63, rfl⟩, by omega, Nat.le_max_right _ _, hdvd, hle.trans (Nat.le_max_left _ _), ?_, ?_⟩
    · exact Nat.max_le.mpr ⟨by omega, by decide⟩
    · intro hsize
      exact (Nat.le_of_dvd (by omega) hdiv).trans (Nat.le_max_left _ _)
  · simp at h

/-- And its size and alignment are of the kind that the free list has. -/
theorem sizeAlign_spec {layout : Layout} {size align : Nat} (halign : layout.align ≤ 4096)
    (h : sizeAlign layout = some (size, align)) : Normalised size align ∧ Requested layout size align := by
  have hr := sizeAlign_requested h
  obtain ⟨k, hk3, -, hk⟩ := hr.pow
  have hle : 2 ^ k ≤ 2 ^ 12 := by
    rw [← hk, hr.align_eq]
    exact Nat.max_le.mpr ⟨halign, by decide⟩
  exact ⟨⟨⟨k, hk3, (Nat.pow_le_pow_iff_right Nat.one_lt_two).mp hle, hk⟩, hr.granular, hr.header⟩, hr⟩

/-! ## The invariant -/

/-- The free list in memory and the live blocks cover the heap region, and are made of whole words and large enough for a
header. -/
structure HeapInv (a : LinkedListAllocator) (free live : List Extent) : Prop where
  chain : Chain a.mem a.head free
  covers : Covers (free ++ live) heapStart (heapStart + heapSize)
  granular : ∀ b ∈ free ++ live, 8 ∣ b.addr ∧ 8 ∣ b.size ∧ 16 ≤ b.size

namespace HeapInv

variable {a : LinkedListAllocator} {free live : List Extent}

/-- The free blocks are in the heap. -/
theorem bounds (h : HeapInv a free live) {b : Extent} (hb : b ∈ free) :
    0xFFFFC00000000000 ≤ b.addr ∧ b.stop ≤ 0xFFFFC00000800000 :=
  h.covers.bounds b (List.mem_append_left _ hb)

/-- The free blocks are apart from each other. -/
theorem apart (h : HeapInv a free live) : free.Pairwise Extent.Apart := (List.pairwise_append.mp h.covers.pairwise).1

/-- A free block has room for its header. -/
theorem header (h : HeapInv a free live) : ∀ b ∈ free, 16 ≤ b.size :=
  fun b hb => (h.granular b (List.mem_append_left _ hb)).2.2

/-- The walk of `alloc_inner` has turns enough for the list. -/
theorem length_lt (h : HeapInv a free live) : free.length < heapSize / freeBlockSize + 1 := by
  have hlen := h.covers.length_mul_le fun b hb => (h.granular b hb).2.2
  simp only [List.length_append, heapSize, freeBlockSize] at hlen ⊢
  omega

/-- An alignment of at most a page is far from the end of the address space. -/
theorem room (h : HeapInv a free live) {size align : Nat} (hn : Normalised size align) {b : Extent} (hb : b ∈ free) :
    b.addr + align ≤ 2 ^ 64 := by
  obtain ⟨k, -, hk, rfl⟩ := hn.pow
  have hbounds := h.bounds hb
  have hle : 2 ^ k ≤ 2 ^ 12 := Nat.pow_le_pow_right Nat.two_pos hk
  simp only [Extent.stop] at hbounds
  omega

section

variable {layout : Layout} {size align : Nat} (hn : Requested layout size align)

include hn

/-- The first aligned address of a block is the least multiple of the alignment from its start on. -/
theorem placed {b : Extent} (hroom : b.addr + align ≤ 2 ^ 64) : Placed align b (alignUp b.addr align) := by
  obtain ⟨k, -, hk, rfl⟩ := hn.pow
  exact placed_alignUp (by omega) hroom

/-- The search takes a block exactly if it can be split at its first aligned address. -/
theorem fits_iff_splits (h : HeapInv a free live) {b : Extent} (hb : b ∈ free) (hroom : b.addr + align ≤ 2 ^ 64) :
    fits size align b = true ↔ Splits size b (alignUp b.addr align) := by
  have hbounds := h.bounds hb
  have hplaced := placed hn hroom
  have hnear := hplaced.near
  exact fits_iff hplaced (by omega) (by omega)

/-- What `alloc_inner` does: null when no block fits, and otherwise the first that fits is split and the allocation joins the
live blocks. -/
theorem allocInner (h : HeapInv a free live) (hroom : ∀ b ∈ free, b.addr + align ≤ 2 ^ 64) :
    (a.allocInner size align = some (0, a) ∧ ∀ b ∈ free, fits size align b = false) ∨
    ∃ b ∈ free, ∃ x a' free', Splits size b x ∧ Placed align b x ∧ a.allocInner size align = some (x, a') ∧
      HeapInv a' free' (⟨x, size⟩ :: live) := by
  rcases allocLoop_spec a size align free .head _ h.chain h.length_lt with hnull | ⟨pre, b, post, rfl, -, hfits, heq⟩
  · exact .inl hnull
  · right
    have hb : b ∈ pre ++ b :: post := by simp
    have hplaced := placed hn (hroom b hb)
    have hsplit := (fits_iff_splits hn h hb (hroom b hb)).mp hfits
    have hbounds := h.bounds hb
    refine ⟨b, hb, _, _, restAfter b (alignUp b.addr align + size) ++ (restBefore b (alignUp b.addr align) ++ (pre ++ post)),
      hsplit, hplaced, heq, ?_, ?_, ?_⟩
    · exact chain_carve h.chain h.header h.apart (by omega) hplaced (by omega) hsplit
    · have hhead : ((pre ++ b :: post) ++ live).Perm (b :: (pre ++ post ++ live)) := by simp
      have hcut := (h.covers.perm hhead).cut (tiles_split hsplit (by have := hn.header; omega))
      refine hcut.perm ?_
      generalize restBefore b _ = front
      generalize restAfter b _ = back
      rw [List.perm_iff_count]
      intro c
      simp only [List.count_append, List.count_cons]
      omega
    · intro c hc
      have hgb := h.granular b (List.mem_append_left _ hb)
      have h8 : 8 ∣ alignUp b.addr align := by
        obtain ⟨k, hk, -, rfl⟩ := hn.pow
        exact (Nat.pow_dvd_pow 2 hk).trans hplaced.aligned
      obtain ⟨hs1, hs2, hs3, hs4⟩ := hsplit
      have hs8 := hn.granular
      simp only [List.mem_append, List.mem_cons] at hc
      rcases hc with (hc | hc | hc) | rfl | hc
      · obtain ⟨hlt, rfl⟩ := mem_restAfter hc
        simp only [Extent.stop] at *
        omega
      · obtain ⟨hlt, rfl⟩ := mem_restBefore hc
        simp only [Extent.stop] at *
        omega
      · exact h.granular c (by simp only [List.mem_append, List.mem_cons]; tauto)
      · exact ⟨h8, hs8, hn.header⟩
      · exact h.granular c (List.mem_append_right _ hc)

end

/-- A block that is freed goes from the live ones to the free ones. -/
theorem dealloc {before after : List Extent} {b : Extent} (h : HeapInv a free (before ++ b :: after)) :
    HeapInv (a.deallocInner b.addr b.size) (b :: free) (before ++ after) := by
  have hperm : (free ++ (before ++ b :: after)).Perm ((b :: free) ++ (before ++ after)) := by
    rw [List.perm_iff_count]
    intro c
    simp only [List.count_append, List.count_cons]
    omega
  have hcovers := h.covers.perm hperm
  have hgranular : ∀ c ∈ (b :: free) ++ (before ++ after), 8 ∣ c.addr ∧ 8 ∣ c.size ∧ 16 ≤ c.size :=
    fun c hc => h.granular c (hperm.mem_iff.mpr hc)
  have hlo : 0xFFFFC00000000000 ≤ b.addr := (hcovers.bounds b (by simp)).1
  have hap := (List.pairwise_append.mp hcovers.pairwise).1
  exact ⟨chain_addFree h.chain (by omega) (hgranular b (by simp)).2.2 h.header (List.pairwise_cons.mp hap).1, hcovers, hgranular⟩

/-- The free list does not see a store to a live block. -/
theorem write (h : HeapInv a free live) {b : Extent} (hb : b ∈ live) {addr : Nat} (hlo : b.addr ≤ addr) (hhi : addr < b.stop)
    (value : Nat) : HeapInv { a with mem := Function.update a.mem addr value } free live := by
  refine ⟨?_, h.covers, h.granular⟩
  have hsep : ∀ c ∈ free, c.addr ≠ addr ∧ c.addr + 8 ≠ addr := by
    intro c hc
    have h1 := (List.pairwise_append.mp h.covers.pairwise).2.2 c hc b hb
    have h2 := h.header c hc
    simp only [Extent.Apart, Extent.stop] at *
    omega
  exact h.chain.congr (fun c hc => Function.update_of_ne (hsep c hc).1 _ _) (fun c hc => Function.update_of_ne (hsep c hc).2 _ _)

/-- At first the heap is one free block. -/
theorem init (a : LinkedListAllocator) : HeapInv (a.init heapStart heapSize) [⟨heapStart, heapSize⟩] [] := by
  refine ⟨?_, ⟨_, List.Perm.refl _, rfl, by decide, rfl⟩, ?_⟩
  · have hnil : Chain a.mem ({ a with head := 0 } : LinkedListAllocator).head [] := rfl
    exact chain_addFree (b := ⟨heapStart, heapSize⟩) hnil (by decide) (by decide) (by simp) (by simp)
  · intro b hb
    simp only [List.append_nil, List.mem_singleton] at hb
    subst hb
    decide

/-- The list in memory is the only one the invariant can be about. -/
theorem free_unique {free' : List Extent} (h : HeapInv a free live) (h' : Chain a.mem a.head free') : HeapInv a free' live := by
  rwa [h'.unique h.chain]

end HeapInv

/-- With the normalised size and alignment, `alloc` is `alloc_inner`. -/
theorem alloc_eq (a : LinkedListAllocator) {layout : Layout} {size align : Nat} (hsa : sizeAlign layout = some (size, align)) :
    a.alloc layout = a.allocInner size align := by
  rw [LinkedListAllocator.alloc, hsa, Option.bind_some]

/-- An allocation with a layout, from the invariant: the result of `alloc` and the invariant after it. -/
theorem alloc_spec {a : LinkedListAllocator} {free live : List Extent} (h : HeapInv a free live) {layout : Layout} {size align : Nat}
    (hsa : sizeAlign layout = some (size, align)) (hroom : ∀ b ∈ free, b.addr + align ≤ 2 ^ 64) :
    (a.alloc layout = some (0, a) ∧ ∀ b ∈ free, fits size align b = false) ∨
    ∃ b ∈ free, ∃ x a' free', x ≠ 0 ∧ Splits size b x ∧ Placed align b x ∧ a.alloc layout = some (x, a') ∧
      HeapInv a' free' (⟨x, size⟩ :: live) := by
  rw [alloc_eq a hsa]
  rcases h.allocInner (sizeAlign_requested hsa) hroom with hnull | ⟨b, hb, x, a', free', hsplit, hplaced, heq, hinv⟩
  · exact .inl hnull
  · have hlo := (h.bounds hb).1
    have hle := hsplit.addr_le
    exact .inr ⟨b, hb, x, a', free', by omega, hsplit, hplaced, heq, hinv⟩

/-- The size of a block is the one that `size_align` gives. -/
theorem normalisedSize_eq {layout : Layout} {size align : Nat} (h : sizeAlign layout = some (size, align)) :
    normalisedSize layout = size := by
  simp [normalisedSize, h]

/-- An allocation near which nothing wraps keeps the invariant. -/
theorem alloc_inv {s : HeapState} {free : List Extent} (h : HeapInv s.heap free s.liveBlocks) {layout : Layout} {size align : Nat}
    (hsa : sizeAlign layout = some (size, align)) (hroom : ∀ b ∈ free, b.addr + align ≤ 2 ^ 64) {ptr : Nat}
    {a : LinkedListAllocator} (heq : s.heap.alloc layout = some (ptr, a)) :
    ∃ free', HeapInv a free' (HeapState.liveBlocks ⟨a, if ptr = 0 then s.live else (ptr, layout) :: s.live⟩) := by
  rcases alloc_spec h hsa hroom with ⟨hnull, -⟩ | ⟨b, hb, x, a', free', hx, -, -, hsome, hinv⟩
  · obtain ⟨rfl, rfl⟩ := Prod.mk.inj (Option.some.inj (heq.symm.trans hnull))
    exact ⟨free, h⟩
  · obtain ⟨rfl, rfl⟩ := Prod.mk.inj (Option.some.inj (heq.symm.trans hsome))
    refine ⟨free', ?_⟩
    simpa [HeapState.liveBlocks, hx, normalisedSize_eq hsa] using hinv

/-- Every step keeps the invariant. -/
theorem HeapStep.inv {s s' : HeapState} (hstep : HeapStep s s') {free : List Extent}
    (h : HeapInv s.heap free s.liveBlocks) : ∃ free', HeapInv s'.heap free' s'.liveBlocks := by
  cases hstep with
  | alloc layout ptr a hsize halign heq =>
    obtain ⟨⟨size, align⟩, hsa, -⟩ := Option.bind_eq_some_iff.mp heq
    exact alloc_inv h hsa (fun b hb => h.room (sizeAlign_spec halign hsa).1 hb) heq
  | dealloc before after ptr layout a hlive heq =>
    obtain ⟨⟨size, align⟩, hsa, rfl⟩ := Option.map_eq_some_iff.mp heq
    simp only [HeapState.liveBlocks, hlive, List.map_append, List.map_cons, normalisedSize_eq hsa] at h
    refine ⟨⟨ptr, size⟩ :: free, ?_⟩
    simpa [HeapState.liveBlocks] using h.dealloc
  | write b addr value hb hlo hhi => exact ⟨free, h.write hb hlo hhi value⟩

/-- At any time the free list and the live blocks are as the invariant says. -/
theorem HeapReachable.inv {s : HeapState} (h : HeapReachable s) : ∃ free, HeapInv s.heap free s.liveBlocks := by
  obtain ⟨a, hrun⟩ := h
  induction hrun with
  | refl => exact ⟨_, HeapInv.init a⟩
  | tail _ hstep ih =>
    obtain ⟨free, hinv⟩ := ih
    exact hstep.inv hinv

/-! ## Safety and conservation -/

/-- In every reachable state the list in memory and the live blocks are apart from each other, lie in the heap region, add up to
it and leave no address of it out; the free blocks are made of whole words and have room for a header. An allocation returns
(`size_align` panics for layouts near the largest size only), and a pointer it returns is aligned, has the size asked for and lay
in one free block. -/
theorem heap_blocks_partition (s : HeapState) (hs : HeapReachable s) :
    ∃ free, Chain s.heap.mem s.heap.head free ∧
      (free ++ s.liveBlocks).Pairwise Extent.Apart ∧
      (∀ b ∈ free ++ s.liveBlocks, heapStart ≤ b.addr ∧ b.stop ≤ heapStart + heapSize) ∧
      ((free ++ s.liveBlocks).map (·.size)).sum = heapSize ∧
      (∀ x, heapStart ≤ x → x < heapStart + heapSize → ∃ b ∈ free ++ s.liveBlocks, b.addr ≤ x ∧ x < b.stop) ∧
      (∀ b ∈ free, 8 ∣ b.addr ∧ 8 ∣ b.size ∧ 16 ≤ b.size) ∧
      ∀ layout : Layout, layout.size ≠ 0 → layout.align ≤ 4096 →
        ((sizeAlign layout).isSome → (s.heap.alloc layout).isSome) ∧
        ∀ ptr a, s.heap.alloc layout = some (ptr, a) → ptr ≠ 0 →
          layout.align ∣ ptr ∧ layout.size ≤ normalisedSize layout ∧
          ∃ b ∈ free, b.addr ≤ ptr ∧ ptr + normalisedSize layout ≤ b.stop := by
  obtain ⟨free, h⟩ := hs.inv
  refine ⟨free, h.chain, h.covers.pairwise, h.covers.bounds, ?_, fun x hlo hhi => h.covers.covered hlo hhi,
    fun b hb => h.granular b (List.mem_append_left _ hb), fun layout _ halign => ⟨fun hsome => ?_, fun ptr a heq hptr => ?_⟩⟩
  · have := h.covers.add_sum
    omega
  · obtain ⟨⟨size, align⟩, hsa⟩ := Option.isSome_iff_exists.mp hsome
    rcases alloc_spec h hsa (fun b hb => h.room (sizeAlign_spec halign hsa).1 hb) with
      ⟨hnull, -⟩ | ⟨b, -, x, a', free', -, -, -, hret, -⟩
    · rw [hnull]
      rfl
    · rw [hret]
      rfl
  · obtain ⟨⟨size, align⟩, hsa, -⟩ := Option.bind_eq_some_iff.mp heq
    rcases alloc_spec h hsa (fun b hb => h.room (sizeAlign_spec halign hsa).1 hb) with
      ⟨hnull, -⟩ | ⟨b, hb, x, a', free', -, hsplit, hplaced, hret, -⟩
    · exact absurd (Prod.mk.inj (Option.some.inj (heq.symm.trans hnull))).1 hptr
    · obtain ⟨rfl, -⟩ := Prod.mk.inj (Option.some.inj (heq.symm.trans hret))
      have hr := sizeAlign_requested hsa
      rw [normalisedSize_eq hsa]
      exact ⟨hr.dvd.trans hplaced.aligned, hr.le_size, b, hb, hsplit.addr_le, hsplit.le_stop⟩

/-- A heap that was just initialised is reachable. -/
theorem boot_reachable (a : LinkedListAllocator) : HeapReachable (HeapState.boot a) := ⟨a, .refl⟩

/-- `Layout::from_size_align(24, 8)`. -/
def layout24 : Layout := ⟨24, 8, ⟨3, rfl⟩, by decide⟩

/-- A fresh heap, over memory that holds zeros. -/
def freshHeap : HeapState := HeapState.boot ⟨0, fun _ => 0⟩

/-- The fresh heap after a first allocation of 24 bytes aligned to 8. -/
def after24 : HeapState :=
  ⟨freshHeap.heap.carve .head ⟨heapStart, heapSize⟩ 24 8, [(heapStart, layout24)]⟩

theorem sizeAlign_layout24 : sizeAlign layout24 = some (24, 8) := by decide

theorem alloc_freshHeap : freshHeap.heap.alloc layout24 = some (heapStart, after24.heap) := by
  rw [alloc_eq _ sizeAlign_layout24, allocInner, allocLoop, if_neg (by decide), if_pos (by decide)]
  rfl

theorem after24_reachable : HeapReachable after24 :=
  ⟨_, .single (.alloc layout24 heapStart _ (by decide) (by decide) alloc_freshHeap)⟩

/-- The next block is right behind the first. -/
theorem alloc_after24 : after24.heap.alloc layout24 =
    some (heapStart + 24, after24.heap.carve .head ⟨heapStart + 24, heapSize - 24⟩ 24 8) := by
  rw [alloc_eq _ sizeAlign_layout24, allocInner, allocLoop, if_neg (by decide), if_pos (by decide)]
  rfl

/-- Then another one, after which the first block is given back. -/
def afterReturn : HeapState :=
  ⟨(after24.heap.carve .head ⟨heapStart + 24, heapSize - 24⟩ 24 8).addFree heapStart 24, [(heapStart + 24, layout24)]⟩

theorem afterReturn_reachable : HeapReachable afterReturn := by
  obtain ⟨a, hrun⟩ := after24_reachable
  have hdealloc : LinkedListAllocator.dealloc (after24.heap.carve .head ⟨heapStart + 24, heapSize - 24⟩ 24 8) heapStart layout24 =
      some afterReturn.heap := by
    rw [LinkedListAllocator.dealloc, sizeAlign_layout24]
    rfl
  exact ⟨a, (hrun.tail (.alloc layout24 (heapStart + 24) _ (by decide) (by decide) alloc_after24)).tail
    (.dealloc [(heapStart + 24, layout24)] [] heapStart layout24 _ rfl hdealloc)⟩

/-- The block that was given back is before the one that is out, and the rest of the heap behind it. -/
theorem heap_blocks_partition_returned :
    HeapReachable afterReturn ∧ afterReturn.liveBlocks = [⟨heapStart + 24, 24⟩] ∧
      ∃ free, free = [⟨heapStart, 24⟩, ⟨heapStart + 48, heapSize - 48⟩] ∧ Chain afterReturn.heap.mem afterReturn.heap.head free ∧
        (free ++ afterReturn.liveBlocks).Pairwise Extent.Apart ∧ ((free ++ afterReturn.liveBlocks).map (·.size)).sum = heapSize ∧
        ∀ ptr a, afterReturn.heap.alloc layout24 = some (ptr, a) → ptr ≠ 0 → ∃ b ∈ free, b.addr ≤ ptr ∧ ptr + 24 ≤ b.stop := by
  obtain ⟨free, hchain, hapart, -, hsum, -, -, halloc⟩ := heap_blocks_partition _ afterReturn_reachable
  have hfree : Chain afterReturn.heap.mem afterReturn.heap.head [⟨heapStart, 24⟩, ⟨heapStart + 48, heapSize - 48⟩] := by
    have hlink : afterReturn.heap.mem (heapStart + 48 + 8) = 0 := by decide
    exact ⟨by decide, by decide, by decide, by decide, by decide, by decide, hlink⟩
  refine ⟨afterReturn_reachable, rfl, free, hchain.unique hfree, hchain, hapart, hsum, ?_⟩
  intro ptr a heq hptr
  exact ((halloc layout24 (by decide) (by decide)).2 ptr a heq hptr).2.2

/-! ## When an allocation fails -/

/-- The block has an aligned range of the size, with nothing or room for a header left on either side of it. -/
def Splittable (size align : Nat) (b : Extent) : Prop := ∃ x, align ∣ x ∧ Splits size b x

/-- The block begins eight bytes below a multiple of an alignment larger than that, so that its first aligned address leaves
eight bytes before it, which have no room for a header. -/
def Misplaced (align : Nat) (b : Extent) : Prop := 16 ≤ align ∧ align ∣ b.addr + 8

/-- The first aligned address of a block is the best one for the search, unless the block is misplaced. -/
theorem splits_first_iff {size align : Nat} (hn : Normalised size align) {b : Extent} {x : Nat} (hx : Placed align b x)
    (hb : 8 ∣ b.addr) : Splits size b x ↔ Splittable size align b ∧ ¬Misplaced align b := by
  obtain ⟨k, hk3, hk12, rfl⟩ := hn.pow
  have hx8 : 8 ∣ x := (Nat.pow_dvd_pow 2 hk3).trans hx.aligned
  constructor
  · intro hsplit
    refine ⟨⟨x, hx.aligned, hsplit⟩, fun ⟨h16, hdvd⟩ => ?_⟩
    have h1 := hx.least hdvd (by omega)
    have h2 := hsplit.front
    have h3 : x ≠ b.addr := by
      rintro rfl
      have := Nat.le_of_dvd (by decide : 0 < 8) ((Nat.dvd_add_right hx.aligned).mp hdvd)
      omega
    omega
  · rintro ⟨⟨y, hy, h1, h2, h3, h4⟩, hmis⟩
    obtain ⟨hle, hnext⟩ := hx.least hy h1
    have h16 : 2 ^ k = 8 ∨ 16 ≤ 2 ^ k := by
      rcases Nat.eq_or_lt_of_le hk3 with rfl | h4
      · exact .inl rfl
      · exact .inr (Nat.pow_le_pow_right Nat.two_pos (h4 : 4 ≤ k))
    have hs8 := hn.granular
    refine ⟨hx.addr_le, by omega, ?_, ?_⟩
    · rcases Nat.lt_or_ge x (b.addr + 16) with hlt | hge
      · left
        have hnear := hx.near
        have hle' := hx.addr_le
        by_contra hne
        have hxb : x = b.addr + 8 := by omega
        exact hmis ⟨by omega, hxb ▸ hx.aligned⟩
      · exact .inr hge
    · rcases Nat.eq_or_lt_of_le hle with rfl | hlt
      · exact h4
      · have hstep := hnext (by omega)
        have hnear := hx.near
        have hle' := hx.addr_le
        omega

/-- The search finds a block exactly when some block that can be split is not misplaced. -/
theorem alloc_ne_null_iff {a : LinkedListAllocator} {free live : List Extent} (h : HeapInv a free live) {layout : Layout}
    (halign : layout.align ≤ 4096) {size align : Nat} (hsa : sizeAlign layout = some (size, align)) :
    (∃ ptr a', a.alloc layout = some (ptr, a') ∧ ptr ≠ 0) ↔ ∃ b ∈ free, Splittable size align b ∧ ¬Misplaced align b := by
  obtain ⟨hn, hr⟩ := sizeAlign_spec halign hsa
  have hroom : ∀ b ∈ free, b.addr + align ≤ 2 ^ 64 := fun b hb => h.room hn hb
  have hsplit : ∀ b ∈ free, fits size align b = true ↔ Splittable size align b ∧ ¬Misplaced align b := by
    intro b hb
    rw [HeapInv.fits_iff_splits hr h hb (hroom b hb)]
    exact splits_first_iff hn (HeapInv.placed hr (hroom b hb)) (h.granular b (List.mem_append_left _ hb)).1
  rcases alloc_spec h hsa hroom with ⟨hnull, hnone⟩ | ⟨b, hb, x, a', free', hx, hs, hp, hret, -⟩
  · constructor
    · rintro ⟨ptr, a', heq, hptr⟩
      exact absurd (Prod.mk.inj (Option.some.inj (heq.symm.trans hnull))).1 hptr
    · rintro ⟨b, hb, hsp⟩
      exact absurd ((hsplit b hb).mpr hsp) (by rw [hnone b hb]; decide)
  · refine iff_of_true ⟨x, a', hret, hx⟩ ⟨b, hb, (hsplit b hb).mp ?_⟩
    rw [HeapInv.fits_iff_splits hr h hb (hroom b hb), hp.start]
    exact hs

/-- `alloc_inner` looks at the first aligned address of each block only. For a layout it is given in a reachable state, it
returns a block whenever some free block can be split legally, exactly when the blocks that can be split are not all
misplaced. -/
theorem alloc_succeeds_iff_splittable (s : HeapState) (hs : HeapReachable s) (free : List Extent)
    (hfree : Chain s.heap.mem s.heap.head free) (layout : Layout) (halign : layout.align ≤ 4096)
    (size align : Nat) (hsa : sizeAlign layout = some (size, align)) :
    ((∃ b ∈ free, Splittable size align b) → ∃ ptr a, s.heap.alloc layout = some (ptr, a) ∧ ptr ≠ 0) ↔
      ((∃ b ∈ free, Splittable size align b) → ∃ b ∈ free, Splittable size align b ∧ ¬Misplaced align b) := by
  obtain ⟨free', h⟩ := hs.inv
  rw [alloc_ne_null_iff (h.free_unique hfree) halign hsa]

/-- `Layout::from_size_align(16, 16)`. -/
def layout16 : Layout := ⟨16, 16, ⟨4, rfl⟩, by decide⟩

theorem after24_free : Chain after24.heap.mem after24.heap.head [⟨heapStart + 24, heapSize - 24⟩] := by
  have hlink : after24.heap.mem (after24.heap.head + 8) = 0 := by decide
  exact ⟨by decide, by decide, by decide, hlink⟩

/-- A heap of eight mebibytes with 24 bytes in use, one free block that can be split for 16 bytes aligned to 16, and the null
pointer for that layout. -/
theorem alloc_null_with_splittable_block :
    HeapReachable after24 ∧ Chain after24.heap.mem after24.heap.head [⟨heapStart + 24, heapSize - 24⟩] ∧
      sizeAlign layout16 = some (16, 16) ∧ Splittable 16 16 ⟨heapStart + 24, heapSize - 24⟩ ∧
      after24.heap.alloc layout16 = some (0, after24.heap) := by
  have hsa : sizeAlign layout16 = some (16, 16) := by decide
  refine ⟨after24_reachable, after24_free, hsa, ⟨heapStart + 48, by decide, by decide, by decide, by decide, by decide⟩, ?_⟩
  obtain ⟨free, h⟩ := after24_reachable.inv
  have hinv := h.free_unique after24_free
  have hroom : ∀ b ∈ [(⟨heapStart + 24, heapSize - 24⟩ : Extent)], b.addr + 16 ≤ 2 ^ 64 := fun b hb =>
    hinv.room (sizeAlign_spec (by decide) hsa).1 hb
  rcases alloc_spec hinv hsa hroom with ⟨hnull, -⟩ | ⟨b, hb, x, a, free', -, hsplit, hx, -⟩
  · exact hnull
  · obtain rfl := List.mem_singleton.mp hb
    have hstart : x = heapStart + 32 := by
      rw [← hx.start]
      decide
    subst hstart
    exact absurd hsplit.front (by decide)

theorem alloc_succeeds_fresh :
    HeapReachable freshHeap ∧ Chain freshHeap.heap.mem freshHeap.heap.head [⟨heapStart, heapSize⟩] ∧
      sizeAlign layout16 = some (16, 16) ∧ ∃ ptr a, freshHeap.heap.alloc layout16 = some (ptr, a) ∧ ptr ≠ 0 := by
  have hs : HeapReachable freshHeap := boot_reachable _
  have hfree : Chain freshHeap.heap.mem freshHeap.heap.head [⟨heapStart, heapSize⟩] := (HeapInv.init _).chain
  have hsa : sizeAlign layout16 = some (16, 16) := by decide
  have hsplit : Splittable 16 16 ⟨heapStart, heapSize⟩ := ⟨heapStart, by decide, by decide, by decide, by decide, by decide⟩
  refine ⟨hs, hfree, hsa, ?_⟩
  refine (alloc_succeeds_iff_splittable freshHeap hs _ hfree layout16 (by decide) 16 16 hsa).mpr (fun _ => ?_)
    ⟨_, List.mem_singleton.mpr rfl, hsplit⟩
  exact ⟨_, List.mem_singleton.mpr rfl, hsplit, fun h => absurd h.2 (by decide)⟩

end Memory

end GolemKernel
