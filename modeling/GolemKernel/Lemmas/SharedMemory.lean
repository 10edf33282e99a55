import GolemKernel.Memory.Shared
import GolemKernel.Theorems.Allocator
import GolemKernel.Theorems.Heap

/-!
# The methods of the allocators, access by access

Alone, a body does what its method does as a whole (`run_body`). The bodies of the heap reach
the headers of free blocks and of the block that is freed, and no other memory: stores to the blocks that are live are not in their way
(`clear_alloc`, `clear_dealloc`).
-/

namespace GolemKernel

namespace Memory

open Concurrent SpinLock

/-! ## Frames -/

namespace BitmapFrameAllocator

variable (a : BitmapFrameAllocator)

/-- A word of the bitmap is read. -/
theorem access_word {i : Nat} (hi : i < bitmapWords) : access (.word i) a = some (a.bitmap i, a) := by
  rw [access, if_pos hi]

/-- A word of the bitmap is stored. -/
theorem access_setWord {i : Nat} (hi : i < bitmapWords) (word : BitVec 64) :
    access (.setWord i word) a = some ((), { a with bitmap := Function.update a.bitmap i word }) := by
  rw [access, if_pos hi]

/-- Alone, the accesses of the search find what the search finds. -/
theorem run_searchBody (left offset : Nat) : (searchBody left offset).run access a = some (a.search left offset) := by
  induction left generalizing offset with
  | zero => rfl
  | succ left ih =>
    have hi : (a.nextSearch + offset) % bitmapWords < bitmapWords := Nat.mod_lt _ (by decide)
    have hnext : access .nextSearch a = some (a.nextSearch, a) := rfl
    rw [searchBody, search, Prog.run_call_some hnext, Prog.run_call_some (access_word a hi)]
    by_cases hfull : a.bitmap ((a.nextSearch + offset) % bitmapWords) ≠ BitVec.allOnes 64
    · simp only [if_pos hfull]
      rw [Prog.run_call_some (access_setWord a hi _)]
      rfl
    · simp only [if_neg hfull]
      exact ih (offset + 1)

/-- Alone, the accesses of `allocate_frame` do what it does. -/
theorem run_allocateFrameBody : allocateFrameBody.run access a = some a.allocateFrame := by
  have hfree : access .freeFrames a = some (a.freeFrames, a) := rfl
  rw [allocateFrameBody, Prog.run_call_some hfree, allocateFrame]
  split
  · rfl
  · exact run_searchBody a bitmapWords 0

/-- Alone, the accesses of `mark_free` do what it does. -/
theorem run_markFreeBody (frame : Frame) : (markFreeBody frame).run access a = some ((), a.markFree frame) := by
  unfold markFreeBody markFree
  by_cases hmax : maxFrames ≤ frame.number
  · simp only [if_pos hmax]
    rfl
  · have hword : frame.number / 64 < bitmapWords := by
      have hle : bitmapWords * 64 = maxFrames := by decide
      omega
    simp only [if_neg hmax]
    rw [Prog.run_call_some (access_word a hword)]
    by_cases hset : a.bitmap (frame.number / 64) &&& 1#64 <<< (frame.number % 64) ≠ 0
    · simp only [if_pos hset]
      rw [Prog.run_call_some (access_word a hword), Prog.run_call_some (access_setWord a hword _)]
      rfl
    · simp only [if_neg hset]
      rfl

/-- Alone, the accesses of `deallocate_frame` do what it does. -/
theorem run_deallocateFrameBody (frame : Frame) :
    (deallocateFrameBody frame).run access a = some ((), a.deallocateFrame frame) := by
  rw [deallocateFrameBody, Prog.run_bind, run_markFreeBody, Option.bind_some, deallocateFrame]
  dsimp only
  split <;> rfl

end BitmapFrameAllocator

/-! ## The heap -/

namespace LinkedListAllocator

variable (a : LinkedListAllocator)

/-- Alone, the accesses of `add_free` do what it does. -/
theorem run_addFreeBody (addr size : Nat) : (addFreeBody addr size).run access a = some ((), a.addFree addr size) := rfl

/-- What is left of a block is put in the list, unless it is empty. -/
theorem run_republishBody (addr size : Nat) :
    (republishBody addr size).run access a = some ((), if 0 < size then a.addFree addr size else a) := by
  unfold republishBody
  split
  · exact run_addFreeBody a addr size
  · rfl

/-- Alone, the accesses that take a block out of a region do what `carve` does. -/
theorem run_carveBody (prev : Slot) (region : Extent) (size align : Nat) :
    (carveBody prev region size align).run access a = some (alignUp region.addr align, a.carve prev region size align) := by
  have hload : access (.load (.next region.addr)) a = some (a.mem (nextField region.addr), a) := rfl
  have hstore : access (.store prev (a.mem (nextField region.addr))) a = some ((), a.store (a.mem (nextField region.addr)) prev) := rfl
  rw [carveBody, Prog.run_call_some hload, Prog.run_call_some hstore, Prog.run_bind, run_republishBody, Option.bind_some]
  dsimp only
  rw [Prog.run_bind, run_republishBody]
  rfl

/-- Alone, the accesses of the walk along the free list do what its loop does. -/
theorem run_walkBody (size align turns : Nat) (prev : Slot) :
    (walkBody size align turns prev).run access a = allocLoop size align turns prev a := by
  induction turns generalizing prev with
  | zero => rfl
  | succ turns ih =>
    have hload : access (.load prev) a = some (a.load prev, a) := rfl
    have hsize : access (.size (a.load prev)) a = some (a.mem (a.load prev), a) := rfl
    rw [walkBody, allocLoop, Prog.run_call_some hload]
    by_cases hnull : a.load prev = 0
    · simp only [if_pos hnull]
      rfl
    · simp only [if_neg hnull]
      rw [Prog.run_call_some hload, Prog.run_call_some hsize]
      split
      · exact run_carveBody a prev _ size align
      · exact ih (.next (a.load prev))

/-- Alone, the accesses of `alloc` do what it does. -/
theorem run_alloc (layout : Layout) : (allocBody layout).run access a = a.alloc layout := by
  unfold allocBody alloc
  cases hsa : sizeAlign layout with
  | none => rfl
  | some r => exact run_walkBody a r.1 r.2 _ .head

/-- Alone, the accesses of `dealloc` do what it does. -/
theorem run_dealloc (ptr : Nat) (layout : Layout) :
    (deallocBody ptr layout).run access a = (a.dealloc ptr layout).map fun a => ((), a) := by
  unfold deallocBody dealloc
  cases hsa : sizeAlign layout with
  | none => rfl
  | some r => rfl

end LinkedListAllocator

/-- Alone, a body does what its method does as a whole. -/
theorem run_body (c : Method) (a : c.lock.Value) : c.body.run c.lock.access a = c.whole a := by
  cases c with
  | allocFrame => exact BitmapFrameAllocator.run_allocateFrameBody a
  | deallocFrame frame => exact BitmapFrameAllocator.run_deallocateFrameBody a frame
  | stats => rfl
  | alloc layout => exact LinkedListAllocator.run_alloc a layout
  | dealloc ptr layout => exact LinkedListAllocator.run_dealloc a ptr layout

/-! ## Stores to live blocks -/

namespace LinkedListAllocator

/-- Memory with other words in some places. -/
@[simps]
def overlay (words : Nat → Option Nat) (a : LinkedListAllocator) : LinkedListAllocator where
  head := a.head
  mem := fun x => (words x).getD (a.mem x)

/-- The changes of memory in some places. -/
def overlays (X : Set Nat) : Set (LinkedListAllocator → LinkedListAllocator) :=
  { f | ∃ words, f = overlay words ∧ ∀ x, words x ≠ none → x ∈ X }

/-- Stores to words of a set one after another are such stores. -/
theorem overlays_comp {X : Set Nat} : ∀ f ∈ overlays X, ∀ f' ∈ overlays X, f' ∘ f ∈ overlays X := by
  rintro _ ⟨words, rfl, hwords⟩ _ ⟨words', rfl, hwords'⟩
  refine ⟨fun x => (words' x).or (words x), ?_, ?_⟩
  · funext a
    simp only [Function.comp_apply, overlay, LinkedListAllocator.mk.injEq, true_and]
    funext x
    cases words' x <;> rfl
  · intro x hx
    cases hw : words' x with
    | none =>
      exact hwords x (by simpa [hw] using hx)
    | some v => exact hwords' x (by simp [hw])

/-- A store to a word of the set. -/
theorem update_mem_overlays {X : Set Nat} {x : Nat} (hx : x ∈ X) (value : Nat) :
    (fun a : LinkedListAllocator => { a with mem := Function.update a.mem x value }) ∈ overlays X := by
  refine ⟨Function.update (fun _ => none) x (some value), ?_, ?_⟩
  · funext a
    simp only [overlay, LinkedListAllocator.mk.injEq, true_and]
    funext y
    by_cases hy : y = x
    · subst hy
      simp
    · simp [hy]
  · intro y hy
    by_cases hyx : y = x
    · exact hyx ▸ hx
    · simp [hyx] at hy

end LinkedListAllocator

/-- The word of memory that an access is to. -/
def HeapAccess.word? : HeapAccess → Option Nat
  | load (.next block) | store (.next block) _ => some (LinkedListAllocator.nextField block)
  | size block | setSize block _ => some block
  | load .head | store .head _ | diverge => none

namespace LinkedListAllocator

variable {X : Set Nat}

/-- An access to a word outside the set does not see stores to words of it, nor does it undo them. -/
theorem access_overlay (c : HeapAccess) (hc : ∀ x ∈ c.word?, x ∉ X) (a : LinkedListAllocator) :
    ∀ f ∈ overlays X, access c (f a) = (access c a).map fun r => (r.1, f r.2) := by
  rintro _ ⟨words, rfl, hwords⟩
  have hnone : ∀ x ∈ c.word?, words x = none := fun x hx => by_contra fun hw => hc x hx (hwords x hw)
  -- a store to another word and the overlay can be made in either order
  have hupdate : ∀ x value, words x = none →
      Function.update (fun y => (words y).getD (a.mem y)) x value = fun y => (words y).getD (Function.update a.mem x value y) := by
    intro x value hx
    funext y
    by_cases hy : y = x
    · subst hy
      simp [hx]
    · simp [hy]
  cases c with
  | load slot =>
    cases slot with
    | head => rfl
    | next block => simp [access, load, hnone _ (by rfl)]
  | store slot value =>
    cases slot with
    | head => rfl
    | next block => simp [access, store, overlay, hupdate _ value (hnone _ (by rfl))]
  | size block => simp [access, hnone _ (by rfl)]
  | setSize block value => simp [access, overlay, hupdate _ value (hnone _ (by rfl))]
  | diverge => rfl

/-- Nothing is in the way of a body whose accesses are elsewhere. -/
theorem clear_call {α : Type} {c : HeapAccess} {next : c.Result → Body α} {a : LinkedListAllocator} (hc : ∀ x ∈ c.word?, x ∉ X)
    (hnext : ∀ r a', access c a = some (r, a') → Clear access (overlays X) (next r) a') :
    Clear access (overlays X) (.call c next) a :=
  ⟨access_overlay c hc a, hnext⟩

/-- Putting a block in the list is clear of stores that miss its header. -/
theorem clear_addFreeBody (a : LinkedListAllocator) {addr : Nat} (size : Nat) (haddr : addr ∉ X) (hnext : nextField addr ∉ X) :
    Clear access (overlays X) (addFreeBody addr size) a := by
  refine clear_call (by rintro x ⟨⟩; exact haddr) fun _ _ _ => ?_
  refine clear_call (by rintro x ⟨⟩) fun _ _ _ => ?_
  refine clear_call (by rintro x ⟨⟩; exact hnext) fun _ _ _ => ?_
  exact clear_call (by rintro x ⟨⟩) fun _ _ _ => trivial

/-- A slot is not among these words. -/
def Slot.Off (X : Set Nat) : Slot → Prop
  | .head => True
  | .next block => nextField block ∉ X

/-- The header of a block is not among these words. -/
def HeaderOff (X : Set Nat) (addr : Nat) : Prop := addr ∉ X ∧ nextField addr ∉ X

/-- So is putting in what is left of a block. -/
theorem clear_republishBody (a : LinkedListAllocator) {addr size : Nat} (h : 0 < size → HeaderOff X addr) :
    Clear access (overlays X) (republishBody addr size) a := by
  unfold republishBody
  split
  · rename_i hpos
    exact clear_addFreeBody a size (h hpos).1 (h hpos).2
  · trivial

/-- Taking a block out is clear of stores that miss the three headers it touches. -/
theorem clear_carveBody (a : LinkedListAllocator) {prev : Slot} {region : Extent} {size align : Nat} (hprev : Slot.Off X prev)
    (hregion : HeaderOff X region.addr)
    (hexcess : 0 < region.stop % 2 ^ 64 - (alignUp region.addr align + size) → HeaderOff X (alignUp region.addr align + size)) :
    Clear access (overlays X) (carveBody prev region size align) a := by
  refine clear_call (by rintro x ⟨⟩; exact hregion.2) fun next _ _ => ?_
  refine clear_call ?_ fun _ a' _ => ?_
  · cases prev with
    | head => rintro x ⟨⟩
    | next block => rintro x ⟨⟩; exact hprev
  · refine Clear.bind (clear_republishBody a' fun _ => hregion) fun _ a' => ?_
    exact Clear.bind (clear_republishBody a' hexcess) fun _ _ => trivial

/-- The walk reaches the headers of the blocks of the list, and the end of the one that it takes. -/
theorem clear_walkBody {a : LinkedListAllocator} {size align : Nat} {l : List Extent} {prev : Slot} (turns : Nat)
    (hchain : Chain a.mem (a.load prev) l) (hprev : Slot.Off X prev) (hheaders : ∀ b ∈ l, HeaderOff X b.addr)
    (hexcess : ∀ b ∈ l, fits size align b = true → 0 < b.stop % 2 ^ 64 - (alignUp b.addr align + size) →
      HeaderOff X (alignUp b.addr align + size)) :
    Clear access (overlays X) (walkBody size align turns prev) a := by
  have hslot : ∀ x ∈ (HeapAccess.load prev).word?, x ∉ X := by
    cases prev with
    | head => rintro x ⟨⟩
    | next block => rintro x ⟨⟩; exact hprev
  induction turns generalizing l prev with
  | zero => exact clear_call (by rintro x ⟨⟩) fun r => r.elim
  | succ turns ih =>
    refine clear_call hslot ?_
    rintro _ _ ⟨⟩
    by_cases hnull : a.load prev = 0
    · rw [if_pos hnull]
      trivial
    · rw [if_neg hnull]
      cases l with
      | nil => exact absurd hchain hnull
      | cons b l =>
        obtain ⟨hload, -, hsize, hrest⟩ := hchain
        have hblock : (⟨a.load prev, a.mem (a.load prev)⟩ : Extent) = b := by rw [hsize, hload]
        refine clear_call hslot ?_
        rintro _ _ ⟨⟩
        have hheader := hheaders b List.mem_cons_self
        refine clear_call (by rintro x ⟨⟩; rw [hload]; exact hheader.1) ?_
        rintro _ _ ⟨⟩
        rw [hblock]
        split
        · rename_i hfits
          exact clear_carveBody a hprev hheader (hexcess b List.mem_cons_self hfits)
        · rw [hload] at hrest ⊢
          refine ih (l := l) hrest hheader.2 (fun c hc => hheaders c (List.mem_cons_of_mem _ hc))
            (fun c hc => hexcess c (List.mem_cons_of_mem _ hc)) ?_
          rintro x ⟨⟩
          exact hheader.2

end LinkedListAllocator

open LinkedListAllocator

/-- The words of these blocks. -/
def wordsOf (blocks : List Extent) : Set Nat := { x | ∃ b ∈ blocks, b.addr ≤ x ∧ x < b.stop }

/-- The header of a block is off all blocks that are apart from it. -/
theorem headerOff_of_apart {blocks : List Extent} {addr size : Nat} (hsize : 16 ≤ size)
    (hapart : ∀ b ∈ blocks, Extent.Apart ⟨addr, size⟩ b) : HeaderOff (wordsOf blocks) addr := by
  have hoff : ∀ x, addr ≤ x → x < addr + size → x ∉ wordsOf blocks := by
    rintro x hlo hhi ⟨b, hb, hblo, hbhi⟩
    have := hapart b hb
    simp only [Extent.Apart, Extent.stop] at this hbhi
    omega
  exact ⟨hoff addr (by omega) (by omega), hoff (nextField addr) (by simp [nextField]) (by simp only [nextField]; omega)⟩

section

variable {a : LinkedListAllocator} {free live : List Extent}

/-- Stores to live blocks are not in the way of an allocation. -/
theorem clear_alloc (h : HeapInv a free live) {layout : Layout} (halign : layout.align ≤ 4096) :
    Clear LinkedListAllocator.access (overlays (wordsOf live)) (allocBody layout) a := by
  unfold allocBody
  cases hsa : sizeAlign layout with
  | none => exact clear_call (by rintro x ⟨⟩) fun r => r.elim
  | some r =>
    obtain ⟨size, align⟩ := r
    obtain ⟨hn, hrequested⟩ := sizeAlign_spec halign hsa
    have hapart : ∀ c ∈ free, ∀ b ∈ live, Extent.Apart c b := (List.pairwise_append.mp h.covers.pairwise).2.2
    refine clear_walkBody _ h.chain trivial (fun b hb => headerOff_of_apart (h.header b hb) (hapart b hb)) ?_
    intro b hb hfits hpos
    have hbounds := h.bounds hb
    have hplaced := HeapInv.placed hrequested (h.room hn hb)
    have hsplit := (HeapInv.fits_iff_splits hrequested h hb (h.room hn hb)).mp hfits
    have hstop : b.stop % 2 ^ 64 = b.stop := Nat.mod_eq_of_lt (by omega)
    rw [hstop] at hpos
    have hrest : 16 ≤ b.stop - (alignUp b.addr align + size) := by
      obtain ⟨_, _, _, _⟩ := hsplit
      omega
    refine headerOff_of_apart hrest fun c hc => ?_
    have := hapart b hb c hc
    have hle := hsplit.addr_le
    simp only [Extent.Apart, Extent.stop] at *
    omega

/-- Stores to the other live blocks are not in the way of a free. -/
theorem clear_dealloc {before after : List Extent} {ptr : Nat} {layout : Layout}
    (h : HeapInv a free (before ++ ⟨ptr, normalisedSize layout⟩ :: after)) :
    Clear LinkedListAllocator.access (overlays (wordsOf (before ++ after))) (deallocBody ptr layout) a := by
  unfold deallocBody
  cases hsa : sizeAlign layout with
  | none => exact clear_call (by rintro x ⟨⟩) fun r => r.elim
  | some r =>
    obtain ⟨size, align⟩ := r
    rw [normalisedSize_eq hsa] at h
    have hheader : HeaderOff (wordsOf (before ++ after)) ptr := by
      refine headerOff_of_apart (sizeAlign_requested hsa).header ?_
      have hperm : (before ++ ⟨ptr, size⟩ :: after).Perm (⟨ptr, size⟩ :: (before ++ after)) := List.perm_middle
      have hpairwise := (List.pairwise_append.mp h.covers.pairwise).2.1
      have hsymm : ∀ {x y : Extent}, Extent.Apart x y → Extent.Apart y x := fun hxy => hxy.symm
      exact (List.pairwise_cons.mp ((hperm.pairwise_iff hsymm).mp hpairwise)).1
    exact clear_addFreeBody a size hheader.1 hheader.2

end

end Memory

end GolemKernel
