import GolemKernel.Memory.Allocator

/-!
# What the frame allocator's functions do to the set of free frames

The free frames are the clear bits of the bitmap (`free`), and the counter is meant to be their number (`Accounted`). Each
function keeps that, and inserts or erases one frame. `allocator::init` frees exactly the frames that lie in a usable region.
-/

namespace GolemKernel

namespace Memory

theorem maxFrames_eq : maxFrames = 8388608 := rfl

theorem bitmapWords_eq : bitmapWords = 131072 := rfl

/-- A frame is one of those with the numbers in a set. -/
def IsFrameOf (numbers : Finset Nat) (frame : Frame) : Prop := ∃ i ∈ numbers, frame = ⟨i * pageSize⟩

/-- A frame of a set of numbers has its number in the set, and is determined by it. -/
theorem IsFrameOf.number_mem {numbers : Finset Nat} {frame : Frame} (h : IsFrameOf numbers frame) :
    frame.number ∈ numbers ∧ frame = ⟨frame.number * pageSize⟩ := by
  obtain ⟨i, hi, rfl⟩ := h
  have hnum : (Frame.mk (i * pageSize)).number = i := Nat.mul_div_cancel i (by decide)
  rw [hnum]
  exact ⟨hi, rfl⟩

/-- The frame of a number is of the set exactly if the number is in it. -/
theorem isFrameOf_iff {numbers : Finset Nat} {i : Nat} : IsFrameOf numbers ⟨i * pageSize⟩ ↔ i ∈ numbers := by
  refine ⟨fun h => ?_, fun h => ⟨i, h, rfl⟩⟩
  obtain ⟨h, -⟩ := h.number_mem
  rwa [show (Frame.mk (i * pageSize)).number = i from Nat.mul_div_cancel i (by decide)] at h

namespace BitmapFrameAllocator

/-- The numbers of the frames marked free. -/
def free (a : BitmapFrameAllocator) : Finset Nat := a.bitmap.clearBits maxFrames

/-- The counter is the number of clear bits. -/
def Accounted (a : BitmapFrameAllocator) : Prop := a.freeFrames = a.free.card

variable {a : BitmapFrameAllocator}

/-- There are no more free frames than bits. -/
theorem card_free_le (a : BitmapFrameAllocator) : a.free.card ≤ 8388608 := by
  have h := Finset.card_filter_le (Finset.range maxFrames) fun i => a.bitmap.test i = false
  rwa [Finset.card_range] at h

/-- A frame is free if its bit is clear. -/
theorem mem_free {i : Nat} : i ∈ a.free ↔ i < maxFrames ∧ a.bitmap.test i = false := Bitmap.mem_clearBits

/-- Freeing a frame that is in use, with the counter one higher. -/
theorem Accounted.clear (h : a.Accounted) {i : Nat} (hi : i < maxFrames) (hused : i ∉ a.free) :
    (a.freeFrames + 1) % 2 ^ 64 = ((a.bitmap.clear i).clearBits maxFrames).card := by
  have hle := a.card_free_le
  have hfree : (a.bitmap.clear i).clearBits maxFrames = insert i a.free := Bitmap.clearBits_clear hi
  rw [hfree, Finset.card_insert_of_notMem hused, h, Nat.mod_eq_of_lt (by omega)]

/-- Taking a frame that is free, with the counter one lower. -/
theorem Accounted.set (h : a.Accounted) {i : Nat} (hi : i ∈ a.free) :
    wrappingSub a.freeFrames 1 + 1 = a.freeFrames ∧ wrappingSub a.freeFrames 1 = ((a.bitmap.set i).clearBits maxFrames).card := by
  have hle := a.card_free_le
  have hpos : 0 < a.free.card := Finset.card_pos.mpr ⟨i, hi⟩
  have hsub : wrappingSub a.freeFrames 1 = a.free.card - 1 := by
    rw [h, wrappingSub_eq (by omega) (by omega)]
  have hfree : (a.bitmap.set i).clearBits maxFrames = a.free.erase i := Bitmap.clearBits_set
  rw [hfree, Finset.card_erase_of_mem hi, hsub, h]
  exact ⟨by omega, rfl⟩

/-- The mask test of the source on a frame number in range. -/
theorem mask_eq_zero_iff {i : Nat} (hi : i < maxFrames) : a.bitmap (i / 64) &&& (1#64 <<< (i % 64)) = 0 ↔ i ∈ a.free := by
  rw [and_bit_eq_zero_iff (Nat.mod_lt _ (by decide)), mem_free]
  exact ⟨fun h => ⟨hi, h⟩, fun h => h.2⟩

/-- At first no frame is free. -/
theorem new_free : new.free = ∅ := by
  ext i
  simp [mem_free, new, Bitmap.test_of_allOnes]

/-- And the counter says so. -/
theorem new_accounted : new.Accounted := by
  simp only [Accounted, new_free]
  rfl

/-- `mark_free` adds the frame, if the bitmap has a bit for it. -/
theorem markFree_spec (h : a.Accounted) {f : Frame} (hf : f.number < maxFrames) :
    (a.markFree f).Accounted ∧ (a.markFree f).free = insert f.number a.free := by
  have hlt : ¬maxFrames ≤ f.number := Nat.not_le_of_lt hf
  simp only [markFree, if_neg hlt]
  split
  · rename_i hmask
    have hused : f.number ∉ a.free := fun hmem => hmask ((mask_eq_zero_iff hf).mpr hmem)
    exact ⟨h.clear hf hused, Bitmap.clearBits_clear hf⟩
  · rename_i hmask
    have hmem : f.number ∈ a.free := (mask_eq_zero_iff hf).mp (not_not.mp hmask)
    exact ⟨h, (Finset.insert_eq_of_mem hmem).symm⟩

/-- `deallocate_frame` makes the frame free, wherever the search is to begin. -/
theorem deallocateFrame_spec (h : a.Accounted) {f : Frame} (hf : f.number < maxFrames) :
    (a.deallocateFrame f).Accounted ∧ (a.deallocateFrame f).free = insert f.number a.free := by
  simp only [deallocateFrame]
  split
  · exact markFree_spec h hf
  · exact markFree_spec h hf

/-! ## The search -/

/-- The search stops at the first word with a clear bit, or has seen `left` words of ones. -/
theorem search_spec (a : BitmapFrameAllocator) : ∀ left offset,
    (a.search left offset = (none, a) ∧
      ∀ o, offset ≤ o → o < offset + left → a.bitmap ((a.nextSearch + o) % bitmapWords) = BitVec.allOnes 64) ∨
    ∃ i < bitmapWords, a.bitmap i ≠ BitVec.allOnes 64 ∧ a.search left offset =
      (some ⟨(i * 64 + (~~~(a.bitmap i)).ctz.toNat) * pageSize⟩,
        { a with bitmap := a.bitmap.set (i * 64 + (~~~(a.bitmap i)).ctz.toNat)
                 freeFrames := wrappingSub a.freeFrames 1, nextSearch := i })
  | 0, offset => .inl ⟨rfl, fun o h1 h2 => absurd h2 (by omega)⟩
  | left + 1, offset => by
    rcases eq_or_ne (a.bitmap ((a.nextSearch + offset) % bitmapWords)) (BitVec.allOnes 64) with hones | hne
    · have hstep : a.search (left + 1) offset = a.search left (offset + 1) := by
        simp only [search, hones, ne_eq, not_true_eq_false, if_false]
      rw [hstep]
      rcases search_spec a left (offset + 1) with ⟨hnone, hall⟩ | hsome
      · refine .inl ⟨hnone, fun o h1 h2 => ?_⟩
        rcases Nat.eq_or_lt_of_le h1 with rfl | hlt
        · exact hones
        · exact hall o hlt (by omega)
      · exact .inr hsome
    · refine .inr ⟨_, Nat.mod_lt _ (by decide), hne, ?_⟩
      obtain ⟨hlt, -⟩ := lowest_clear hne
      have hdiv : ∀ i, (i * 64 + (~~~(a.bitmap ((a.nextSearch + offset) % bitmapWords))).ctz.toNat) / 64 = i := by omega
      have hmod : ∀ i, (i * 64 + (~~~(a.bitmap ((a.nextSearch + offset) % bitmapWords))).ctz.toNat) % 64 =
          (~~~(a.bitmap ((a.nextSearch + offset) % bitmapWords))).ctz.toNat := by omega
      simp only [search, hne, ne_eq, not_false_eq_true, if_true, Bitmap.set, hdiv, hmod]

/-- `allocate_frame` takes a free frame and leaves the other bits as they are, or fails and changes nothing. -/
theorem allocateFrame_cases (a : BitmapFrameAllocator) :
    (a.allocateFrame = (none, a) ∧ (a.freeFrames = 0 ∨ a.free = ∅)) ∨
    ∃ i ∈ a.free, ∃ n, a.freeFrames ≠ 0 ∧ a.allocateFrame = (some ⟨i * pageSize⟩,
      { a with bitmap := a.bitmap.set i, freeFrames := wrappingSub a.freeFrames 1, nextSearch := n }) := by
  unfold allocateFrame
  split
  · rename_i hzero
    exact .inl ⟨rfl, .inl hzero⟩
  · rename_i hpos
    rcases search_spec a bitmapWords 0 with ⟨hnone, hall⟩ | ⟨i, hi, hne, heq⟩
    · -- every word is all ones
      refine .inl ⟨hnone, .inr (Finset.eq_empty_of_forall_notMem fun j hj => ?_)⟩
      obtain ⟨hj, hclear⟩ := mem_free.mp hj
      have hword : a.bitmap (j / 64) = BitVec.allOnes 64 := by
        have hat := hall ((j / 64 + (bitmapWords - a.nextSearch % bitmapWords)) % bitmapWords) (Nat.zero_le _)
          (by rw [Nat.zero_add]; exact Nat.mod_lt _ (by decide))
        rw [maxFrames_eq] at hj
        rw [bitmapWords_eq] at hat
        have hidx : (a.nextSearch + (j / 64 + (131072 - a.nextSearch % 131072)) % 131072) % 131072 = j / 64 := by omega
        rwa [hidx] at hat
      rw [Bitmap.test_of_allOnes hword] at hclear
      exact nomatch hclear
    · obtain ⟨hbit, hclear⟩ := Bitmap.test_lowest_clear hne
      have hmem : i * 64 + (~~~(a.bitmap i)).ctz.toNat ∈ a.free := by
        refine mem_free.mpr ⟨?_, hclear⟩
        rw [bitmapWords_eq] at hi
        rw [maxFrames_eq]
        omega
      exact .inr ⟨_, hmem, i, hpos, heq⟩

/-- With the counter right, `allocate_frame` fails only when no frame is free. -/
theorem allocateFrame_spec (h : a.Accounted) :
    (a.allocateFrame = (none, a) ∧ a.free = ∅) ∨
    ∃ i ∈ a.free, ∃ a', a.allocateFrame = (some ⟨i * pageSize⟩, a') ∧ a'.free = a.free.erase i ∧ a'.Accounted ∧
      a'.freeFrames + 1 = a.freeFrames := by
  rcases allocateFrame_cases a with ⟨heq, hzero | hempty⟩ | ⟨i, hi, n, -, heq⟩
  · exact .inl ⟨heq, Finset.card_eq_zero.mp (h.symm.trans hzero)⟩
  · exact .inl ⟨heq, hempty⟩
  · exact .inr ⟨i, hi, _, heq, Bitmap.clearBits_set, (h.set hi).2, (h.set hi).1⟩

/-! ## Initialisation -/

/-- Frame `i` lies between two addresses. -/
def FrameIn (lo hi i : Nat) : Prop := lo ≤ i * pageSize ∧ i * pageSize + pageSize ≤ hi

/-- What the loops of `init` do to the free frames: they keep the count, and free only frames that `p` holds of. -/
structure Grows (p : Nat → Prop) (a a' : BitmapFrameAllocator) : Prop where
  accounted : a.Accounted → a'.Accounted
  mono : a.free ⊆ a'.free
  sound : ∀ i ∈ a'.free, i ∈ a.free ∨ p i

/-- One turn of the loop over a region, on a frame the bitmap has a bit for. -/
def freeFrame (a : BitmapFrameAllocator) (idx : Nat) : BitmapFrameAllocator :=
  if a.bitmap (idx / 64) &&& (1#64 <<< (idx % 64)) ≠ 0 then
    { a with
      bitmap := Function.update a.bitmap (idx / 64) (a.bitmap (idx / 64) &&& ~~~(1#64 <<< (idx % 64)))
      freeFrames := (a.freeFrames + 1) % 2 ^ 64
      totalFrames := (a.totalFrames + 1) % 2 ^ 64 }
  else a

/-- What the loops of `init` do, exactly: they clear the bits of the frames that `p` holds of, as far as the bitmap has bits, and both
counters count each of them once. -/
structure Frees (p : Nat → Prop) (a a' : BitmapFrameAllocator) : Prop where
  test : ∀ i, a'.bitmap.test i = false ↔ a.bitmap.test i = false ∨ i < maxFrames ∧ p i
  nextSearch : a'.nextSearch = a.nextSearch
  accounted : a.Accounted → a'.Accounted
  total : a.totalFrames = a.freeFrames → a'.totalFrames = a'.freeFrames

section

variable {p q : Nat → Prop} {b c : BitmapFrameAllocator}

/-- Nothing is freed where no frame is to be. -/
theorem Frees.none (a : BitmapFrameAllocator) (hp : ∀ i, i < maxFrames → ¬p i) : Frees p a a := by
  refine ⟨?_, rfl, id, id⟩
  intro i
  constructor
  · exact .inl
  · rintro (hclear | ⟨hi, hpi⟩)
    · exact hclear
    · exact absurd hpi (hp i hi)

/-- Only the numbers below the limit matter. -/
theorem Frees.congr (h : Frees p a b) (hpq : ∀ i, i < maxFrames → (p i ↔ q i)) : Frees q a b := by
  refine ⟨?_, h.nextSearch, h.accounted, h.total⟩
  intro i
  rw [h.test i]
  exact or_congr_right (and_congr_right (hpq i))

/-- Two steps free what either of them frees. -/
theorem Frees.trans (h : Frees p a b) (h' : Frees q b c) : Frees (fun i => p i ∨ q i) a c := by
  refine ⟨?_, h'.nextSearch.trans h.nextSearch, fun ha => h'.accounted (h.accounted ha), fun ha => h'.total (h.total ha)⟩
  intro i
  rw [h'.test i, h.test i, or_assoc, ← and_or_left]

/-- What is free afterwards was free or has been freed. -/
theorem Frees.mem_free (h : Frees p a b) (i : Nat) : i ∈ b.free ↔ i ∈ a.free ∨ i < maxFrames ∧ p i := by
  rw [BitmapFrameAllocator.mem_free, BitmapFrameAllocator.mem_free, h.test i, and_or_left, ← and_assoc, and_self]

/-- What is freed, and both counters with it, are determined. -/
theorem Frees.unique (h : Frees p a b) (h' : Frees p a c) (hacc : a.Accounted) (htotal : a.totalFrames = a.freeFrames) : b = c := by
  have hbitmap : b.bitmap = c.bitmap := by
    apply Bitmap.eq_of_test_eq
    intro i
    rw [Bool.eq_iff_iff, ← not_iff_not, Bool.not_eq_true, Bool.not_eq_true, h.test i, h'.test i]
  have hfree : b.freeFrames = c.freeFrames := by
    rw [h.accounted hacc, h'.accounted hacc, free, free, hbitmap]
  have hall : b.totalFrames = c.totalFrames := by
    rw [h.total htotal, h'.total htotal, hfree]
  have hnext := h.nextSearch.trans h'.nextSearch.symm
  cases b
  cases c
  simp_all

/-- Freeing takes nothing away. -/
theorem Frees.grows (h : Frees p a b) : Grows p a b := by
  refine ⟨h.accounted, fun i hi => (h.mem_free i).mpr (.inl hi), ?_⟩
  intro i hi
  exact ((h.mem_free i).mp hi).imp_right (·.2)

end

/-- One turn of the loop frees one frame. -/
theorem freeFrame_frees {idx : Nat} (hidx : idx < maxFrames) : Frees (· = idx) a (a.freeFrame idx) := by
  unfold freeFrame
  split
  · rename_i hmask
    have hused : idx ∉ a.free := fun hmem => hmask ((mask_eq_zero_iff hidx).mpr hmem)
    refine ⟨?_, rfl, fun h => h.clear hidx hused, ?_⟩
    · intro i
      have htest : (a.bitmap.clear idx).test i = (!decide (i = idx) && a.bitmap.test i) := Bitmap.test_clear
      refine Iff.trans (by rw [← htest]; rfl) (?_ : (!decide (i = idx) && a.bitmap.test i) = false ↔ _)
      rw [Bool.and_eq_false_iff, Bool.not_eq_false', decide_eq_true_eq, or_comm]
      exact or_congr_right ⟨fun h => ⟨h ▸ hidx, h⟩, fun h => h.2⟩
    · intro htotal
      rw [htotal]
  · rename_i hmask
    have hmem : idx ∈ a.free := (mask_eq_zero_iff hidx).mp (not_not.mp hmask)
    refine ⟨?_, rfl, id, id⟩
    intro i
    constructor
    · exact .inl
    · rintro (hclear | ⟨-, rfl⟩)
      · exact hclear
      · exact (mem_free.mp hmem).2

/-- A frame is in a range if it begins and ends there. -/
theorem frameIn_iff {lo hi i : Nat} : FrameIn lo hi i ↔ lo ≤ i * 4096 ∧ i * 4096 + 4096 ≤ hi := Iff.rfl

section

variable {stop turns addr : Nat}

/-- The loop over a region ends when the next frame would not end within the region. -/
theorem initRegion_done (h : stop < (addr + 4096) % 2 ^ 64) : initRegion stop (turns + 1) addr a = some (.ok (), a) := by
  unfold initRegion
  exact if_neg (Nat.not_le_of_lt h)

/-- A frame beyond the bitmap is an error. -/
theorem initRegion_beyond (h : (addr + 4096) % 2 ^ 64 ≤ stop) (hout : 8388608 ≤ addr / 4096) :
    initRegion stop (turns + 1) addr a = some (.error .bitmapTooSmall, a) := by
  unfold initRegion
  exact (if_pos h).trans (if_pos hout)

/-- Otherwise the frame is freed and the loop goes on with the next one. -/
theorem initRegion_turn (h : (addr + 4096) % 2 ^ 64 ≤ stop) (hin : addr / 4096 < 8388608) :
    initRegion stop (turns + 1) addr a = initRegion stop turns ((addr + 4096) % 2 ^ 64) (a.freeFrame (addr / 4096)) := by
  conv => lhs; unfold initRegion
  exact (if_pos h).trans (if_neg (Nat.not_le_of_lt hin))

end

/-- The loop over a region frees the frames of the region that the bitmap has bits for, and fails exactly if there is another. -/
theorem initRegion_frees (stop : Nat) : ∀ (turns addr : Nat) (a : BitmapFrameAllocator), 0 < turns →
    8388608 < turns + addr / 4096 → 4096 ∣ addr → addr + 4096 < 2 ^ 64 →
    ∃ r a', initRegion stop turns addr a = some (r, a') ∧ Frees (FrameIn addr stop) a a' ∧
      (r = .ok () ∧ (∀ i, FrameIn addr stop i → i < maxFrames) ∨
        r = .error .bitmapTooSmall ∧ ∃ i, FrameIn addr stop i ∧ maxFrames ≤ i)
  | 0, _, _, h0, _, _, _ => absurd h0 (by decide)
  | turns + 1, addr, a, _, hturns, hdvd, hlt => by
    have hwrap : (addr + 4096) % 2 ^ 64 = addr + 4096 := Nat.mod_eq_of_lt hlt
    rcases Nat.lt_or_ge stop (addr + 4096) with hdone | hcond
    · have hnone : ∀ i, ¬FrameIn addr stop i := by
        intro i hi
        rw [frameIn_iff] at hi
        omega
      exact ⟨_, a, initRegion_done (hdone.trans_eq hwrap.symm), Frees.none a fun i _ => hnone i, .inl ⟨rfl, fun i hi => absurd hi (hnone i)⟩⟩
    rcases Nat.lt_or_ge (addr / 4096) 8388608 with hin | hout
    · obtain ⟨r, a', heq, hfrees, hr⟩ := initRegion_frees stop turns (addr + 4096) (a.freeFrame (addr / 4096)) (by omega) (by omega)
        (Nat.dvd_add hdvd (Nat.dvd_refl _)) (by omega)
      -- the frame of this turn, or one of the rest of the region
      have hsplit : ∀ i, i = addr / 4096 ∨ FrameIn (addr + 4096) stop i ↔ FrameIn addr stop i := by
        intro i
        rw [frameIn_iff, frameIn_iff]
        omega
      rw [initRegion_turn (hwrap.trans_le hcond) hin, hwrap]
      refine ⟨r, a', heq, ((freeFrame_frees hin).trans hfrees).congr fun i _ => hsplit i, ?_⟩
      rcases hr with ⟨rfl, hall⟩ | ⟨rfl, i, hi, hmax⟩
      · refine .inl ⟨rfl, ?_⟩
        intro i hi
        rcases (hsplit i).mpr hi with rfl | hi
        · exact hin
        · exact hall i hi
      · exact .inr ⟨rfl, i, (hsplit i).mp (.inr hi), hmax⟩
    · refine ⟨_, a, initRegion_beyond (hwrap.trans_le hcond) hout, Frees.none a ?_, .inr ⟨rfl, addr / 4096, ?_, hout⟩⟩
      · intro i hi hframe
        rw [frameIn_iff] at hframe
        rw [maxFrames_eq] at hi
        omega
      · rw [frameIn_iff]
        omega

/-- Aligning up gives a multiple of the page size. -/
theorem dvd_alignUp (addr : Nat) : 4096 ∣ alignUp addr pageSize := by
  have hlt : (addr + pageSize - 1) % 2 ^ 64 < 2 ^ 64 := Nat.mod_lt _ (by decide)
  have heq : alignUp addr pageSize = (addr + pageSize - 1) % 2 ^ 64 / 2 ^ 12 * 2 ^ 12 :=
    and_not64 (k := 12) hlt (by decide)
  rw [heq]
  exact Dvd.intro_left _ rfl

/-- Aligning down stays within 64 bits. -/
theorem alignDown_lt (addr : Nat) : alignDown addr pageSize < 2 ^ 64 := Nat.lt_of_le_of_lt Nat.and_le_right (by decide)

/-- Aligning down gives a multiple of the page size. -/
theorem dvd_alignDown (addr : Nat) : 4096 ∣ alignDown addr pageSize := by
  have hcut : alignDown addr pageSize = addr % 2 ^ 64 &&& not64 (pageSize - 1) := by
    rw [← Nat.mod_eq_of_lt (alignDown_lt addr)]
    exact Nat.and_mod_two_pow
  have heq : addr % 2 ^ 64 &&& not64 (pageSize - 1) = addr % 2 ^ 64 / 2 ^ 12 * 2 ^ 12 :=
    and_not64 (k := 12) (Nat.mod_lt _ (by decide)) (by decide)
  rw [hcut, heq]
  exact Dvd.intro_left _ rfl

/-- A frame that lies in a usable region of the memory map, rounded inwards to whole frames as `init` does it. -/
def Described (regions : List MemoryRegion) (i : Nat) : Prop :=
  ∃ r ∈ regions, r.kind = .usable ∧ FrameIn (alignUp r.start pageSize) (alignDown r.stop pageSize) i

/-- The memory map has a whole usable frame, and no usable frame beyond the bitmap. -/
structure Bootable (regions : List MemoryRegion) : Prop where
  within : ∀ r ∈ regions, r.kind = .usable → alignDown r.stop pageSize ≤ 34359738368
  some : ∃ r ∈ regions, r.kind = .usable ∧ alignUp r.start pageSize < alignDown r.stop pageSize

/-- What the loop over the memory map does, from a state where `any_usable` may be set already. -/
structure RegionsDone (regions : List MemoryRegion) (anyUsable : Bool) (a : BitmapFrameAllocator)
    (q : Except MemoryInitError Unit) (a' : BitmapFrameAllocator) : Prop where
  grows : Grows (Described regions) a a'
  complete : q = .ok () → ∀ i, Described regions i → i ∈ a'.free
  succeeds : (∀ r ∈ regions, r.kind = .usable → alignDown r.stop pageSize ≤ 34359738368) →
    (anyUsable = true ∨ ∃ r ∈ regions, r.kind = .usable ∧ alignUp r.start pageSize < alignDown r.stop pageSize) → q = .ok ()

/-- A usable region with a whole frame that the bitmap has no bit for. -/
def Exceeds (r : MemoryRegion) : Prop :=
  r.kind = .usable ∧ ∃ i, FrameIn (alignUp r.start pageSize) (alignDown r.stop pageSize) i ∧ maxFrames ≤ i

/-- How the loop over the memory map ends: it frees the frames of every usable region, or those up to the first region that exceeds the
bitmap. -/
inductive MapFreed (regions : List MemoryRegion) (anyUsable : Bool) (a : BitmapFrameAllocator) (q : Except MemoryInitError Unit)
    (a' : BitmapFrameAllocator) : Prop where
  | all (hfits : ∀ r ∈ regions, ¬Exceeds r) (hfrees : Frees (Described regions) a a')
      (hq : q = .ok () ↔
        anyUsable = true ∨ ∃ r ∈ regions, r.kind = .usable ∧ alignUp r.start pageSize < alignDown r.stop pageSize)
  | upTo (before : List MemoryRegion) (r : MemoryRegion) (after : List MemoryRegion) (hsplit : regions = before ++ r :: after)
      (hbefore : ∀ r' ∈ before, ¬Exceeds r') (hr : Exceeds r) (hfrees : Frees (Described (before ++ [r])) a a')
      (hq : q = .error .bitmapTooSmall)

/-- A frame is described by the first region or by one of the others. -/
theorem described_cons {r : MemoryRegion} {regions : List MemoryRegion} {i : Nat} :
    Described (r :: regions) i ↔
      r.kind = .usable ∧ FrameIn (alignUp r.start pageSize) (alignDown r.stop pageSize) i ∨ Described regions i := by
  unfold Described
  exact List.exists_mem_cons_iff _ r regions

section

variable {r : MemoryRegion} {regions : List MemoryRegion} {anyUsable : Bool} {q : Except MemoryInitError Unit}
  {a₁ a' : BitmapFrameAllocator}

/-- The rest of the loop after a region that is passed over. -/
theorem MapFreed.skip (h : MapFreed regions anyUsable a q a')
    (hr : r.kind = .usable → alignDown r.stop pageSize ≤ alignUp r.start pageSize) : MapFreed (r :: regions) anyUsable a q a' := by
  have hempty : ∀ i, r.kind = .usable → ¬FrameIn (alignUp r.start pageSize) (alignDown r.stop pageSize) i := by
    intro i hk hi
    have hle := hr hk
    rw [frameIn_iff] at hi
    omega
  have hfits : ¬Exceeds r := fun ⟨hk, i, hi, _⟩ => hempty i hk hi
  have hsame : ∀ l i, Described l i ↔ Described (r :: l) i := by
    intro l i
    rw [described_cons, or_iff_right]
    rintro ⟨hk, hi⟩
    exact hempty i hk hi
  cases h with
  | all hall hfrees hq =>
    refine .all (List.forall_mem_cons.mpr ⟨hfits, hall⟩) (hfrees.congr fun i _ => hsame regions i) ?_
    have hskip : ¬(r.kind = .usable ∧ alignUp r.start pageSize < alignDown r.stop pageSize) := by
      rintro ⟨hk, hlt⟩
      exact absurd (hr hk) (Nat.not_le_of_lt hlt)
    rw [hq, List.exists_mem_cons_iff]
    exact or_congr_right (or_iff_right hskip).symm
  | upTo before p after hsplit hbefore hp hfrees hq =>
    exact .upTo (r :: before) p after (by rw [hsplit, List.cons_append]) (List.forall_mem_cons.mpr ⟨hfits, hbefore⟩) hp
      (hfrees.congr fun i _ => hsame (before ++ [p]) i) hq

/-- The rest of the loop after a region whose frames are freed. -/
theorem MapFreed.cons (h : MapFreed regions true a₁ q a') (hk : r.kind = .usable)
    (hlt : alignUp r.start pageSize < alignDown r.stop pageSize) (hfits : ¬Exceeds r)
    (hfrees : Frees (FrameIn (alignUp r.start pageSize) (alignDown r.stop pageSize)) a a₁) :
    MapFreed (r :: regions) anyUsable a q a' := by
  have hsame : ∀ l i, FrameIn (alignUp r.start pageSize) (alignDown r.stop pageSize) i ∨ Described l i ↔ Described (r :: l) i := by
    intro l i
    rw [described_cons, and_iff_right hk]
  cases h with
  | all hall hrest hq =>
    refine .all (List.forall_mem_cons.mpr ⟨hfits, hall⟩) ((hfrees.trans hrest).congr fun i _ => hsame regions i) ?_
    exact iff_of_true (hq.mpr (.inl rfl)) (.inr ⟨r, List.mem_cons_self, hk, hlt⟩)
  | upTo before p after hsplit hbefore hp hrest hq =>
    exact .upTo (r :: before) p after (by rw [hsplit, List.cons_append]) (List.forall_mem_cons.mpr ⟨hfits, hbefore⟩) hp
      ((hfrees.trans hrest).congr fun i _ => hsame (before ++ [p]) i) hq

/-- In particular the free frames have only grown, and a success has freed all that the map describes. -/
theorem MapFreed.regionsDone (h : MapFreed regions anyUsable a q a') : RegionsDone regions anyUsable a q a' := by
  cases h with
  | all hall hfrees hq =>
    refine ⟨hfrees.grows, ?_, fun _ hany => hq.mpr hany⟩
    rintro - i ⟨p, hp, hk, hi⟩
    have hlt : i < maxFrames := Nat.lt_of_not_le fun hmax => hall p hp ⟨hk, i, hi, hmax⟩
    exact (hfrees.mem_free i).mpr (.inr ⟨hlt, p, hp, hk, hi⟩)
  | upTo before p after hsplit hbefore hp hfrees hq =>
    have hmem : ∀ p' ∈ before ++ [p], p' ∈ regions := by
      intro p' hp'
      rw [hsplit]
      rcases List.mem_append.mp hp' with hp' | hp'
      · exact List.mem_append_left _ hp'
      · exact List.mem_append_right _ (List.mem_singleton.mp hp' ▸ List.mem_cons_self)
    refine ⟨⟨hfrees.accounted, hfrees.grows.mono, ?_⟩, ?_, ?_⟩
    · intro i hi
      rcases hfrees.grows.sound i hi with hi | ⟨p', hp', hdesc⟩
      · exact .inl hi
      · exact .inr ⟨p', hmem p' hp', hdesc⟩
    · intro hok
      cases hok.symm.trans hq
    · intro hcap _
      obtain ⟨hk, i, hi, hmax⟩ := hp
      have hle := hcap p (hmem p (List.mem_append_right _ List.mem_cons_self)) hk
      rw [frameIn_iff] at hi
      rw [maxFrames_eq] at hmax
      omega

end

/-- The loop over the regions ends, and has freed what the map describes up to the first error. -/
theorem initRegions_freed {turns : Nat} (hturns : 8388608 < turns) :
    ∀ (regions : List MemoryRegion) (anyUsable : Bool) (a : BitmapFrameAllocator),
      ∃ q a', initRegions turns regions anyUsable a = some (q, a') ∧ MapFreed regions anyUsable a q a'
  | [], anyUsable, a => by
    have hnone : ∀ i, ¬Described [] i := fun i ⟨_, hr, _⟩ => List.not_mem_nil hr
    refine ⟨_, a, rfl, .all (List.forall_mem_nil _) (.none a fun i _ => hnone i) ?_⟩
    cases anyUsable <;> simp
  | r :: regions, anyUsable, a => by
    simp only [initRegions]
    split
    · rename_i hkind
      obtain ⟨q, a', heq, hfreed⟩ := initRegions_freed hturns regions anyUsable a
      exact ⟨q, a', heq, hfreed.skip fun h => absurd h hkind⟩
    · rename_i hkind
      have hk : r.kind = .usable := not_not.mp hkind
      split
      · rename_i hle
        obtain ⟨q, a', heq, hfreed⟩ := initRegions_freed hturns regions anyUsable a
        exact ⟨q, a', heq, hfreed.skip fun _ => hle⟩
      · rename_i hle
        have hlt := Nat.lt_of_not_le hle
        have hnowrap : alignUp r.start pageSize + 4096 < 2 ^ 64 := by
          have h1 := alignDown_lt r.stop
          have h2 := dvd_alignDown r.stop
          have h3 := dvd_alignUp r.start
          omega
        obtain ⟨q, a₁, heq, hfrees, hq⟩ := initRegion_frees (alignDown r.stop pageSize) turns
          (alignUp r.start pageSize) a (by omega) (by omega) (dvd_alignUp _) hnowrap
        rw [heq]
        rcases hq with ⟨rfl, hall⟩ | ⟨rfl, i, hi, hmax⟩
        · obtain ⟨q, a', heq', hfreed⟩ := initRegions_freed hturns regions true a₁
          refine ⟨q, a', heq', hfreed.cons hk hlt ?_ hfrees⟩
          rintro ⟨-, i, hi, hmax⟩
          exact absurd (hall i hi) (Nat.not_lt_of_le hmax)
        · refine ⟨_, a₁, rfl, .upTo [] r regions rfl (List.forall_mem_nil _) ⟨hk, i, hi, hmax⟩ (hfrees.congr ?_) rfl⟩
          intro j _
          rw [List.nil_append, described_cons, and_iff_right hk]
          exact ⟨.inl, fun h => h.resolve_right fun ⟨_, hr, _⟩ => List.not_mem_nil hr⟩

end BitmapFrameAllocator

namespace AllocatorGlobals

open BitmapFrameAllocator

/-- So does `init`, from the state at boot. -/
theorem init_freed (regions : List MemoryRegion) :
    ∃ q a, boot.init regions = some (q, ⟨a, true⟩) ∧ MapFreed regions false .new q a := by
  obtain ⟨q, a, heq, hfreed⟩ := initRegions_freed (Nat.lt_succ_self 8388608) regions false .new
  refine ⟨q, a, ?_, hfreed⟩
  rw [init, if_neg (show ¬boot.initialized = true from Bool.false_ne_true), show boot.allocator = .new from rfl, maxFrames_eq,
    heq, Option.map_some]

/-- `allocator::init` on the statics the kernel starts with: it returns, the frames it frees are the whole frames of the usable
regions if it succeeds, and it succeeds on a bootable map. -/
theorem init_spec (regions : List MemoryRegion) :
    ∃ q a, boot.init regions = some (q, ⟨a, true⟩) ∧ a.Accounted ∧ (∀ i ∈ a.free, Described regions i) ∧
      (q = .ok () → ∀ i, Described regions i → i ∈ a.free) ∧ (Bootable regions → q = .ok ()) := by
  obtain ⟨q, a, heq, hfreed⟩ := init_freed regions
  have hdone := hfreed.regionsDone
  refine ⟨q, a, heq, hdone.grows.accounted new_accounted, fun i hi => ?_, hdone.complete,
    fun hb => hdone.succeeds hb.within (.inr hb.some)⟩
  rcases hdone.grows.sound i hi with hnew | hdesc
  · rw [new_free] at hnew
    exact absurd hnew (Finset.notMem_empty _)
  · exact hdesc

end AllocatorGlobals

end Memory

end GolemKernel
