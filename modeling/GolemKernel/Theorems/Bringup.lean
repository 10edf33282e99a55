import GolemKernel.Lemmas.Allocator
import GolemKernel.Memory.Init
import GolemKernel.Theorems.Paging

/-!
# Memory bring-up gives the heap frames of its own

The bitmap allocator is a frame source (`bitmapSource`), so what is known of `map` holds for the calls of `heap::init`. The loop
of `heap::init` keeps, page by page, that the pages mapped so far are looked up in frames that were free before it, are free no
more, and are not tables (`HeapMapped`). `bringup_gives_private_frames` is what follows for `init_from_info`;
`mapHeap_succeeds` says that the loop succeeds when there are frames enough and nothing is in its way.
-/

namespace GolemKernel

namespace Memory

open BitmapFrameAllocator

section Source

variable {g g' : AllocatorGlobals}

/-- A frame that is handed out was free, and is free no more. -/
theorem allocFrame_some {f : Frame} (h : g.allocFrame = (some f, g')) :
    IsFrameOf g.allocator.free f ∧ ¬IsFrameOf g'.allocator.free f := by
  unfold AllocatorGlobals.allocFrame at h
  rcases allocateFrame_cases g.allocator with ⟨heq, -⟩ | ⟨i, hi, n, -, heq⟩
  · rw [heq] at h
    cases (Prod.mk.inj h).1
  · rw [heq] at h
    obtain ⟨hf, rfl⟩ := Prod.mk.inj h
    obtain rfl := Option.some.inj hf
    refine ⟨⟨i, hi, rfl⟩, fun hbad => ?_⟩
    have hmem := isFrameOf_iff.mp hbad
    rw [BitmapFrameAllocator.free, Bitmap.clearBits_set] at hmem
    exact Finset.notMem_erase i _ hmem

/-- An allocation frees nothing. -/
theorem isFrameOf_of_allocFrame {r : Option Frame} (h : g.allocFrame = (r, g')) {f : Frame}
    (hf : IsFrameOf g'.allocator.free f) : IsFrameOf g.allocator.free f := by
  unfold AllocatorGlobals.allocFrame at h
  rcases allocateFrame_cases g.allocator with ⟨heq, -⟩ | ⟨i, hi, n, -, heq⟩
  · rw [heq] at h
    obtain ⟨-, rfl⟩ := Prod.mk.inj h
    exact hf
  · rw [heq] at h
    obtain ⟨-, rfl⟩ := Prod.mk.inj h
    obtain ⟨j, hj, rfl⟩ := hf
    rw [BitmapFrameAllocator.free, Bitmap.clearBits_set] at hj
    exact ⟨j, Finset.mem_of_mem_erase hj, rfl⟩

/-- The frames of the bitmap are aligned, and an entry can name them. -/
theorem frame_of_isFrameOf {f : Frame} (h : IsFrameOf g.allocator.free f) :
    f.startAddress % 4096 = 0 ∧ f.startAddress < 2 ^ 52 := by
  obtain ⟨i, hi, rfl⟩ := h
  have hlt := (mem_free.mp hi).1
  rw [maxFrames_eq] at hlt
  simp only [pageSize]
  omega

end Source

/-- The global frame allocator hands out the frames that its bitmap has free. -/
def bitmapSource : FrameSource AllocatorGlobals where
  alloc := AllocatorGlobals.allocFrame
  avail g := { f | IsFrameOf g.allocator.free f }
  yields := allocFrame_some
  shrinks h _ hf := isFrameOf_of_allocFrame h hf
  frame := frame_of_isFrameOf

/-! ## The loop of `heap::init` -/

/-- The virtual address of a page of the heap. -/
def heapPage (i : Nat) : Nat := heapStart + i * 4096

/-- The pages of the heap are canonical and aligned. -/
theorem heapPage_spec {i : Nat} (hi : i < 2048) : Canonical (heapPage i) ∧ heapPage i % 4096 = 0 := by
  simp only [heapPage, heapStart, Canonical]
  omega

/-- The test of the loop, in pages. -/
theorem mul_lt_heapSize_iff {n : Nat} : n * 4096 < heapSize ↔ n < 2048 := by
  simp only [heapSize]
  omega

/-- They have different indices. -/
theorem heapPage_ne {i j : Nat} (hi : i < 2048) (hj : j < 2048) (hne : i ≠ j) : pathOf (heapPage i) ≠ pathOf (heapPage j) := by
  intro h
  have hpage := page_eq_of_pathOf (heapPage_spec hi).1 (heapPage_spec hj).1 h
  simp only [heapPage, heapStart] at hpage
  omega

/-- The first `n` pages of the heap are mapped: from the state `s₀` before the loop to the state `s`. -/
structure HeapMapped (s₀ s : PagingState AllocatorGlobals) (n : Nat) : Prop where
  sound : Sound bitmapSource s
  offset : s.offset = s₀.offset
  avail : bitmapSource.avail s.frames ⊆ bitmapSource.avail s₀.frames
  pages : ∀ i < n, ∃ f ∈ bitmapSource.avail s₀.frames, f ∉ bitmapSource.avail s.frames ∧ ¬s.UsesTable f.startAddress ∧
    ∀ o < 4096, translate s (heapPage i + o) = some (f.startAddress + o)
  distinct : ∀ i < n, ∀ j < n, i ≠ j → translate s (heapPage i) ≠ translate s (heapPage j)
  elsewhere : ∀ v, (∀ i < n, pathOf v ≠ pathOf (heapPage i)) → translate s v = translate s₀ v

variable {s₀ s s' : PagingState AllocatorGlobals}

/-- Before the first turn nothing is mapped. -/
theorem HeapMapped.zero (h : Sound bitmapSource s₀) : HeapMapped s₀ s₀ 0 where
  sound := h
  offset := rfl
  avail := fun _ => id
  pages := fun _ hi => nomatch hi
  distinct := fun _ hi => nomatch hi
  elsewhere := fun _ _ => rfl

/-- One more page: a frame for it, and a call of `map` that succeeds. -/
theorem HeapMapped.step {n : Nat} (h : HeapMapped s₀ s n) (hn : n < 2048) {f : Frame} {g : AllocatorGlobals}
    (halloc : s.frames.allocFrame = (some f, g))
    (hmap : Mapped bitmapSource { s with frames := g } s' (heapPage n) f.startAddress heapFlags) : HeapMapped s₀ s' (n + 1) := by
  obtain ⟨hf, hf'⟩ := bitmapSource.yields halloc
  have hgrown := Grown.of_alloc h.sound halloc
  obtain ⟨hf4096, hf52⟩ := bitmapSource.frame hf
  have hpage := (heapPage_spec hn).2
  have hnew : ∀ o < 4096, translate s' (heapPage n + o) = some (f.startAddress + o) :=
    fun o ho => hmap.here hpage hf4096 hf52 ho
  -- the pages mapped before have other indices
  have hkeep : ∀ i < n, ∀ o < 4096, translate s' (heapPage i + o) = translate s (heapPage i + o) := by
    intro i hi o ho
    refine (hmap.elsewhere ?_).trans (hgrown.translate _)
    rw [pathOf_add (heapPage_spec (Nat.lt_trans hi hn)).2 ho]
    exact heapPage_ne (Nat.lt_trans hi hn) hn (Nat.ne_of_lt hi)
  have hold : ∀ i < n, translate s' (heapPage i) = translate s (heapPage i) := fun i hi => hkeep i hi 0 (by decide)
  have hfresh : ∀ i < n, translate s' (heapPage i) ≠ translate s' (heapPage n) := by
    intro i hi heq
    obtain ⟨f', -, hf'', -, htr⟩ := h.pages i hi
    have hsame : f'.startAddress = f.startAddress :=
      Option.some.inj ((htr 0 (by decide)).symm.trans ((hold i hi).symm.trans (heq.trans (hnew 0 (by decide)))))
    exact hf'' (Frame.ext_addr hsame ▸ hf)
  refine ⟨hmap.sound, hmap.offset.trans h.offset, fun _ hx => h.avail (hgrown.avail (hmap.avail hx)), fun i hi => ?_,
    fun i hi j hj hne => ?_, fun v hv => ?_⟩
  · rcases Nat.lt_succ_iff_lt_or_eq.mp hi with hlt | rfl
    · obtain ⟨f', hav, hav', hno, htr⟩ := h.pages i hlt
      have hg : f' ∉ bitmapSource.avail g := fun hbad => hav' (hgrown.avail hbad)
      exact ⟨f', hav, fun hbad => hg (hmap.avail hbad), hmap.not_usesTable hg hno, fun o ho => (hkeep i hlt o ho).trans (htr o ho)⟩
    · exact ⟨f, h.avail hf, fun hbad => hf' (hmap.avail hbad), hmap.not_usesTable hf' (h.sound.fresh f hf), hnew⟩
  · rcases Nat.lt_succ_iff_lt_or_eq.mp hi with hlt | rfl
    · rcases Nat.lt_succ_iff_lt_or_eq.mp hj with hlt' | rfl
      · rw [hold i hlt, hold j hlt']
        exact h.distinct i hlt j hlt' hne
      · exact hfresh i hlt
    · rcases Nat.lt_succ_iff_lt_or_eq.mp hj with hlt' | rfl
      · exact (hfresh j hlt').symm
      · exact absurd rfl hne
  · have hvn : pathOf v ≠ pathOf (heapPage n) := hv n (Nat.lt_succ_self n)
    exact ((hmap.elsewhere hvn).trans (hgrown.translate v)).trans (h.elsewhere v fun i hi => hv i (Nat.lt_succ_of_lt hi))

/-- The loop, when it ends with success, has mapped all pages. -/
theorem mapHeap_spec : ∀ (turns n : Nat) (s : PagingState AllocatorGlobals), turns + n = 2048 → HeapMapped s₀ s n →
    mapHeap turns (n * 4096) s = some (.ok (), s') → HeapMapped s₀ s' 2048
  | 0, n, s, hn, h, heq => by
    have hdone : ¬n * 4096 < heapSize := mul_lt_heapSize_iff.not.mpr (by omega)
    rw [mapHeap, if_neg hdone] at heq
    obtain ⟨-, rfl⟩ := Prod.mk.inj (Option.some.inj heq)
    rwa [show 2048 = n by omega]
  | turns + 1, n, s, hn, h, heq => by
    have hmore : n * 4096 < heapSize := mul_lt_heapSize_iff.mpr (by omega)
    rw [mapHeap, if_pos hmore] at heq
    cases halloc : s.frames.allocFrame with
    | mk r g =>
      rw [halloc] at heq
      cases r with
      | none => exact nomatch heq
      | some f =>
        simp only at heq
        cases hmap : map AllocatorGlobals.allocFrame (heapStart + n * 4096) f.startAddress heapFlags { s with frames := g } with
        | none =>
          rw [hmap] at heq
          exact nomatch heq
        | some out =>
          obtain ⟨r, s₁⟩ := out
          rw [hmap] at heq
          cases r with
          | error e => exact nomatch heq
          | ok u =>
            have hsound := (Grown.of_alloc h.sound halloc).sound
            rcases (map_cases hsound hmap).2 with ⟨e, he, -⟩ | ⟨-, hm⟩
            · exact nomatch he
            · refine mapHeap_spec turns (n + 1) s₁ (by omega) (h.step (by omega) halloc hm) ?_
              rw [Nat.succ_mul]
              exact heq

/-- As many allocations succeed as frames are free. -/
theorem lasts_bitmap : ∀ {n : Nat} {g : AllocatorGlobals}, g.allocator.Accounted → n ≤ g.allocator.free.card →
    bitmapSource.Lasts n g
  | 0, _, _, _ => trivial
  | n + 1, g, hacc, hn => by
    rcases allocateFrame_spec hacc with ⟨-, hempty⟩ | ⟨i, hi, a', heq, hfree, hacc', -⟩
    · rw [hempty, Finset.card_empty] at hn
      exact absurd hn (Nat.not_succ_le_zero n)
    · refine ⟨⟨i * pageSize⟩, { g with allocator := a' }, ?_, lasts_bitmap hacc' ?_⟩
      · simp only [bitmapSource, AllocatorGlobals.allocFrame, heq]
      · rw [hfree, Finset.card_erase_of_mem hi]
        omega

/-- The loop succeeds when there are four frames for each page, no large page is in the way, and none of the pages is mapped. -/
theorem mapHeap_succeeds (hoff : s₀.offset ≠ 2 ^ 64 - 1) (hvacant : ∀ i < 2048, translate s₀ (heapPage i) = none) :
    ∀ (turns n : Nat) (s : PagingState AllocatorGlobals), turns + n = 2048 → HeapMapped s₀ s n →
      Intermediates (·.isHuge = false) s → bitmapSource.Lasts (4 * turns) s.frames →
      ∃ s', mapHeap turns (n * 4096) s = some (.ok (), s')
  | 0, n, s, hn, _, _, _ => by
    have hdone : ¬n * 4096 < heapSize := mul_lt_heapSize_iff.not.mpr (by omega)
    exact ⟨s, by rw [mapHeap, if_neg hdone]⟩
  | turns + 1, n, s, hn, h, hhuge, ⟨f, g, halloc, hlasts⟩ => by
    have hn' : n < 2048 := by omega
    have hmore : n * 4096 < heapSize := mul_lt_heapSize_iff.mpr hn'
    have hgrown := Grown.of_alloc h.sound halloc
    have hhuge' := hhuge.grown isHuge_intermediate hgrown
    have hoff' : s.offset ≠ 2 ^ 64 - 1 := by rwa [h.offset]
    have hnone : translate { s with frames := g } (heapPage n) = none :=
      (h.elsewhere _ fun i hi => heapPage_ne hn' (Nat.lt_trans hi hn') (Nat.ne_of_gt hi)).trans (hvacant n hn')
    obtain ⟨s₁, hexec, hlasts'⟩ :=
      mapPage_ok hgrown.sound hoff' f.startAddress heapFlags hhuge' hnone hlasts
    have hmap : map bitmapSource.alloc (heapPage n) f.startAddress heapFlags { s with frames := g } = some (.ok (), s₁) := by
      rw [map, and_fff, and_fff, if_pos ⟨(heapPage_spec hn').2, (bitmapSource.frame (bitmapSource.yields halloc).1).1⟩, hexec]
    rcases (map_cases hgrown.sound hmap).2 with ⟨e, he, -⟩ | ⟨-, hm⟩
    · cases he
    · obtain ⟨s', hs'⟩ := mapHeap_succeeds hoff hvacant turns (n + 1) s₁ (by omega) (h.step hn' halloc hm)
        (hm.intermediates isHuge_intermediate hhuge') hlasts'
      refine ⟨s', ?_⟩
      rw [Nat.succ_mul] at hs'
      rw [mapHeap, if_pos hmore]
      simp only [show s.frames.allocFrame = (some f, g) from halloc,
        show map AllocatorGlobals.allocFrame (heapStart + n * 4096) f.startAddress heapFlags { s with frames := g } =
          some (.ok (), s₁) from hmap]
      exact hs'

/-! ## `init_from_info` -/

/-- What a successful bring-up has done: the offset is recorded, the frame allocator holds the usable frames, and the loop has
mapped the heap from there. -/
theorem initFromInfo_ok {k k' : KernelMemory} {info : MemoryInfo} (hboot : k.paging.frames = .boot)
    (h : k.initFromInfo info = some (.ok (), k')) :
    ∃ a : BitmapFrameAllocator, (∀ i ∈ a.free, Described info.regions i) ∧
      mapHeap 2048 (0 * 4096) { k.paging with offset := info.physicalMemoryOffset, frames := ⟨a, true⟩ } = some (.ok (), k'.paging) := by
  unfold KernelMemory.initFromInfo pagingInit at h
  split at h
  · exact nomatch h
  · rename_i s hs
    split at hs
    · exact nomatch hs
    · obtain rfl := Except.ok.inj hs
      obtain ⟨q, a, hinit, -, hsound, -, -⟩ := AllocatorGlobals.init_spec info.regions
      rw [hboot, hinit] at h
      cases q with
      | error e => exact nomatch h
      | ok u =>
        refine ⟨a, hsound, ?_⟩
        obtain ⟨⟨r, s⟩, hloop, heq⟩ := Option.map_eq_some_iff.mp h
        cases r with
        | error e => exact nomatch (Prod.mk.inj heq).1
        | ok u =>
          obtain ⟨-, rfl⟩ := Prod.mk.inj heq
          exact hloop

/-- A frame the allocator was given lies in a usable region. -/
theorem BitmapFrameAllocator.Described.within {regions : List MemoryRegion} {i : Nat} (h : Described regions i)
    (hregions : ∀ r ∈ regions, r.start ≤ r.stop ∧ r.stop < 2 ^ 52) :
    ∃ r ∈ regions, r.kind = .usable ∧ r.start ≤ i * 4096 ∧ i * 4096 + 4096 ≤ r.stop := by
  obtain ⟨r, hr, hkind, hin⟩ := h
  obtain ⟨hle, hlt⟩ := hregions r hr
  have hup : r.start ≤ alignUp r.start (2 ^ 12) := (alignUp_spec r.start (k := 12) (by decide) (by omega)).2.1
  have hdown : alignDown r.stop (2 ^ 12) ≤ r.stop := by
    rw [alignDown_eq (by decide) (by omega)]
    exact Nat.div_mul_le_self _ _
  obtain ⟨hlo, hhi⟩ := frameIn_iff.mp hin
  exact ⟨r, hr, hkind, hup.trans hlo, hhi.trans hdown⟩

/-- When the heap's loop starts, the frames that may be handed out are not tables. -/
theorem sound_started {s : PagingState AllocatorGlobals} {regions : List MemoryRegion} {a : BitmapFrameAllocator} (offset : Nat)
    (hregions : ∀ r ∈ regions, r.start ≤ r.stop ∧ r.stop < 2 ^ 52) (htree : s.IsTree)
    (houtside : ∀ t, s.UsesTable t → ∀ r ∈ regions, r.kind = .usable → ¬(r.start ≤ t ∧ t + pageSize ≤ r.stop))
    (hdescribed : ∀ i ∈ a.free, Described regions i) : Sound bitmapSource { s with offset, frames := ⟨a, true⟩ } := by
  refine ⟨htree, ?_⟩
  rintro f ⟨i, hi, rfl⟩ hbad
  obtain ⟨r, hr, hkind, hlo, hhi⟩ := (hdescribed i hi).within hregions
  exact houtside _ hbad r hr hkind ⟨hlo, hhi⟩

/-- For every memory map and every tree of page tables none of whose frames lies in a usable region: when bring-up succeeds, each
page of the heap is looked up in a frame that lies in a usable region, is not used as a table and is not marked free, different
pages in different frames, and every canonical address outside the heap is looked up as the tables had it before. (Before bring-up
no offset is recorded, and `translate` would find nothing; the comparison is with the offset that bring-up records.) -/
theorem bringup_gives_private_frames (k k' : KernelMemory) (info : MemoryInfo) (hboot : k.paging.frames = .boot)
    (hregions : ∀ r ∈ info.regions, r.start ≤ r.stop ∧ r.stop < 2 ^ 52) (htree : k.paging.IsTree)
    (houtside : ∀ t, k.paging.UsesTable t → ∀ r ∈ info.regions, r.kind = .usable → ¬(r.start ≤ t ∧ t + pageSize ≤ r.stop))
    (hinit : k.initFromInfo info = some (.ok (), k')) :
    (∀ i < heapSize / pageSize, ∃ f : Frame,
      (∀ o < pageSize, translate k'.paging (heapStart + i * pageSize + o) = some (f.startAddress + o)) ∧
      (∃ r ∈ info.regions, r.kind = .usable ∧ r.start ≤ f.startAddress ∧ f.startAddress + pageSize ≤ r.stop) ∧
      ¬k'.paging.UsesTable f.startAddress ∧ f.number ∉ k'.paging.frames.allocator.free) ∧
    (∀ i < heapSize / pageSize, ∀ j < heapSize / pageSize, i ≠ j →
      translate k'.paging (heapStart + i * pageSize) ≠ translate k'.paging (heapStart + j * pageSize)) ∧
    ∀ v, Canonical v → ¬(heapStart ≤ v ∧ v < heapStart + heapSize) →
      translate k'.paging v =
        translate ({ k.paging with offset := info.physicalMemoryOffset } : PagingState AllocatorGlobals) v := by
  obtain ⟨a, hdescribed, hloop⟩ := initFromInfo_ok hboot hinit
  have hsound := sound_started info.physicalMemoryOffset hregions htree houtside hdescribed
  have hmapped := mapHeap_spec 2048 0 _ rfl (HeapMapped.zero hsound) hloop
  refine ⟨fun i hi => ?_, hmapped.distinct, fun v hv hout => hmapped.elsewhere v fun i hi heq => hout ?_⟩
  · obtain ⟨f, hf, hf', hno, htr⟩ := hmapped.pages i hi
    obtain ⟨hmem, hnumber⟩ := IsFrameOf.number_mem hf
    refine ⟨f, htr, ?_, hno, fun hbad => hf' ⟨f.number, hbad, hnumber⟩⟩
    rw [hnumber]
    exact (hdescribed _ hmem).within hregions
  · have hpage := page_eq_of_pathOf hv (heapPage_spec hi).1 heq
    simp only [heapPage, heapStart, heapSize] at hpage ⊢
    omega

/-- Bring-up succeeds when the memory map fits the bitmap, there are four usable frames for each page of the heap, no large page is
in the way, and none of the heap's pages is mapped. -/
theorem initFromInfo_succeeds {k : KernelMemory} {info : MemoryInfo} (hboot : k.paging.frames = .boot)
    (hoff : info.physicalMemoryOffset ≠ 2 ^ 64 - 1) (hfits : Bootable info.regions) {frames : Finset Nat}
    (hframes : ∀ i ∈ frames, Described info.regions i) (hcard : 4 * 2048 ≤ frames.card)
    (hregions : ∀ r ∈ info.regions, r.start ≤ r.stop ∧ r.stop < 2 ^ 52) (htree : k.paging.IsTree)
    (houtside : ∀ t, k.paging.UsesTable t → ∀ r ∈ info.regions, r.kind = .usable → ¬(r.start ≤ t ∧ t + pageSize ≤ r.stop))
    (hhuge : Intermediates (·.isHuge = false) k.paging)
    (hvacant : ∀ i < 2048,
      translate ({ k.paging with offset := info.physicalMemoryOffset } : PagingState AllocatorGlobals) (heapPage i) = none) :
    ∃ k', k.initFromInfo info = some (.ok (), k') := by
  obtain ⟨q, a, hinit, hacc, hdescribed, hcomplete, hok⟩ := AllocatorGlobals.init_spec info.regions
  obtain rfl := hok hfits
  have henough : 4 * 2048 ≤ a.free.card := hcard.trans (Finset.card_le_card fun i hi => hcomplete rfl i (hframes i hi))
  have hsound := sound_started info.physicalMemoryOffset hregions htree houtside hdescribed
  let s₀ : PagingState AllocatorGlobals := { k.paging with offset := info.physicalMemoryOffset, frames := ⟨a, true⟩ }
  have hvacant' : ∀ i < 2048, translate s₀ (heapPage i) = none := hvacant
  obtain ⟨s', hs'⟩ := mapHeap_succeeds hoff hvacant' 2048 0 _ rfl (HeapMapped.zero hsound) hhuge
    (lasts_bitmap (n := 4 * 2048) hacc henough)
  refine ⟨⟨s', k.heap.init heapStart heapSize⟩, ?_⟩
  rw [KernelMemory.initFromInfo, pagingInit, if_neg hoff]
  simp only [hboot, hinit]
  exact congrArg (Option.map _) hs'

/-- A machine at boot: an empty top table in frame 1. -/
def bootKernel : KernelMemory := ⟨⟨2 ^ 64 - 1, 0x1000#64, fun _ => .empty, .boot⟩, ⟨0, fun _ => 0⟩⟩

/-- A memory map with one usable region of 8192 frames from 1 MiB on. -/
def bootMap : MemoryInfo := ⟨0xFFFF800000000000, [⟨0x100000, 0x2100000, .usable⟩]⟩

theorem bringup_gives_private_frames_boot :
    ∃ k', bootKernel.initFromInfo bootMap = some (.ok (), k') ∧
      ∀ i < 2048, ∃ f : Frame, translate k'.paging (heapStart + i * 4096) = some f.startAddress ∧
        0x100000 ≤ f.startAddress ∧ f.startAddress + 4096 ≤ 0x2100000 := by
  have hempty : ∀ i, bootKernel.paging.tables bootKernel.paging.root i = .empty := fun _ => rfl
  have hroot : bootKernel.paging.root = 0x1000 := by decide
  have hregions : ∀ r ∈ bootMap.regions, r.start ≤ r.stop ∧ r.stop < 2 ^ 52 := by decide
  have htree : bootKernel.paging.IsTree := isTree_of_empty hempty
  have houtside : ∀ t, bootKernel.paging.UsesTable t → ∀ r ∈ bootMap.regions, r.kind = .usable →
      ¬(r.start ≤ t ∧ t + pageSize ≤ r.stop) := by
    rintro t ⟨p, -, hp⟩ r hr -
    obtain rfl := List.mem_singleton.mp hr
    rw [(walk_of_empty hempty hp).2, hroot]
    decide
  have hframes : ∀ i ∈ Finset.Ico 256 8448, Described bootMap.regions i := by
    intro i hi
    obtain ⟨hlo, hhi⟩ := Finset.mem_Ico.mp hi
    refine ⟨_, List.mem_singleton.mpr rfl, rfl, frameIn_iff.mpr ?_⟩
    rw [show alignUp 0x100000 pageSize = 0x100000 by decide, show alignDown 0x2100000 pageSize = 0x2100000 by decide]
    omega
  obtain ⟨k', hk'⟩ : ∃ k', bootKernel.initFromInfo bootMap = some (.ok (), k') := initFromInfo_succeeds rfl (by decide)
    ⟨by decide, by decide⟩ hframes (Nat.card_Ico 256 8448).ge hregions htree houtside (intermediates_of_empty hempty _)
    fun i _ => translate_of_empty (s := { bootKernel.paging with offset := bootMap.physicalMemoryOffset }) hempty _
  refine ⟨k', hk', fun i hi => ?_⟩
  obtain ⟨f, htr, ⟨r, hr, -, hlo, hhi⟩, -, -⟩ :=
    (bringup_gives_private_frames bootKernel k' bootMap rfl hregions htree houtside hk').1 i hi
  obtain rfl := List.mem_singleton.mp hr
  exact ⟨f, htr 0 (by decide), hlo, hhi⟩

end Memory

end GolemKernel
