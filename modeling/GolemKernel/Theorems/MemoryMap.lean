import GolemKernel.Lemmas.Allocator

/-!
# The frames a memory map describes

`allocator::init` rounds the start of a region up and its end down, and frees the frames between. If it succeeds, what it leaves is a
function of the set of regions: neither their order nor an overlap shows. It does not always do what the comment on
`MAX_PHYSICAL_BYTES` says of memory above the bitmap: the first frame there ends the call, and the regions that come after it are not
looked at, also where they lie below.
-/

namespace GolemKernel

namespace Memory

open BitmapFrameAllocator

/-- Frame `i` lies in the region with all its bytes. -/
def MemoryRegion.Contains (r : MemoryRegion) (i : Nat) : Prop := r.start ≤ 4096 * i ∧ 4096 * (i + 1) ≤ r.stop

/-- Frame `i` lies in a single usable region. -/
def UsableFrame (regions : List MemoryRegion) (i : Nat) : Prop := ∃ r ∈ regions, r.kind = .usable ∧ r.Contains i

/-- A usable region with a whole frame at or above `MAX_PHYSICAL_BYTES`. -/
def MemoryRegion.AboveCap (r : MemoryRegion) : Prop := r.kind = .usable ∧ ∃ i, r.Contains i ∧ maxFrames ≤ i

/-- A region of a memory map of at most `2 ^ 52` bytes. -/
def MemoryRegion.Proper (r : MemoryRegion) : Prop := r.start ≤ r.stop ∧ r.stop < 2 ^ 52

/-- The rounding in opposite directions keeps exactly the whole frames. -/
theorem frameIn_align_iff {r : MemoryRegion} (h : r.Proper) (i : Nat) :
    FrameIn (alignUp r.start pageSize) (alignDown r.stop pageSize) i ↔ r.Contains i := by
  obtain ⟨hle, hlt⟩ := h
  obtain ⟨hdvd, hup, hnext⟩ := alignUp_spec r.start (k := 12) (by decide) (by omega)
  have hdown : alignDown r.stop (2 ^ 12) = r.stop / 2 ^ 12 * 2 ^ 12 := alignDown_eq (by decide) (by omega)
  have hpage : pageSize = 2 ^ 12 := rfl
  rw [frameIn_iff, hpage, hdown, MemoryRegion.Contains]
  omega

section

variable {regions : List MemoryRegion} (hmap : ∀ r ∈ regions, r.Proper)

include hmap

/-- The loop frees the frames that lie in a usable region as a whole. -/
theorem described_iff (i : Nat) : Described regions i ↔ UsableFrame regions i := by
  refine exists_congr fun r => and_congr_right fun hr => and_congr_right fun _ => ?_
  exact frameIn_align_iff (hmap r hr) i

omit hmap in
/-- From the state at boot, what is freed is what is free. -/
theorem mem_free_of_frees {p : Nat → Prop} {a : BitmapFrameAllocator} (h : Frees p .new a) (i : Nat) :
    i ∈ a.free ↔ i < maxFrames ∧ p i := by
  rw [h.mem_free i, new_free]
  exact or_iff_right (Finset.notMem_empty i)

/-- A region is too much for the bitmap if it has a frame above the limit. -/
theorem exceeds_iff {r : MemoryRegion} (hr : r ∈ regions) : Exceeds r ↔ r.AboveCap := by
  refine and_congr_right fun _ => exists_congr fun i => and_congr_left fun _ => ?_
  exact frameIn_align_iff (hmap r hr) i

end

/-- If `init` succeeds, the free frames are those that lie in a single usable region, both counters are their number, and every list of
the same regions, in whatever order and however often it has each of them, gives the same allocator. -/
theorem init_frees_usable_frames (regions : List MemoryRegion) (hmap : ∀ r ∈ regions, r.Proper) (g : AllocatorGlobals)
    (hinit : AllocatorGlobals.boot.init regions = some (.ok (), g)) :
    (∀ i, i ∈ g.allocator.bitmap.clearBits maxFrames ↔ UsableFrame regions i) ∧
    g.allocator.freeFrames = Set.ncard {i | UsableFrame regions i} ∧
    g.allocator.totalFrames = Set.ncard {i | UsableFrame regions i} ∧
    ∀ regions' : List MemoryRegion, (∀ r, r ∈ regions' ↔ r ∈ regions) →
      AllocatorGlobals.boot.init regions' = some (.ok (), g) := by
  obtain ⟨q, a, heq, hfreed⟩ := AllocatorGlobals.init_freed regions
  obtain ⟨rfl, rfl⟩ := Prod.mk.inj (Option.some.inj (hinit.symm.trans heq))
  cases hfreed with
  | upTo before r after hsplit hbefore hr hfrees hq => cases hq
  | all hfits hfrees hq =>
    have hmem : ∀ i, i ∈ a.free ↔ UsableFrame regions i := by
      intro i
      rw [mem_free_of_frees hfrees, ← described_iff hmap, and_iff_right_iff_imp]
      rintro ⟨r, hr, hk, hi⟩
      exact Nat.lt_of_not_le fun hmax => hfits r hr ⟨hk, i, hi, hmax⟩
    have hcard : a.freeFrames = Set.ncard {i | UsableFrame regions i} := by
      have hset : {i | UsableFrame regions i} = (a.free : Set Nat) := Set.ext fun i => (hmem i).symm
      rw [hfrees.accounted new_accounted, hset, Set.ncard_coe_finset]
    refine ⟨hmem, hcard, (hfrees.total rfl).trans hcard, ?_⟩
    intro regions' hsame
    obtain ⟨q', a', heq', hfreed'⟩ := AllocatorGlobals.init_freed regions'
    cases hfreed' with
    | upTo before r after hsplit hbefore hr hfrees' hq' =>
      have hr' : r ∈ regions' := by
        rw [hsplit]
        exact List.mem_append_right _ List.mem_cons_self
      exact absurd hr (hfits r ((hsame r).mp hr'))
    | all hfits' hfrees' hq' =>
      have hdescribed : ∀ i, Described regions' i ↔ Described regions i := fun i =>
        exists_congr fun r => and_congr_left fun _ => hsame r
      have ha : a' = a := (hfrees'.congr fun i _ => hdescribed i).unique hfrees new_accounted rfl
      have hok : q' = .ok () := by
        refine hq'.mpr ((hq.mp rfl).imp_right ?_)
        rintro ⟨r, hr, hwhole⟩
        exact ⟨r, (hsame r).mpr hr, hwhole⟩
      rw [heq', ha, hok]

/-- Two regions that overlap, neither of them aligned, and one that is reserved. -/
def overlapping : List MemoryRegion := [⟨0x1001, 0x4fff, .usable⟩, ⟨0, 0x5000, .reserved⟩, ⟨0x2800, 0x6000, .usable⟩]

theorem overlapping_proper : ∀ r ∈ overlapping, r.Proper := by
  unfold MemoryRegion.Proper
  decide

theorem init_frees_usable_frames_overlapping : ∃ g, AllocatorGlobals.boot.init overlapping = some (.ok (), g) ∧
    AllocatorGlobals.boot.init overlapping.reverse = some (.ok (), g) := by
  obtain ⟨q, a, heq, -, -, -, hok⟩ := AllocatorGlobals.init_spec overlapping
  have hb : Bootable overlapping := ⟨by decide, ⟨_, List.mem_cons_self, by decide, by decide⟩⟩
  rw [hok hb] at heq
  obtain ⟨-, -, -, hsame⟩ := init_frees_usable_frames overlapping overlapping_proper _ heq
  exact ⟨_, heq, hsame overlapping.reverse fun r => List.mem_reverse⟩

/-! ## Memory above the bitmap -/

/-- After `init`, whatever it returns, the free frames are the usable frames below `MAX_PHYSICAL_BYTES`. -/
def FreesBelowCap (regions : List MemoryRegion) : Prop :=
  ∃ q g, AllocatorGlobals.boot.init regions = some (q, g) ∧
    ∀ i < maxFrames, i ∈ g.allocator.bitmap.clearBits maxFrames ↔ UsableFrame regions i

/-- A frame is usable in one of two parts of the map. -/
theorem usableFrame_append {before after : List MemoryRegion} {i : Nat} :
    UsableFrame (before ++ after) i ↔ UsableFrame before i ∨ UsableFrame after i := by
  simp only [UsableFrame, List.mem_append, or_and_right, exists_or]

/-- There is only one first region above the bitmap. -/
theorem first_above_unique {before before' after after' : List MemoryRegion} {r r' : MemoryRegion}
    (h : before ++ r :: after = before' ++ r' :: after') (hbefore : ∀ s ∈ before, ¬s.AboveCap) (hr : r.AboveCap)
    (hbefore' : ∀ s ∈ before', ¬s.AboveCap) (hr' : r'.AboveCap) : before = before' ∧ r = r' ∧ after = after' := by
  induction before generalizing before' with
  | nil =>
    cases before' with
    | nil =>
      obtain ⟨hhead, htail⟩ := List.cons.inj h
      exact ⟨rfl, hhead, htail⟩
    | cons s before' =>
      obtain ⟨rfl, -⟩ := List.cons.inj h
      exact absurd hr (hbefore' r List.mem_cons_self)
  | cons s before ih =>
    cases before' with
    | nil =>
      obtain ⟨rfl, -⟩ := List.cons.inj h
      exact absurd hr' (hbefore s List.mem_cons_self)
    | cons s' before' =>
      obtain ⟨rfl, htail⟩ := List.cons.inj h
      obtain ⟨rfl, hrest⟩ := ih htail (List.forall_mem_of_forall_mem_cons hbefore) (List.forall_mem_of_forall_mem_cons hbefore')
      exact ⟨rfl, hrest⟩

/-- Memory above the bitmap costs no frame below it exactly if every frame below it that a region has after the first region with a
frame above it, is also in that region or in one before it. -/
theorem frees_below_cap_iff (regions : List MemoryRegion) (hmap : ∀ r ∈ regions, r.Proper) :
    FreesBelowCap regions ↔ ∀ before r after, regions = before ++ r :: after → (∀ r' ∈ before, ¬r'.AboveCap) → r.AboveCap →
      ∀ i < maxFrames, UsableFrame after i → UsableFrame (before ++ [r]) i := by
  obtain ⟨q, a, heq, hfreed⟩ := AllocatorGlobals.init_freed regions
  have hstate : FreesBelowCap regions ↔ ∀ i < maxFrames, i ∈ a.free ↔ UsableFrame regions i := by
    constructor
    · rintro ⟨q', g, heq', h⟩
      obtain ⟨-, rfl⟩ := Prod.mk.inj (Option.some.inj (heq.symm.trans heq'))
      exact h
    · intro h
      exact ⟨q, ⟨a, true⟩, heq, h⟩
  rw [hstate]
  cases hfreed with
  | all hfits hfrees hq =>
    refine iff_of_true ?_ ?_
    · intro i hi
      rw [mem_free_of_frees hfrees, and_iff_right hi, described_iff hmap]
    · intro before r after hsplit _ hr
      have hmem : r ∈ regions := by
        rw [hsplit]
        exact List.mem_append_right _ List.mem_cons_self
      exact absurd ((exceeds_iff hmap hmem).mpr hr) (hfits r hmem)
  | upTo before r after hsplit hbefore hr hfrees hq =>
    subst hsplit
    have hsub : ∀ r' ∈ before ++ [r], r' ∈ before ++ r :: after := by
      intro r' hr'
      rw [List.append_cons]
      exact List.mem_append_left _ hr'
    have hfree : ∀ i < maxFrames, i ∈ a.free ↔ UsableFrame (before ++ [r]) i := by
      intro i hi
      rw [mem_free_of_frees hfrees, and_iff_right hi, described_iff fun r' hr' => hmap r' (hsub r' hr')]
    have hsplit : ∀ i, UsableFrame (before ++ r :: after) i ↔ UsableFrame (before ++ [r]) i ∨ UsableFrame after i := by
      intro i
      rw [List.append_cons, usableFrame_append]
    have hr' : r.AboveCap := (exceeds_iff hmap (hsub r (List.mem_append_right _ List.mem_cons_self))).mp hr
    have hfirst : ∀ r' ∈ before, ¬r'.AboveCap := by
      intro r' hmem
      rw [← exceeds_iff hmap (List.mem_append_left _ hmem)]
      exact hbefore r' hmem
    constructor
    · intro h before' s after' heqs hbefore' hs i hi hafter
      obtain ⟨rfl, rfl, rfl⟩ := first_above_unique heqs hfirst hr' hbefore' hs
      exact (hfree i hi).mp ((h i hi).mpr ((hsplit i).mpr (.inr hafter)))
    · intro h i hi
      rw [hfree i hi, hsplit i]
      exact ⟨.inl, fun hor => hor.elim id (h before r after rfl hfirst hr' i hi)⟩

/-- The lowest frame. -/
def lowFrame : MemoryRegion := ⟨0, 0x1000, .usable⟩

/-- The first frame above the bitmap. -/
def highFrame : MemoryRegion := ⟨0x800000000, 0x800001000, .usable⟩

theorem aboveCap_lowFrame : ¬lowFrame.AboveCap := by
  rintro ⟨-, i, ⟨-, hstop⟩, hmax⟩
  have hend : 4096 * (i + 1) ≤ 0x1000 := hstop
  rw [maxFrames_eq] at hmax
  omega

theorem aboveCap_highFrame : highFrame.AboveCap := ⟨rfl, 8388608, ⟨by decide, by decide⟩, by decide⟩

theorem low_high_proper : ∀ r ∈ [lowFrame, highFrame], r.Proper := by
  unfold MemoryRegion.Proper
  decide

/-- The memory above the bitmap comes last. -/
theorem frees_below_cap_iff_ascending : FreesBelowCap [lowFrame, highFrame] := by
  refine (frees_below_cap_iff _ low_high_proper).mpr ?_
  intro before r after hsplit hbefore hr i _ hafter
  have hfirst : ∀ s ∈ [lowFrame], ¬s.AboveCap := by
    intro s hs
    rw [List.mem_singleton.mp hs]
    exact aboveCap_lowFrame
  have hsplit' : [lowFrame] ++ highFrame :: [] = before ++ r :: after := hsplit
  obtain ⟨-, -, rfl⟩ := first_above_unique hsplit' hfirst aboveCap_highFrame hbefore hr
  obtain ⟨s, hs, -⟩ := hafter
  exact absurd hs List.not_mem_nil

/-- The memory above the bitmap comes first. The call ends there, and no frame is free. -/
theorem low_frame_lost : UsableFrame [highFrame, lowFrame] 0 ∧
    (∃ g, AllocatorGlobals.boot.init [highFrame, lowFrame] = some (.error .bitmapTooSmall, g) ∧ g.allocator.free = ∅) ∧
      ¬FreesBelowCap [highFrame, lowFrame] := by
  have husable : UsableFrame [highFrame, lowFrame] 0 :=
    ⟨lowFrame, List.mem_cons_of_mem _ List.mem_cons_self, rfl, by decide, by decide⟩
  have hinit : AllocatorGlobals.boot.init [highFrame, lowFrame] = some (.error .bitmapTooSmall, ⟨.new, true⟩) := rfl
  refine ⟨husable, ⟨_, hinit, new_free⟩, ?_⟩
  rintro ⟨q, g, heq, hfree⟩
  obtain ⟨-, rfl⟩ := Prod.mk.inj (Option.some.inj (hinit.symm.trans heq))
  have hmem : 0 ∈ BitmapFrameAllocator.new.free := (hfree 0 (by decide)).mpr husable
  rw [new_free] at hmem
  exact Finset.notMem_empty 0 hmem

end Memory

end GolemKernel
