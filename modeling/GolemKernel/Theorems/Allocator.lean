import GolemKernel.Lemmas.Allocator

/-!
# Frames are handed out once

A run of the frame allocator begins with the state a successful `init` leaves and goes on with allocations, and with frees of
frames that are out. The frames that are out are never free, each is out once, and all of them were free after `init`.
-/

namespace GolemKernel

namespace Memory

open BitmapFrameAllocator

/-- The allocator, the frames that are out, and the frames that were ever returned. -/
structure FrameState where
  allocator : BitmapFrameAllocator
  outstanding : List Frame
  returned : List Frame

/-- One call of the allocator. -/
inductive FrameStep (s : FrameState) : FrameState → Prop where
  | allocate (frame : Frame) (a : BitmapFrameAllocator) (h : s.allocator.allocateFrame = (some frame, a)) :
      FrameStep s ⟨a, frame :: s.outstanding, frame :: s.returned⟩
  | exhausted (a : BitmapFrameAllocator) (h : s.allocator.allocateFrame = (none, a)) :
      FrameStep s ⟨a, s.outstanding, s.returned⟩
  | deallocate (frame : Frame) (h : frame ∈ s.outstanding) :
      FrameStep s ⟨s.allocator.deallocateFrame frame, s.outstanding.erase frame, s.returned⟩

/-- The states of the runs that begin after a successful initialisation with the statics `g`. -/
def FrameReachable (g : AllocatorGlobals) (s : FrameState) : Prop := Relation.ReflTransGen FrameStep ⟨g.allocator, [], []⟩ s

/-- What every run keeps, from the frames that were free when it began. -/
structure FrameInv (initial : Finset Nat) (s : FrameState) : Prop where
  accounted : s.allocator.Accounted
  free_subset : s.allocator.free ⊆ initial
  nodup : s.outstanding.Nodup
  out : ∀ f ∈ s.outstanding, IsFrameOf initial f ∧ ¬IsFrameOf s.allocator.free f
  returned : ∀ f ∈ s.returned, IsFrameOf initial f

/-- Every call keeps the account of the frames. -/
theorem FrameStep.inv {initial : Finset Nat} (hinit : ∀ i ∈ initial, i < maxFrames) {s s' : FrameState} (hstep : FrameStep s s')
    (h : FrameInv initial s) : FrameInv initial s' := by
  cases hstep with
  | allocate frame a heq =>
    rcases allocateFrame_spec h.accounted with ⟨hnone, -⟩ | ⟨i, hi, a', hsome, hfree, hacc, -⟩
    · exact nomatch (Prod.mk.inj (heq.symm.trans hnone)).1
    · obtain ⟨hframe, rfl⟩ := Prod.mk.inj (heq.symm.trans hsome)
      obtain rfl := Option.some.inj hframe
      have hnew : IsFrameOf initial ⟨i * pageSize⟩ := ⟨i, h.free_subset hi, rfl⟩
      have hfresh : (⟨i * pageSize⟩ : Frame) ∉ s.outstanding := fun hmem => (h.out _ hmem).2 ⟨i, hi, rfl⟩
      refine ⟨hacc, ?_, List.nodup_cons.mpr ⟨hfresh, h.nodup⟩, fun f hf => ?_, fun f hf => ?_⟩
      · rw [hfree]
        exact (Finset.erase_subset _ _).trans h.free_subset
      · rcases List.mem_cons.mp hf with rfl | hf
        · refine ⟨hnew, fun hbad => ?_⟩
          rw [isFrameOf_iff, hfree] at hbad
          exact Finset.notMem_erase i _ hbad
        · refine ⟨(h.out f hf).1, fun ⟨j, hj, hjf⟩ => (h.out f hf).2 ⟨j, ?_, hjf⟩⟩
          rw [hfree] at hj
          exact Finset.mem_of_mem_erase hj
      · rcases List.mem_cons.mp hf with rfl | hf
        · exact hnew
        · exact h.returned f hf
  | exhausted a heq =>
    rcases allocateFrame_spec h.accounted with ⟨hnone, -⟩ | ⟨i, hi, a', hsome, -⟩
    · obtain ⟨-, rfl⟩ := Prod.mk.inj (heq.symm.trans hnone)
      exact h
    · exact nomatch (Prod.mk.inj (heq.symm.trans hsome)).1
  | deallocate frame hmem =>
    obtain ⟨hnum, hframe⟩ := (h.out frame hmem).1.number_mem
    obtain ⟨hacc, hfree⟩ := deallocateFrame_spec h.accounted (hinit _ hnum)
    refine ⟨hacc, ?_, h.nodup.erase _, fun f hf => ?_, h.returned⟩
    · rw [hfree]
      exact Finset.insert_subset hnum h.free_subset
    · obtain ⟨hne, hf⟩ := (List.Nodup.mem_erase_iff h.nodup).mp hf
      refine ⟨(h.out f hf).1, fun ⟨j, hj, hjf⟩ => ?_⟩
      rw [hfree, Finset.mem_insert] at hj
      rcases hj with rfl | hj
      · exact hne (hjf.trans hframe.symm)
      · exact (h.out f hf).2 ⟨j, hj, hjf⟩

/-- So does every run. -/
theorem FrameReachable.inv {g : AllocatorGlobals} {s : FrameState} (hrun : FrameReachable g s) (hacc : g.allocator.Accounted) :
    FrameInv g.allocator.free s := by
  induction hrun with
  | refl => exact ⟨hacc, Finset.Subset.refl _, List.nodup_nil, fun f hf => (nomatch hf), fun f hf => (nomatch hf)⟩
  | tail _ hstep ih => exact hstep.inv (fun i hi => (mem_free.mp hi).1) ih

/-- After a successful `allocator::init`, in every run that frees only frames that are out: the counter is the number of clear
bits, `allocate_frame` fails exactly when there is none, a frame it returns was free and not out and the counter goes down by one
from a number that is not zero, no frame is out twice, and every frame ever returned was free after `init`. -/
theorem frame_allocator_exclusive (regions : List MemoryRegion) (g : AllocatorGlobals)
    (hinit : AllocatorGlobals.boot.init regions = some (.ok (), g)) (s : FrameState) (hs : FrameReachable g s) :
    s.allocator.freeFrames = (s.allocator.bitmap.clearBits maxFrames).card ∧
    (s.allocator.allocateFrame.1 = none ↔ ∀ i < maxFrames, s.allocator.bitmap.test i = true) ∧
    (∀ f a, s.allocator.allocateFrame = (some f, a) →
      IsFrameOf (s.allocator.bitmap.clearBits maxFrames) f ∧ f ∉ s.outstanding ∧ a.freeFrames + 1 = s.allocator.freeFrames) ∧
    s.outstanding.Nodup ∧
    ∀ f ∈ s.returned, IsFrameOf (g.allocator.bitmap.clearBits maxFrames) f := by
  obtain ⟨q, a₀, heq, hacc, -⟩ := AllocatorGlobals.init_spec regions
  obtain ⟨-, rfl⟩ := Prod.mk.inj (Option.some.inj (hinit.symm.trans heq))
  have h := hs.inv hacc
  refine ⟨h.accounted, ?_, fun f a hret => ?_, h.nodup, h.returned⟩
  · rcases allocateFrame_spec h.accounted with ⟨hnone, hempty⟩ | ⟨i, hi, a', hsome, -⟩
    · refine iff_of_true (by rw [hnone]) fun i hi => ?_
      by_contra hclear
      have hmem : i ∈ s.allocator.free := mem_free.mpr ⟨hi, by simpa using hclear⟩
      rw [hempty] at hmem
      exact Finset.notMem_empty _ hmem
    · refine iff_of_false (by rw [hsome]; exact nofun) fun hall => ?_
      obtain ⟨hlt, hclear⟩ := mem_free.mp hi
      rw [hall i hlt] at hclear
      exact nomatch hclear
  · rcases allocateFrame_spec h.accounted with ⟨hnone, -⟩ | ⟨i, hi, a', hsome, -, -, hcount⟩
    · exact nomatch (Prod.mk.inj (hret.symm.trans hnone)).1
    · obtain ⟨hframe, rfl⟩ := Prod.mk.inj (hret.symm.trans hsome)
      obtain rfl := Option.some.inj hframe
      exact ⟨⟨i, hi, rfl⟩, fun hmem => (h.out _ hmem).2 ⟨i, hi, rfl⟩, hcount⟩

/-- A memory map with two usable frames. -/
def twoFrames : List MemoryRegion := [⟨0x1000, 0x3000, .usable⟩]

/-- Both frames are allocated and the first one is given back: it is the one that comes next. -/
theorem frame_allocator_exclusive_reused :
    ∃ g s, AllocatorGlobals.boot.init twoFrames = some (.ok (), g) ∧ FrameReachable g s ∧ s.outstanding = [⟨0x2000⟩] ∧
      s.returned = [⟨0x2000⟩, ⟨0x1000⟩] ∧ s.allocator.freeFrames = (s.allocator.bitmap.clearBits maxFrames).card ∧
      ∃ a, s.allocator.allocateFrame = (some ⟨0x1000⟩, a) ∧ a.freeFrames + 1 = s.allocator.freeFrames ∧
        ∀ f ∈ s.returned, IsFrameOf (g.allocator.bitmap.clearBits maxFrames) f := by
  obtain ⟨q, a, heq, -, -, -, hok⟩ := AllocatorGlobals.init_spec twoFrames
  have hb : Bootable twoFrames := ⟨by decide, ⟨_, List.mem_singleton.mpr rfl, by decide, by decide⟩⟩
  rw [hok hb] at heq
  have hplay : ((AllocatorGlobals.boot.init twoFrames).map fun r =>
      (r.2.allocator.allocateFrame.1, r.2.allocator.allocateFrame.2.allocateFrame.1,
        (r.2.allocator.allocateFrame.2.allocateFrame.2.deallocateFrame ⟨0x1000⟩).allocateFrame.1)) =
      some (some ⟨0x1000⟩, some ⟨0x2000⟩, some ⟨0x1000⟩) := by
    decide +kernel
  rw [heq, Option.map_some, Option.some.injEq, Prod.mk.injEq, Prod.mk.injEq] at hplay
  obtain ⟨hfirst, hsecond, hthird⟩ := hplay
  have hrun : FrameReachable ⟨a, true⟩
      ⟨a.allocateFrame.2.allocateFrame.2.deallocateFrame ⟨0x1000⟩, [⟨0x2000⟩], [⟨0x2000⟩, ⟨0x1000⟩]⟩ :=
    ((Relation.ReflTransGen.single (.allocate ⟨0x1000⟩ _ (Prod.ext hfirst rfl))).tail (.allocate ⟨0x2000⟩ _ (Prod.ext hsecond rfl))).tail
      (.deallocate ⟨0x1000⟩ (by simp))
  obtain ⟨hcount, -, hnext, -, hreturned⟩ := frame_allocator_exclusive twoFrames _ heq _ hrun
  have hthird : _ = (some (⟨0x1000⟩ : Frame), _) := Prod.ext hthird rfl
  exact ⟨_, _, heq, hrun, rfl, rfl, hcount, _, hthird, (hnext _ _ hthird).2.2, hreturned⟩

end Memory

end GolemKernel
