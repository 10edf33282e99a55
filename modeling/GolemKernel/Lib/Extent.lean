import Mathlib

/-!
# Extents that tile a range

An extent is a run of addresses. A list of extents tiles a range when each begins where the one before it ends; a list covers a
range when some order of it tiles the range. Covering is what an allocator keeps: it is not changed by reordering, and not by
cutting one extent into pieces that tile it. What a reader wants of it follows: the extents are apart from each other, lie in
the range, their sizes add up to the range, and every address of the range is in one of them.

`Chain` is a singly linked list of such extents whose links live in the extents themselves: the word at the beginning of an
extent is its size and the next word the address of the next extent, or zero.
-/

namespace GolemKernel

/-- A run of `size` addresses from `addr` on. -/
structure Extent where
  addr : Nat
  size : Nat
  deriving DecidableEq, Repr

namespace Extent

/-- The first address after an extent. -/
def stop (b : Extent) : Nat := b.addr + b.size

/-- Two extents have no address in common. -/
def Apart (b c : Extent) : Prop := b.stop ≤ c.addr ∨ c.stop ≤ b.addr

/-- Two extents are apart from each other. -/
theorem Apart.symm {b c : Extent} (h : b.Apart c) : c.Apart b := Or.symm h

end Extent

/-- The extents of the list lie end to end from `lo` to `hi`, none of them empty. -/
def Tiles : Nat → List Extent → Nat → Prop
  | lo, [], hi => lo = hi
  | lo, b :: l, hi => b.addr = lo ∧ 0 < b.size ∧ Tiles b.stop l hi

/-- Two lists tile a range exactly if they tile two ranges that meet. -/
theorem tiles_append {lo hi : Nat} {l m : List Extent} :
    Tiles lo (l ++ m) hi ↔ ∃ mid, Tiles lo l mid ∧ Tiles mid m hi := by
  induction l generalizing lo with
  | nil => simp [Tiles]
  | cons b l ih =>
    simp only [List.cons_append, Tiles, ih]
    exact ⟨fun ⟨h1, h2, mid, h3, h4⟩ => ⟨mid, ⟨h1, h2, h3⟩, h4⟩, fun ⟨mid, ⟨h1, h2, h3⟩, h4⟩ => ⟨h1, h2, mid, h3, h4⟩⟩

/-- The sizes add up to the range. -/
theorem Tiles.add_sum {lo hi : Nat} {l : List Extent} (h : Tiles lo l hi) : lo + (l.map (·.size)).sum = hi := by
  induction l generalizing lo with
  | nil => simpa [Tiles] using h
  | cons b l ih =>
    obtain ⟨rfl, -, h⟩ := h
    have := ih h
    simp only [List.map_cons, List.sum_cons, Extent.stop] at this ⊢
    omega

/-- Every extent is in the range. -/
theorem Tiles.bounds {lo hi : Nat} {l : List Extent} (h : Tiles lo l hi) : ∀ b ∈ l, lo ≤ b.addr ∧ b.stop ≤ hi := by
  induction l generalizing lo with
  | nil => simp
  | cons c l ih =>
    obtain ⟨rfl, -, h⟩ := h
    intro b hb
    rcases List.mem_cons.mp hb with rfl | hb
    · have := h.add_sum
      omega
    · have := ih h b hb
      simp only [Extent.stop] at this ⊢
      omega

/-- No two extents overlap. -/
theorem Tiles.pairwise {lo hi : Nat} {l : List Extent} (h : Tiles lo l hi) : l.Pairwise Extent.Apart := by
  induction l generalizing lo with
  | nil => exact List.Pairwise.nil
  | cons b l ih =>
    obtain ⟨-, -, h⟩ := h
    exact List.pairwise_cons.mpr ⟨fun c hc => Or.inl (h.bounds c hc).1, ih h⟩

/-- Every address of the range is in an extent. -/
theorem Tiles.covered {lo hi : Nat} {l : List Extent} (h : Tiles lo l hi) {x : Nat} (hlo : lo ≤ x) (hhi : x < hi) :
    ∃ b ∈ l, b.addr ≤ x ∧ x < b.stop := by
  induction l generalizing lo with
  | nil =>
    simp only [Tiles] at h
    omega
  | cons b l ih =>
    obtain ⟨rfl, -, h⟩ := h
    by_cases hx : x < b.stop
    · exact ⟨b, by simp, hlo, hx⟩
    · obtain ⟨c, hc, hcx⟩ := ih h (by omega)
      exact ⟨c, by simp [hc], hcx⟩

/-- The extents of the list, in some order, tile the range from `lo` to `hi`. -/
def Covers (l : List Extent) (lo hi : Nat) : Prop := ∃ m : List Extent, m.Perm l ∧ Tiles lo m hi

namespace Covers

variable {l l' : List Extent} {lo hi : Nat}

/-- The order does not matter. -/
theorem perm (h : Covers l lo hi) (hp : l.Perm l') : Covers l' lo hi := by
  obtain ⟨m, hm, ht⟩ := h
  exact ⟨m, hm.trans hp, ht⟩

/-- Cutting an extent into pieces that tile it. -/
theorem cut {b : Extent} (h : Covers (b :: l) lo hi) {pieces : List Extent} (hb : Tiles b.addr pieces b.stop) :
    Covers (pieces ++ l) lo hi := by
  obtain ⟨m, hm, ht⟩ := h
  obtain ⟨pre, post, rfl⟩ := List.append_of_mem (hm.mem_iff.mpr List.mem_cons_self)
  obtain ⟨mid, hpre, rfl, -, hpost⟩ := tiles_append.mp ht
  refine ⟨pre ++ (pieces ++ post), ?_, tiles_append.mpr ⟨_, hpre, tiles_append.mpr ⟨_, hb, hpost⟩⟩⟩
  have hrest : (pre ++ post).Perm l := List.Perm.cons_inv (List.perm_middle.symm.trans hm)
  calc pre ++ (pieces ++ post) = (pre ++ pieces) ++ post := (List.append_assoc _ _ _).symm
    _ |>.Perm ((pieces ++ pre) ++ post) := List.perm_append_comm.append_right post
    _ |>.Perm (pieces ++ (pre ++ post)) := by rw [List.append_assoc]
    _ |>.Perm (pieces ++ l) := hrest.append_left pieces

/-- The sizes add up to the range. -/
theorem add_sum (h : Covers l lo hi) : lo + (l.map (·.size)).sum = hi := by
  obtain ⟨m, hm, ht⟩ := h
  rw [← (hm.map (·.size)).sum_eq]
  exact ht.add_sum

/-- Every extent is in the range. -/
theorem bounds (h : Covers l lo hi) : ∀ b ∈ l, lo ≤ b.addr ∧ b.stop ≤ hi := by
  obtain ⟨m, hm, ht⟩ := h
  exact fun b hb => ht.bounds b (hm.mem_iff.mpr hb)

/-- No two extents overlap. -/
theorem pairwise (h : Covers l lo hi) : l.Pairwise Extent.Apart := by
  obtain ⟨m, hm, ht⟩ := h
  exact (hm.pairwise_iff fun h => h.symm).mp ht.pairwise

/-- Every address of the range is in an extent. -/
theorem covered (h : Covers l lo hi) {x : Nat} (hlo : lo ≤ x) (hhi : x < hi) : ∃ b ∈ l, b.addr ≤ x ∧ x < b.stop := by
  obtain ⟨m, hm, ht⟩ := h
  obtain ⟨b, hb, hx⟩ := ht.covered hlo hhi
  exact ⟨b, hm.mem_iff.mp hb, hx⟩

/-- With all sizes at least `n`, no more extents than `n` goes into the range. -/
theorem length_mul_le (h : Covers l lo hi) {n : Nat} (hn : ∀ b ∈ l, n ≤ b.size) : l.length * n ≤ hi - lo := by
  have hsum : (l.map (·.size)).length • n ≤ (l.map (·.size)).sum :=
    List.card_nsmul_le_sum _ _ (by simpa using hn)
  have := h.add_sum
  simp only [List.length_map, smul_eq_mul] at hsum
  omega

end Covers

/-! ## Linked lists of extents -/

/-- The list of extents linked from the pointer `p` in a memory of words. -/
def Chain (mem : Nat → Nat) : Nat → List Extent → Prop
  | p, [] => p = 0
  | p, b :: l => p = b.addr ∧ p ≠ 0 ∧ mem p = b.size ∧ Chain mem (mem (p + 8)) l

/-- A chain reads the two header words of each of its extents. -/
theorem Chain.congr {mem mem' : Nat → Nat} {p : Nat} {l : List Extent} (h : Chain mem p l)
    (hsize : ∀ b ∈ l, mem' b.addr = mem b.addr) (hnext : ∀ b ∈ l, mem' (b.addr + 8) = mem (b.addr + 8)) :
    Chain mem' p l := by
  induction l generalizing p with
  | nil => exact h
  | cons b l ih =>
    obtain ⟨rfl, hp, hs, h⟩ := h
    refine ⟨rfl, hp, by rw [hsize b (by simp), hs], ?_⟩
    rw [hnext b (by simp)]
    exact ih h (fun c hc => hsize c (by simp [hc])) (fun c hc => hnext c (by simp [hc]))

/-- A pointer into a memory is the head of at most one chain. -/
theorem Chain.unique {mem : Nat → Nat} {p : Nat} {l m : List Extent} (hl : Chain mem p l) (hm : Chain mem p m) : l = m := by
  induction l generalizing p m with
  | nil =>
    cases m with
    | nil => rfl
    | cons c m => exact absurd hl hm.2.1
  | cons b l ih =>
    cases m with
    | nil => exact absurd hm hl.2.1
    | cons c m =>
      obtain ⟨hb, -, hbs, hl⟩ := hl
      obtain ⟨hc, -, hcs, hm⟩ := hm
      have hbc : b = c := by
        cases b
        cases c
        simp_all
      rw [hbc, ih hl hm]

/-- Taking an extent out of a chain: the link before it is set to the link it holds. -/
theorem Chain.unlink {mem mem' : Nat → Nat} {b c : Extent} {post : List Extent} :
    ∀ {pre : List Extent} {p : Nat}, Chain mem p (pre ++ c :: b :: post) →
      (∀ e ∈ pre ++ c :: post, mem' e.addr = mem e.addr) →
      (∀ e ∈ pre ++ post, mem' (e.addr + 8) = mem (e.addr + 8)) → mem' (c.addr + 8) = mem (b.addr + 8) →
      Chain mem' p (pre ++ c :: post)
  | [], p, h, hsize, hnext, hlink => by
    obtain ⟨rfl, hc, hs, hb, -, -, hpost⟩ := h
    refine ⟨rfl, hc, by rw [hsize c (by simp), hs], ?_⟩
    rw [hlink, ← hb]
    exact hpost.congr (fun e he => hsize e (by simp [he])) (fun e he => hnext e (by simp [he]))
  | a :: pre, p, h, hsize, hnext, hlink => by
    obtain ⟨rfl, ha, hs, h⟩ := h
    refine ⟨rfl, ha, by rw [hsize a (by simp), hs], ?_⟩
    rw [hnext a (by simp)]
    exact Chain.unlink h (fun e he => hsize e (by simp at he ⊢; tauto)) (fun e he => hnext e (by simp at he ⊢; tauto)) hlink

end GolemKernel
