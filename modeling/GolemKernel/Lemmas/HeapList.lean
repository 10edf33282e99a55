import GolemKernel.Memory.Heap

/-!
# The free list under the heap's operations

What the loop of `alloc_inner` returns on a free list, and what the pushes and the unlinking do to the list stored in memory.
The statements about memory need the blocks apart from each other and each large enough for its header.
-/

namespace GolemKernel

namespace Memory

namespace LinkedListAllocator

/-- The slot a walk that began at `s` holds after the blocks of a list. -/
def slotAfter : Slot → List Extent → Slot
  | s, [] => s
  | _, b :: l => slotAfter (.next b.addr) l

/-- The last block has the slot that comes after a list. -/
theorem slotAfter_concat (s : Slot) (l : List Extent) (c : Extent) : slotAfter s (l ++ [c]) = .next c.addr := by
  induction l generalizing s with
  | nil => rfl
  | cons b l ih => exact ih (.next b.addr)

/-- The loop takes the first block of the list that fits, or returns null when none does. -/
theorem allocLoop_spec (a : LinkedListAllocator) (size align : Nat) :
    ∀ (l : List Extent) (slot : Slot) (turns : Nat), Chain a.mem (a.load slot) l → l.length < turns →
      (allocLoop size align turns slot a = some (0, a) ∧ ∀ b ∈ l, fits size align b = false) ∨
      ∃ pre b post, l = pre ++ b :: post ∧ (∀ c ∈ pre, fits size align c = false) ∧ fits size align b = true ∧
        allocLoop size align turns slot a = some (alignUp b.addr align, a.carve (slotAfter slot pre) b size align)
  | [], slot, turns, hc, hlen => by
    obtain ⟨t, rfl⟩ := Nat.exists_eq_add_of_lt hlen
    have hload : a.load slot = 0 := hc
    left
    simp [allocLoop, hload]
  | b :: l, slot, turns, hc, hlen => by
    obtain ⟨t, rfl⟩ : ∃ t, turns = t + 1 := Nat.exists_eq_succ_of_ne_zero (by omega)
    obtain ⟨hload, hne, hsize, hrest⟩ := hc
    have hblock : (⟨a.load slot, a.mem (a.load slot)⟩ : Extent) = b := by
      rw [hsize, hload]
    cases hf : fits size align b with
    | true =>
      right
      refine ⟨[], b, l, rfl, by simp, hf, ?_⟩
      simp only [allocLoop, if_neg hne, hblock, hf, if_true, slotAfter]
      rw [hload]
    | false =>
      have hstep : allocLoop size align (t + 1) slot a = allocLoop size align t (.next b.addr) a := by
        simp only [allocLoop, if_neg hne, hblock, hf]
        rw [hload]
        rfl
      have hrest' : Chain a.mem (a.load (.next b.addr)) l := by
        rw [hload] at hrest
        exact hrest
      rw [hstep]
      rcases allocLoop_spec a size align l (.next b.addr) t hrest' (by simp at hlen; omega) with
        ⟨heq, hnone⟩ | ⟨pre, c, post, rfl, hpre, hcf, heq⟩
      · left
        refine ⟨heq, fun c hc => ?_⟩
        rcases List.mem_cons.mp hc with rfl | hc
        · exact hf
        · exact hnone c hc
      · right
        refine ⟨b :: pre, c, post, rfl, fun d hd => ?_, hcf, heq⟩
        rcases List.mem_cons.mp hd with rfl | hd
        · exact hf
        · exact hpre d hd

/-- A push puts the block before the others. -/
theorem chain_addFree {a : LinkedListAllocator} {l : List Extent} (h : Chain a.mem a.head l) {b : Extent} (hb : b.addr ≠ 0)
    (hsize : 16 ≤ b.size) (hl : ∀ c ∈ l, 16 ≤ c.size) (hap : ∀ c ∈ l, b.Apart c) :
    Chain (a.addFree b.addr b.size).mem (a.addFree b.addr b.size).head (b :: l) := by
  have hsep : ∀ c ∈ l, c.addr ≠ b.addr ∧ c.addr ≠ b.addr + 8 ∧ c.addr + 8 ≠ b.addr ∧ c.addr + 8 ≠ b.addr + 8 := by
    intro c hc
    have h1 := hl c hc
    have h2 := hap c hc
    simp only [Extent.Apart, Extent.stop] at h2
    omega
  refine ⟨rfl, hb, ?_, ?_⟩
  · simp [addFree, nextField]
  · have hnext : (a.addFree b.addr b.size).mem (b.addr + 8) = a.head := by simp [addFree, nextField]
    rw [show (a.addFree b.addr b.size).head = b.addr from rfl, hnext]
    refine h.congr (fun c hc => ?_) (fun c hc => ?_)
    · obtain ⟨h1, h2, -, -⟩ := hsep c hc
      simp [addFree, nextField, Function.update_of_ne, h1, h2]
    · obtain ⟨-, -, h3, h4⟩ := hsep c hc
      simp only [addFree, nextField]
      rw [Function.update_of_ne h4, Function.update_of_ne h3]

/-- Storing the link of a block into the slot before it unlinks the block. -/
theorem chain_store_unlink {a : LinkedListAllocator} {pre post : List Extent} {b : Extent}
    (h : Chain a.mem a.head (pre ++ b :: post)) (hsize : ∀ c ∈ pre ++ b :: post, 16 ≤ c.size)
    (hap : (pre ++ b :: post).Pairwise Extent.Apart) :
    Chain (a.store (a.mem (nextField b.addr)) (slotAfter .head pre)).mem
      (a.store (a.mem (nextField b.addr)) (slotAfter .head pre)).head (pre ++ post) := by
  rcases List.eq_nil_or_concat pre with rfl | ⟨pre, c, rfl⟩
  · obtain ⟨hb, -, -, hpost⟩ := h
    rw [hb] at hpost
    exact hpost
  · rw [List.concat_eq_append] at *
    simp only [List.append_assoc, List.cons_append, List.nil_append] at h hsize hap ⊢
    rw [slotAfter_concat]
    have hc := hsize c (by simp)
    -- the blocks other than `c` are apart from it, so their headers are not the word that is stored
    have hsep : ∀ e ∈ pre ++ post, e.Apart c := by
      intro e he
      rcases List.mem_append.mp he with he | he
      · exact (List.pairwise_append.mp hap).2.2 e he c (by simp)
      · have htail := (List.pairwise_append.mp hap).2.1
        exact ((List.pairwise_cons.mp htail).1 e (by simp [he])).symm
    have hne : ∀ e ∈ pre ++ post, e.addr ≠ c.addr + 8 ∧ e.addr + 8 ≠ c.addr + 8 := by
      intro e he
      have h1 := hsize e (by simp at he ⊢; tauto)
      have h2 := hsep e he
      simp only [Extent.Apart, Extent.stop] at h2
      omega
    refine Chain.unlink h (fun e he => ?_) (fun e he => ?_) ?_
    · simp only [store, nextField]
      by_cases hec : e = c
      · rw [hec, Function.update_of_ne (by omega)]
      · rw [Function.update_of_ne (hne e (by simp at he ⊢; tauto)).1]
    · simp only [store, nextField]
      rw [Function.update_of_ne (hne e he).2]
    · simp [store, nextField]

/-! ## Which blocks fit -/

/-- `x` is where an allocation in the block begins: the first multiple of the alignment in it, when nothing wraps. -/
structure Placed (align : Nat) (b : Extent) (x : Nat) : Prop where
  start : alignUp b.addr align = x
  addr_le : b.addr ≤ x
  aligned : align ∣ x
  near : x < b.addr + align

/-- The first aligned address of a block, if it is below 2^64. -/
theorem placed_alignUp {b : Extent} {k : Nat} (hk : k ≤ 64) (hwrap : b.addr + 2 ^ k ≤ 2 ^ 64) :
    Placed (2 ^ k) b (alignUp b.addr (2 ^ k)) := by
  have hpos : 0 < 2 ^ k := Nat.two_pow_pos k
  obtain ⟨h1, h2, h3⟩ := alignUp_spec b.addr hk (by omega)
  exact ⟨rfl, h2, h1, h3⟩

/-- A multiple of the alignment at or after the beginning of a block is its first aligned address or at least one alignment after. -/
theorem Placed.least {align : Nat} {b : Extent} {x y : Nat} (hx : Placed align b x) (hy : align ∣ y) (hle : b.addr ≤ y) :
    x ≤ y ∧ (x ≠ y → x + align ≤ y) := by
  obtain ⟨m, rfl⟩ := hy
  obtain ⟨n, rfl⟩ := hx.aligned
  have hnear := hx.near
  have hlt : n < m + 1 := by
    refine Nat.lt_of_mul_lt_mul_left (a := align) ?_
    rw [Nat.mul_add, Nat.mul_one]
    omega
  refine ⟨Nat.mul_le_mul_left _ (Nat.le_of_lt_succ hlt), ?_⟩
  intro hne
  have hnm : n ≠ m := fun h => hne (by rw [h])
  have hsucc : align * (n + 1) ≤ align * m := Nat.mul_le_mul_left _ (by omega)
  rwa [Nat.mul_add, Nat.mul_one] at hsucc

/-- An allocation of `size` bytes at `x` ends in the block and leaves nothing, or room for a header, on either side of it. -/
structure Splits (size : Nat) (b : Extent) (x : Nat) : Prop where
  addr_le : b.addr ≤ x
  le_stop : x + size ≤ b.stop
  front : b.addr = x ∨ b.addr + 16 ≤ x
  back : x + size = b.stop ∨ x + size + 16 ≤ b.stop

/-- The check of the search is that the block can be split there. -/
theorem fits_iff {size align : Nat} {b : Extent} {x : Nat} (hx : Placed align b x) (hx64 : x < 2 ^ 64) (hstop : b.stop < 2 ^ 64) :
    fits size align b = true ↔ Splits size b x := by
  have hle := hx.addr_le
  simp only [fits, hx.start, Nat.mod_eq_of_lt hstop, wrappingSub_eq hle hx64, freeBlockSize, Bool.and_eq_true,
    decide_eq_true_eq, Bool.not_eq_true', decide_eq_false_iff_not]
  constructor
  · rintro ⟨h1, ⟨h2, h3⟩, h4⟩
    exact ⟨hle, h2, by omega, by omega⟩
  · rintro ⟨-, h2, h3, h4⟩
    exact ⟨by omega, ⟨h2, by omega⟩, by omega⟩

/-- What is left of a block before an allocation at `x`. -/
def restBefore (b : Extent) (x : Nat) : List Extent := if b.addr < x then [⟨b.addr, x - b.addr⟩] else []

/-- What is left of a block after an allocation that ends at `y`. -/
def restAfter (b : Extent) (y : Nat) : List Extent := if y < b.stop then [⟨y, b.stop - y⟩] else []

/-- What is left before the allocation. -/
theorem mem_restBefore {b c : Extent} {x : Nat} (hc : c ∈ restBefore b x) : b.addr < x ∧ c = ⟨b.addr, x - b.addr⟩ := by
  unfold restBefore at hc
  split at hc
  · exact ⟨by assumption, List.mem_singleton.mp hc⟩
  · exact nomatch hc

/-- What is left after it. -/
theorem mem_restAfter {b c : Extent} {y : Nat} (hc : c ∈ restAfter b y) : y < b.stop ∧ c = ⟨y, b.stop - y⟩ := by
  unfold restAfter at hc
  split at hc
  · exact ⟨by assumption, List.mem_singleton.mp hc⟩
  · exact nomatch hc

/-- The allocation and what is left on either side of it are the block. -/
theorem tiles_split {size : Nat} {b : Extent} {x : Nat} (h : Splits size b x) (hsize : 0 < size) :
    Tiles b.addr (restBefore b x ++ ⟨x, size⟩ :: restAfter b (x + size)) b.stop := by
  obtain ⟨hle, hend, -, -⟩ := h
  have hafter : Tiles (x + size) (restAfter b (x + size)) b.stop := by
    unfold restAfter
    split
    · refine ⟨rfl, ?_, ?_⟩ <;> simp only [Extent.stop, Tiles] at * <;> omega
    · simp only [Tiles]
      omega
  refine tiles_append.mpr ⟨x, ?_, rfl, hsize, hafter⟩
  unfold restBefore
  split
  · refine ⟨rfl, ?_, ?_⟩ <;> simp only [Extent.stop, Tiles] <;> omega
  · simp only [Tiles]
    omega

/-- Taking a block that splits at `x`: what is left of it joins the list at the head, the block leaves it. -/
theorem chain_carve {a : LinkedListAllocator} {pre post : List Extent} {b : Extent} {size align x : Nat}
    (h : Chain a.mem a.head (pre ++ b :: post)) (hsize : ∀ c ∈ pre ++ b :: post, 16 ≤ c.size)
    (hap : (pre ++ b :: post).Pairwise Extent.Apart) (hb : b.addr ≠ 0) (hx : Placed align b x) (hstop : b.stop < 2 ^ 64)
    (hsplit : Splits size b x) :
    Chain (a.carve (slotAfter .head pre) b size align).mem (a.carve (slotAfter .head pre) b size align).head
      (restAfter b (x + size) ++ (restBefore b x ++ (pre ++ post))) := by
  obtain ⟨hle, hend, hfront, hback⟩ := hsplit
  have hrest : ∀ c ∈ pre ++ post, 16 ≤ c.size := fun c hc => hsize c (by simp at hc ⊢; tauto)
  have hbap : ∀ c ∈ pre ++ post, b.Apart c :=
    (List.pairwise_cons.mp ((List.perm_middle.pairwise_iff fun h => h.symm).mp hap)).1
  -- what lies in the block is apart from the rest of the list
  have hin : ∀ r : Extent, b.addr ≤ r.addr → r.stop ≤ b.stop → ∀ c ∈ pre ++ post, r.Apart c := by
    intro r h1 h2 c hc
    have h3 := hbap c hc
    simp only [Extent.Apart, Extent.stop] at *
    omega
  have hunlink := chain_store_unlink h hsize hap
  unfold carve
  simp only [hx.start, Nat.mod_eq_of_lt hstop, wrappingSub_eq hle (by omega : x < 2 ^ 64)]
  generalize a.store (a.mem (nextField b.addr)) (slotAfter .head pre) = a₁ at hunlink ⊢
  have hbefore : Chain (if 0 < x - b.addr then a₁.addFree b.addr (x - b.addr) else a₁).mem
      (if 0 < x - b.addr then a₁.addFree b.addr (x - b.addr) else a₁).head (restBefore b x ++ (pre ++ post)) := by
    unfold restBefore
    split
    · rw [if_pos (by omega)]
      refine chain_addFree (b := ⟨b.addr, x - b.addr⟩) hunlink hb (by simp only; omega) hrest (hin _ (Nat.le_refl _) ?_)
      simp only [Extent.stop] at *
      omega
    · rw [if_neg (by omega)]
      exact hunlink
  generalize (if 0 < x - b.addr then a₁.addFree b.addr (x - b.addr) else a₁) = a₂ at hbefore ⊢
  rcases Nat.lt_or_ge (x + size) b.stop with hlt | hge
  · rw [restAfter, if_pos hlt, if_pos (by omega)]
    refine chain_addFree (b := ⟨x + size, b.stop - (x + size)⟩) hbefore (by simp only; omega) (by simp only; omega)
      (fun c hc => ?_) (fun c hc => ?_)
    · rcases List.mem_append.mp hc with hc | hc
      · obtain ⟨hlt, rfl⟩ := mem_restBefore hc
        simp only
        omega
      · exact hrest c hc
    · rcases List.mem_append.mp hc with hc | hc
      · obtain ⟨hlt, rfl⟩ := mem_restBefore hc
        simp only [Extent.Apart, Extent.stop]
        omega
      · refine hin _ (by simp only; omega) ?_ c hc
        simp only [Extent.stop] at *
        omega
  · rw [restAfter, if_neg (by omega), if_neg (by omega)]
    exact hbefore

end LinkedListAllocator

end Memory

end GolemKernel
