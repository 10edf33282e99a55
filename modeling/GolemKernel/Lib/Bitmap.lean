import Mathlib

/-!
# Bitmaps in 64-bit words

A bitmap is a sequence of words; bit `i` is bit `i % 64` of word `i / 64`. Setting and clearing a bit change that bit only, and
the number of clear bits below a bound by one.
-/

namespace GolemKernel

/-- The words of a bitmap. -/
abbrev Bitmap := Nat → BitVec 64

/-- A bit of a word is tested by masking it. -/
theorem and_bit_eq_zero_iff {w : BitVec 64} {k : Nat} (hk : k < 64) : w &&& (1#64 <<< k) = 0 ↔ w.getLsbD k = false := by
  constructor
  · intro h
    have hbit := congrArg (fun v : BitVec 64 => v.getLsbD k) h
    simpa [hk] using hbit
  · intro h
    apply BitVec.eq_of_getLsbD_eq
    intro i hi
    rcases Nat.lt_trichotomy i k with hlt | rfl | hgt
    · simp [hlt]
    · simp [h]
    · have hne : i - k ≠ 0 := by omega
      simp [hne]

/-- The lowest clear bit of a word that is not all ones. -/
theorem lowest_clear {w : BitVec 64} (h : w ≠ BitVec.allOnes 64) :
    (~~~w).ctz.toNat < 64 ∧ w.getLsbD (~~~w).ctz.toNat = false := by
  have hne : ~~~w ≠ 0#64 := fun h0 => h (by rw [← BitVec.not_not (b := w), h0]; rfl)
  have hlt : (~~~w).ctz.toNat < 64 := by
    have hctz := BitVec.ctz_lt_iff_ne_zero.mpr hne
    simpa [BitVec.lt_def] using hctz
  have hbit := BitVec.getLsbD_true_ctz_of_ne_zero hne
  rw [BitVec.getLsbD_not] at hbit
  exact ⟨hlt, by simpa [hlt] using hbit⟩

namespace Bitmap

/-- Bit `i`. -/
def test (m : Bitmap) (i : Nat) : Bool := (m (i / 64)).getLsbD (i % 64)

/-- Bit `i` set. -/
def set (m : Bitmap) (i : Nat) : Bitmap := Function.update m (i / 64) (m (i / 64) ||| 1#64 <<< (i % 64))

/-- Bit `i` cleared. -/
def clear (m : Bitmap) (i : Nat) : Bitmap := Function.update m (i / 64) (m (i / 64) &&& ~~~(1#64 <<< (i % 64)))

/-- The bits below `n` that are clear. -/
def clearBits (m : Bitmap) (n : Nat) : Finset Nat := (Finset.range n).filter fun i => m.test i = false

variable {m : Bitmap} {i j n : Nat}

/-- The clear bits below a limit. -/
@[simp]
theorem mem_clearBits : i ∈ m.clearBits n ↔ i < n ∧ m.test i = false := by simp [clearBits]

/-- A one shifted to position `i` has that bit and no other. -/
theorem getLsbD_one_shiftLeft {k l : Nat} (hk : k < 64) (hl : l < 64) : (1#64 <<< k).getLsbD l = decide (l = k) := by
  rcases Nat.lt_trichotomy l k with hlt | rfl | hgt
  · simp [hlt, Nat.ne_of_lt hlt]
  · simp [hl]
  · have hne : l - k ≠ 0 := by omega
    simp [hl, hne, Nat.ne_of_gt hgt]

/-- In its word, the mask of bit `i` has that bit and no other. -/
theorem getLsbD_mask (hw : j / 64 = i / 64) : (1#64 <<< (i % 64)).getLsbD (j % 64) = decide (j = i) := by
  have hi : i % 64 < 64 := Nat.mod_lt _ (Nat.succ_pos 63)
  have hj : j % 64 < 64 := Nat.mod_lt _ (Nat.succ_pos 63)
  have hiff : j % 64 = i % 64 ↔ j = i := by omega
  rw [getLsbD_one_shiftLeft hi hj]
  simp only [hiff]

/-- Setting a bit leaves the others. -/
theorem test_set : (m.set i).test j = (decide (j = i) || m.test j) := by
  unfold test set
  rcases eq_or_ne (j / 64) (i / 64) with hw | hw
  · rw [hw, Function.update_self, BitVec.getLsbD_or, getLsbD_mask hw, Bool.or_comm]
  · have hne : j ≠ i := fun h => hw (by rw [h])
    rw [Function.update_of_ne hw]
    simp [hne]

/-- So does clearing one. -/
theorem test_clear : (m.clear i).test j = (!decide (j = i) && m.test j) := by
  unfold test clear
  have hj : j % 64 < 64 := Nat.mod_lt _ (Nat.succ_pos 63)
  rcases eq_or_ne (j / 64) (i / 64) with hw | hw
  · rw [hw, Function.update_self, BitVec.getLsbD_and, BitVec.getLsbD_not, getLsbD_mask hw, decide_eq_true hj, Bool.true_and,
      Bool.and_comm]
  · have hne : j ≠ i := fun h => hw (by rw [h])
    rw [Function.update_of_ne hw]
    simp [hne]

/-- A bitmap is its bits. -/
theorem eq_of_test_eq {m' : Bitmap} (h : ∀ i, m.test i = m'.test i) : m = m' := by
  funext k
  apply BitVec.eq_of_getLsbD_eq
  intro b hb
  have hbit := h (k * 64 + b)
  unfold test at hbit
  have hdiv : (k * 64 + b) / 64 = k := by omega
  have hmod : (k * 64 + b) % 64 = b := by omega
  rwa [hdiv, hmod] at hbit

/-- A bit that is set is not among the clear ones any more. -/
theorem clearBits_set : (m.set i).clearBits n = (m.clearBits n).erase i := by
  ext j
  simp only [mem_clearBits, test_set, Finset.mem_erase, Bool.or_eq_false_iff, decide_eq_false_iff_not]
  tauto

/-- A bit that is cleared is. -/
theorem clearBits_clear (hi : i < n) : (m.clear i).clearBits n = insert i (m.clearBits n) := by
  ext j
  simp only [mem_clearBits, test_clear, Finset.mem_insert, Bool.and_eq_false_iff, Bool.not_eq_false', decide_eq_true_eq]
  constructor
  · rintro ⟨h1, h2 | h2⟩
    · exact .inl h2
    · exact .inr ⟨h1, h2⟩
  · rintro (rfl | ⟨h1, h2⟩)
    · exact ⟨hi, .inl rfl⟩
    · exact ⟨h1, .inr h2⟩

/-- A word that is all ones has no clear bit. -/
theorem test_of_allOnes (h : m (i / 64) = BitVec.allOnes 64) : m.test i = true := by
  have hi : i % 64 < 64 := Nat.mod_lt _ (Nat.succ_pos 63)
  rw [test, h, BitVec.getLsbD_allOnes]
  exact decide_eq_true hi

/-- The lowest clear bit of word `k`, as a bit of the bitmap. -/
theorem test_lowest_clear {k : Nat} (h : m k ≠ BitVec.allOnes 64) :
    (~~~(m k)).ctz.toNat < 64 ∧ m.test (k * 64 + (~~~(m k)).ctz.toNat) = false := by
  obtain ⟨hlt, hbit⟩ := lowest_clear h
  refine ⟨hlt, ?_⟩
  have hdiv : (k * 64 + (~~~(m k)).ctz.toNat) / 64 = k := by omega
  have hmod : (k * 64 + (~~~(m k)).ctz.toNat) % 64 = (~~~(m k)).ctz.toNat := by omega
  rw [test, hdiv, hmod, hbit]

end Bitmap

end GolemKernel
