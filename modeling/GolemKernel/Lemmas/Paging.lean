import GolemKernel.Memory.Paging

/-!
# Page-table entries, and the steps of a walk
-/

namespace GolemKernel

namespace Memory

/-! ## Entries -/

namespace PageFlags

/-- `contains` of a single flag reads its bit. -/
theorem contains_bit (f g : PageFlags) {k : Nat} (hk : k < 64) (hg : g.bits = 1#64 <<< k) : f.contains g = f.bits.getLsbD k := by
  unfold contains
  rw [hg]
  cases hbit : f.bits.getLsbD k with
  | false =>
    rw [(and_bit_eq_zero_iff hk).mpr hbit, beq_eq_false_iff_ne]
    intro h
    have hone := congrArg (fun v : BitVec 64 => v.getLsbD k) h
    simp [hk] at hone
  | true =>
    rw [beq_iff_eq]
    apply BitVec.eq_of_getLsbD_eq
    intro i hi
    rw [BitVec.getLsbD_and, Bitmap.getLsbD_one_shiftLeft hk hi]
    by_cases hik : i = k
    · simp [hik, hbit]
    · simp [hik]

end PageFlags

namespace PageTableEntry

variable {e : PageTableEntry} {a : Nat} {fl : PageFlags}

/-- An entry is present if bit 0 is set. -/
theorem isPresent_eq (e : PageTableEntry) : e.isPresent = e.bits.getLsbD 0 := by
  have h := and_bit_eq_zero_iff (w := e.bits) (k := 0) (by decide)
  simp only [isPresent]
  cases hbit : e.bits.getLsbD 0 with
  | false =>
    have hz : e.bits &&& 1#64 = 0#64 := h.mpr hbit
    rw [hz]
    rfl
  | true =>
    rw [bne_iff_ne]
    intro hz
    have := h.mp hz
    rw [hbit] at this
    exact nomatch this

/-- A flag of an entry, at a bit that is not of the address. -/
theorem flags_contains {g : PageFlags} {k : Nat} (hk : k < 64) (hg : g.bits = 1#64 <<< k)
    (hmask : physAddrMask.getLsbD k = false) : e.flags.contains g = e.bits.getLsbD k := by
  rw [PageFlags.contains_bit _ _ hk hg]
  simp only [flags, PageFlags.fromBitsTruncate, BitVec.getLsbD_and, BitVec.getLsbD_not, hmask, hk, decide_true, Bool.not_false,
    Bool.and_true]

/-- The flags of an entry that was set. -/
theorem getLsbD_set {k : Nat} (hmask : physAddrMask.getLsbD k = false) : (set a fl).bits.getLsbD k = fl.bits.getLsbD k := by
  simp only [set, BitVec.getLsbD_or, BitVec.getLsbD_and, hmask, Bool.and_false, Bool.false_or]

/-- The mask leaves an aligned address below 2^52. -/
theorem and_mask_toNat (ha : a % 4096 = 0) (ha' : a < 2 ^ 52) : a &&& physAddrMask.toNat = a := by
  have hmask : physAddrMask.toNat = (2 ^ 40 - 1) * 2 ^ 12 := by decide
  apply Nat.eq_of_testBit_eq
  intro i
  rw [Nat.testBit_and, hmask, Nat.testBit_mul_two_pow, Nat.testBit_two_pow_sub_one]
  rcases Nat.lt_or_ge i 12 with hlt | hge
  · have hbit : a.testBit i = false := by
      have hsplit : a = (a / 4096) * 2 ^ 12 := by omega
      rw [hsplit, Nat.testBit_mul_two_pow]
      simp [Nat.not_le_of_lt hlt]
    simp [hbit]
  · rcases Nat.lt_or_ge i 52 with hlt' | hge'
    · have h40 : i - 12 < 40 := by omega
      simp [hge, h40]
    · rw [Nat.testBit_lt_two_pow (Nat.lt_of_lt_of_le ha' (Nat.pow_le_pow_right Nat.two_pos hge')), Bool.false_and]

/-- The address of an entry that was set, for a frame address. -/
theorem frameAddr_set (ha : a % 4096 = 0) (ha' : a < 2 ^ 52) : (set a fl).frameAddr = a := by
  have hand : ((BitVec.ofNat 64 a &&& physAddrMask) ||| fl.bits) &&& physAddrMask = BitVec.ofNat 64 a &&& physAddrMask := by
    rw [BitVec.and_comm, BitVec.and_or_distrib_left, BitVec.and_comm physAddrMask fl.bits, fl.clear, BitVec.or_zero,
      BitVec.and_comm, BitVec.and_assoc, BitVec.and_self]
  simp only [frameAddr, set]
  rw [hand, BitVec.toNat_and, BitVec.toNat_ofNat, Nat.mod_eq_of_lt (by omega), and_mask_toNat ha ha']

end PageTableEntry

/-! ## Runs -/

namespace PagingM

variable {σ β γ : Type} {s : PagingState σ}

/-- Two steps one after the other. -/
theorem exec_bind (m : PagingM σ β) (f : β → PagingM σ γ) :
    (m >>= f).exec s =
      match m.exec s with
      | (.ok b, s') => (f b).exec s'
      | (.error e, s') => (.error e, s') := by
  have hrun : (m >>= f).exec s = (ExceptT.bindCont f (m.exec s).1 : StateM (PagingState σ) _) (m.exec s).2 := rfl
  rw [hrun]
  cases h : m.exec s with
  | mk r s' => cases r <;> rfl

/-- After a success the second step runs. -/
theorem exec_bind_ok {m : PagingM σ β} {f : β → PagingM σ γ} {b : β} {s' : PagingState σ} (h : m.exec s = (.ok b, s')) :
    (m >>= f).exec s = (f b).exec s' := by
  rw [exec_bind, h]

/-- After a failure it does not. -/
theorem exec_bind_error {m : PagingM σ β} {f : β → PagingM σ γ} {e : MapError} {s' : PagingState σ}
    (h : m.exec s = (.error e, s')) : (m >>= f).exec s = (.error e, s') := by
  rw [exec_bind, h]

@[simp]
theorem exec_get : (get : PagingM σ _).exec s = (.ok s, s) := rfl

@[simp]
theorem exec_modify (f : PagingState σ → PagingState σ) : (modify f : PagingM σ _).exec s = (.ok ⟨⟩, f s) := rfl

end PagingM

end Memory

end GolemKernel
