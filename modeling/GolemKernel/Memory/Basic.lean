import GolemKernel.Basic

/-!
# The memory subsystem: constants, regions, alignment

`src/memory/mod.rs`. Addresses are `u64` and `usize`, both 64 bits wide on the kernel's target; they are natural numbers here,
and an addition that the source leaves unchecked wraps at `2 ^ 64`, as it does in the release build.
-/

namespace GolemKernel

namespace Memory

/-- Size of a physical frame and of a virtual page in bytes. -/
def pageSize : Nat := 4096

/-- Virtual start of the kernel heap. -/
def heapStart : Nat := 0xFFFFC00000000000

/-- Size of the kernel heap, 8 MiB. -/
def heapSize : Nat := 8 * 1024 * 1024

inductive MemoryRegionKind where
  | usable | reserved | kernelImage | bootloader
  deriving DecidableEq, Repr

structure MemoryRegion where
  start : Nat
  stop : Nat
  kind : MemoryRegionKind
  deriving DecidableEq, Repr

/-- What the boot module hands over: the virtual address at which all physical memory is mapped, and the memory map. -/
structure MemoryInfo where
  physicalMemoryOffset : Nat
  regions : List MemoryRegion

inductive MemoryInitError where
  | noUsableRegions | bitmapTooSmall | heapMappingFailed | alreadyInitialized | pagingNotReady
  deriving DecidableEq, Repr

/-- `!x` on 64 bits. -/
def not64 (x : Nat) : Nat := 2 ^ 64 - 1 - x

/-- `align_up`, of `mod.rs` and of `heap.rs`. -/
def alignUp (addr align : Nat) : Nat := ((addr + align - 1) % 2 ^ 64) &&& not64 (align - 1)

/-- `align_down`. -/
def alignDown (addr align : Nat) : Nat := addr &&& not64 (align - 1)

/-- `a - b` on 64 bits, unchecked. -/
def wrappingSub (a b : Nat) : Nat := (a + (2 ^ 64 - b)) % 2 ^ 64

/-- A subtraction that does not wrap. -/
theorem wrappingSub_eq {x y : Nat} (hxy : y ≤ x) (hx : x < 2 ^ 64) : wrappingSub x y = x - y := by
  unfold wrappingSub
  have : x + (2 ^ 64 - y) = (x - y) + 2 ^ 64 := by omega
  rw [this, Nat.add_mod_right, Nat.mod_eq_of_lt (by omega)]

/-- The mask of a power of two clears the bits below it. -/
theorem and_not64 {x k : Nat} (hx : x < 2 ^ 64) (hk : k ≤ 64) : x &&& not64 (2 ^ k - 1) = x / 2 ^ k * 2 ^ k := by
  have hpos : 0 < 2 ^ k := Nat.two_pow_pos k
  have hle : 2 ^ k ≤ 2 ^ 64 := Nat.pow_le_pow_right Nat.two_pos hk
  apply Nat.eq_of_testBit_eq
  intro i
  have hmask : (not64 (2 ^ k - 1)).testBit i = (decide (i < 64) && !decide (i < k)) := by
    have hsub : not64 (2 ^ k - 1) = 2 ^ 64 - ((2 ^ k - 1) + 1) := by
      simp only [not64]
      omega
    rw [hsub, Nat.testBit_two_pow_sub_succ (by omega), Nat.testBit_two_pow_sub_one]
  rw [Nat.testBit_and, hmask, Nat.testBit_mul_two_pow, Nat.testBit_div_two_pow]
  by_cases hik : i < k
  · simp [hik, Nat.not_le_of_lt hik]
  · have hki : k ≤ i := Nat.le_of_not_lt hik
    by_cases hi : i < 64
    · simp [hki, hi, hik]
    · have hbit : x.testBit i = false :=
        Nat.testBit_lt_two_pow (Nat.lt_of_lt_of_le hx (Nat.pow_le_pow_right Nat.two_pos (Nat.le_of_not_lt hi)))
      simp [hki, hi, hbit]

/-- Rounding up without overflow. -/
theorem alignUp_eq {addr k : Nat} (hk : k ≤ 64) (h : addr + 2 ^ k - 1 < 2 ^ 64) :
    alignUp addr (2 ^ k) = (addr + 2 ^ k - 1) / 2 ^ k * 2 ^ k := by
  rw [alignUp, Nat.mod_eq_of_lt h, and_not64 h hk]

/-- Aligning down to a power of two. -/
theorem alignDown_eq {addr k : Nat} (hk : k ≤ 64) (h : addr < 2 ^ 64) :
    alignDown addr (2 ^ k) = addr / 2 ^ k * 2 ^ k := by
  rw [alignDown, and_not64 h hk]

/-- Rounding up gives the least multiple at or above the address. -/
theorem alignUp_spec (addr : Nat) {k : Nat} (hk : k ≤ 64) (h : addr + 2 ^ k - 1 < 2 ^ 64) :
    2 ^ k ∣ alignUp addr (2 ^ k) ∧ addr ≤ alignUp addr (2 ^ k) ∧ alignUp addr (2 ^ k) < addr + 2 ^ k := by
  have hpos : 0 < 2 ^ k := Nat.two_pow_pos k
  rw [alignUp_eq hk h]
  have hdiv := Nat.div_add_mod (addr + 2 ^ k - 1) (2 ^ k)
  have hmod := Nat.mod_lt (addr + 2 ^ k - 1) hpos
  rw [Nat.mul_comm] at hdiv
  exact ⟨Dvd.intro_left _ rfl, by omega, by omega⟩

end Memory

end GolemKernel
