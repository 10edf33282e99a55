import Mathlib

/-!
# Bytes of fixed-width numbers, and memory

Numbers are stored least significant byte first (`le`) or last (`be`). A record is written as the bytes of its fields one after
another and read back by a `Reader`, which takes the bytes of one field after another off the front of a list. `Memory` holds one
byte at each address.
-/

namespace Bytes

/-! ## Numbers -/

/-- The low `w` bytes of a number, least significant first. -/
def le : (w n : Nat) → List UInt8
  | 0, _ => []
  | w + 1, n => UInt8.ofNat n :: le w (n / 256)

/-- The low `w` bytes of a number, most significant first. -/
def be (w n : Nat) : List UInt8 := (le w n).reverse

/-- The number with these bytes, least significant first. -/
def ofLe : List UInt8 → Nat
  | [] => 0
  | b :: bs => b.toNat + 256 * ofLe bs

/-- The number with these bytes, most significant first. -/
def ofBe (bs : List UInt8) : Nat := ofLe bs.reverse

@[simp] theorem length_le (w n : Nat) : (le w n).length = w := by
  induction w generalizing n with
  | zero => rfl
  | succ w ih => rw [le, List.length_cons, ih]

/-- A number that is written and read back, modulo the width. -/
theorem ofLe_le (w n : Nat) : ofLe (le w n) = n % 256 ^ w := by
  induction w generalizing n with
  | zero => rw [le, ofLe, Nat.pow_zero, Nat.mod_one]
  | succ w ih =>
    have hbyte : (UInt8.ofNat n).toNat = n % 256 := UInt8.toNat_ofNat
    rw [le, ofLe, ih, hbyte, Nat.pow_succ', Nat.mod_mul]

/-- `to_le_bytes` of a `u32`. -/
def u32 (x : UInt32) : List UInt8 := le 4 x.toNat

/-- `to_le_bytes` of a `u64`. -/
def u64 (x : UInt64) : List UInt8 := le 8 x.toNat

@[simp] theorem length_u32 (x : UInt32) : (u32 x).length = 4 := length_le _ _

@[simp] theorem length_u64 (x : UInt64) : (u64 x).length = 8 := length_le _ _

/-! ## Readers -/

/-- Takes bytes off the front of a list. -/
abbrev Reader (α : Type) : Type := StateM (List UInt8) α

/-- The next `n` bytes. -/
def getBytes (n : Nat) : Reader (List UInt8) := fun bs => (bs.take n, bs.drop n)

/-- A `u8`. -/
def getU8 : Reader UInt8 := fun bs => (bs.headD 0, bs.tail)

/-- A `u32`. -/
def getU32 : Reader UInt32 := do return UInt32.ofNat (ofLe (← getBytes 4))

/-- A `u64`. -/
def getU64 : Reader UInt64 := do return UInt64.ofNat (ofLe (← getBytes 8))

/-- A `[u8; n]`. -/
def getArray (n : Nat) : Reader (Vector UInt8 n) := do
  let bs ← getBytes n
  return Vector.ofFn fun i => bs.getD i 0

section

variable {rest : List UInt8}

@[simp] theorem run_bind {α β : Type} (m : Reader α) (f : α → Reader β) (bs : List UInt8) :
    (m >>= f).run bs = (f (m.run bs).1).run (m.run bs).2 := rfl

@[simp] theorem run_pure {α : Type} (a : α) (bs : List UInt8) : (pure a : Reader α).run bs = (a, bs) := rfl

/-- As many bytes are read as asked for. -/
theorem getBytes_append {n : Nat} {bs : List UInt8} (h : bs.length = n) : (getBytes n).run (bs ++ rest) = (bs, rest) := by
  subst h
  exact Prod.ext (List.take_left ..) (List.drop_left ..)

@[simp] theorem getU8_cons (x : UInt8) : getU8.run (x :: rest) = (x, rest) := rfl

@[simp] theorem getU32_append (x : UInt32) : getU32.run (u32 x ++ rest) = (x, rest) := by
  rw [getU32, run_bind, getBytes_append (length_u32 x)]
  have hx : UInt32.ofNat (ofLe (u32 x)) = x := by
    have hlt : x.toNat < 256 ^ 4 := x.toNat_lt
    rw [u32, ofLe_le, Nat.mod_eq_of_lt hlt, UInt32.ofNat_toNat]
  exact congrArg (·, rest) hx

@[simp] theorem getU64_append (x : UInt64) : getU64.run (u64 x ++ rest) = (x, rest) := by
  rw [getU64, run_bind, getBytes_append (length_u64 x)]
  have hx : UInt64.ofNat (ofLe (u64 x)) = x := by
    have hlt : x.toNat < 256 ^ 8 := x.toNat_lt
    rw [u64, ofLe_le, Nat.mod_eq_of_lt hlt, UInt64.ofNat_toNat]
  exact congrArg (·, rest) hx

/-- Four bytes determine the number, whatever comes after them. -/
theorem u32_append_inj {x y : UInt32} {rest' : List UInt8} : u32 x ++ rest = u32 y ++ rest' ↔ x = y ∧ rest = rest' := by
  constructor
  · intro h
    have hread := congrArg (fun bs => getU32.run bs) h
    simp only [getU32_append] at hread
    exact Prod.mk.inj hread
  · rintro ⟨rfl, rfl⟩
    rfl

/-- And so do eight. -/
theorem u64_append_inj {x y : UInt64} {rest' : List UInt8} : u64 x ++ rest = u64 y ++ rest' ↔ x = y ∧ rest = rest' := by
  constructor
  · intro h
    have hread := congrArg (fun bs => getU64.run bs) h
    simp only [getU64_append] at hread
    exact Prod.mk.inj hread
  · rintro ⟨rfl, rfl⟩
    rfl

@[simp] theorem getArray_append {n : Nat} (v : Vector UInt8 n) : (getArray n).run (v.toList ++ rest) = (v, rest) := by
  rw [getArray, run_bind, getBytes_append v.length_toList]
  have hv : (Vector.ofFn fun i : Fin n => v.toList.getD i 0) = v := by
    ext i hi
    rw [Vector.getElem_ofFn, List.getD_eq_getElem _ _ (by rwa [v.length_toList]), Vector.getElem_toList]
  exact congrArg (·, rest) hv

end

/-! ## Memory -/

/-- The byte at each address. -/
abbrev Memory : Type := Nat → UInt8

/-- The `n` bytes from an address on. -/
def Memory.read (m : Memory) (addr n : Nat) : List UInt8 := (List.range n).map fun i => m (addr + i)

/-- Store bytes from an address on. -/
def Memory.write (m : Memory) (addr : Nat) (bs : List UInt8) : Memory :=
  fun a => if addr ≤ a ∧ a < addr + bs.length then bs.getD (a - addr) 0 else m a

/-- What was written is read back. -/
theorem Memory.read_write (m : Memory) (addr : Nat) (bs : List UInt8) : (m.write addr bs).read addr bs.length = bs := by
  unfold Memory.read Memory.write
  refine List.ext_getElem (by rw [List.length_map, List.length_range]) fun i _ hi => ?_
  rw [List.getElem_map, List.getElem_range, if_pos (by omega), Nat.add_sub_cancel_left, List.getD_eq_getElem _ _ hi]

/-- Bytes stored elsewhere are not read. -/
theorem Memory.read_write_of_disjoint (m : Memory) {addr addr' n : Nat} {bs : List UInt8}
    (h : addr + n ≤ addr' ∨ addr' + bs.length ≤ addr) : (m.write addr' bs).read addr n = m.read addr n := by
  refine List.map_congr_left fun i hi => if_neg ?_
  have := List.mem_range.mp hi
  omega

end Bytes
