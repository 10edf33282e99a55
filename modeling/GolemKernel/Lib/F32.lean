import Mathlib

/-!
# Single-precision numbers as bit patterns

A number is its 32 bits: a sign, eight bits of exponent and 23 bits of fraction. Read as a natural number the bits below the sign
order the magnitudes, so a comparison compares patterns (`key`). A finite magnitude is a whole number of units of `2 ^ -149`
(`units`); the operations compute on these exactly and round once, to nearest and ties to even.
-/

/-- A number, given by its bits. -/
structure F32 where
  bits : UInt32
  deriving DecidableEq, Repr

namespace F32

def zero : F32 := ⟨0⟩

def one : F32 := ⟨0x3F800000⟩

/-! ## Classes and order -/

def isNegative (x : F32) : Bool := decide (2 ^ 31 ≤ x.bits.toNat)

/-- The bits below the sign. -/
def magnitude (x : F32) : Nat := x.bits.toNat % 2 ^ 31

/-- The magnitude of the infinities; the patterns above it are not numbers. -/
def infinity : Nat := 0x7F800000

def isNaN (x : F32) : Bool := decide (infinity < x.magnitude)

def isInfinite (x : F32) : Bool := decide (x.magnitude = infinity)

def isFinite (x : F32) : Bool := decide (x.magnitude < infinity)

/-- Orders the patterns that are numbers. The two zeros have the same key. -/
def key (x : F32) : Int := if x.isNegative then -x.magnitude else x.magnitude

/-- `a <= b`. -/
def le (a b : F32) : Bool := !a.isNaN && !b.isNaN && decide (a.key ≤ b.key)

/-- `a < b`. -/
def lt (a b : F32) : Bool := !a.isNaN && !b.isNaN && decide (a.key < b.key)

/-- The two comparisons exclude each other. -/
theorem lt_eq_false_of_le {a b : F32} (h : a.le b = true) : b.lt a = false := by
  simp only [le, Bool.and_eq_true, decide_eq_true_eq] at h
  simp only [lt, Bool.and_eq_false_iff, decide_eq_false_iff_not]
  right
  omega

/-- What lies between 0 and 1 is a finite number. -/
theorem isFinite_of_between {v : F32} (hzero : zero.le v = true) (hone : v.le one = true) : v.isFinite = true := by
  simp only [le, Bool.and_eq_true, decide_eq_true_eq] at hzero hone
  have hlow : zero.key = 0 := rfl
  have hhigh : one.key = 0x3F800000 := rfl
  rw [hlow] at hzero
  rw [hhigh] at hone
  refine decide_eq_true ?_
  rw [infinity]
  have hkey : v.key = if v.isNegative then -(v.magnitude : Int) else v.magnitude := rfl
  split at hkey <;> omega

/-! ## Rounding -/

/-- A magnitude in units of `2 ^ -149`. -/
def units (magnitude : Nat) : Nat :=
  let exponent := magnitude / 2 ^ 23
  if exponent = 0 then magnitude else (2 ^ 23 + magnitude % 2 ^ 23) * 2 ^ (exponent - 1)

/-- The whole number nearest to `num / den`, the even one of two. -/
def roundHalfEven (num den : Nat) : Nat :=
  let q := num / den
  let twice := 2 * (num % den)
  if twice < den ∨ (twice = den ∧ q % 2 = 0) then q else q + 1

/-- The magnitude nearest to `num / den` units. The fraction is kept to 24 bits; a carry out of them goes to the exponent. -/
def round (num den : Nat) : Nat :=
  let shift := Nat.log2 (num / den) - 23
  min (shift * 2 ^ 23 + roundHalfEven num (den * 2 ^ shift)) infinity

/-- A sign and a magnitude. -/
def ofMagnitude (negative : Bool) (magnitude : Nat) : F32 :=
  ⟨UInt32.ofNat (if negative then 2 ^ 31 + magnitude else magnitude)⟩

def nan : F32 := ⟨0x7FC00000⟩

/-! ## Operations -/

/-- A whole number, rounded. -/
def ofNat (n : Nat) : F32 := ofMagnitude false (round (n * 2 ^ 149) 1)

def neg (a : F32) : F32 := ofMagnitude (!a.isNegative) a.magnitude

/-- The signed number of units of a finite number. -/
def signedUnits (a : F32) : Int := if a.isNegative then -units a.magnitude else units a.magnitude

def add (a b : F32) : F32 :=
  if a.isNaN || b.isNaN then nan
  else if a.isInfinite then (if b.isInfinite && a.isNegative != b.isNegative then nan else a)
  else if b.isInfinite then b
  else
    let sum := a.signedUnits + b.signedUnits
    -- an exact zero is positive unless both operands are negative zeros
    if sum = 0 then ofMagnitude (a.isNegative && b.isNegative) 0 else ofMagnitude (decide (sum < 0)) (round sum.natAbs 1)

def mul (a b : F32) : F32 :=
  let negative := a.isNegative != b.isNegative
  if a.isNaN || b.isNaN then nan
  else if a.isInfinite || b.isInfinite then
    (if a.magnitude = 0 ∨ b.magnitude = 0 then nan else ofMagnitude negative infinity)
  else ofMagnitude negative (round (units a.magnitude * units b.magnitude) (2 ^ 149))

def div (a b : F32) : F32 :=
  let negative := a.isNegative != b.isNegative
  if a.isNaN || b.isNaN then nan
  else if a.isInfinite then (if b.isInfinite then nan else ofMagnitude negative infinity)
  else if b.isInfinite then ofMagnitude negative 0
  else if b.magnitude = 0 then (if a.magnitude = 0 then nan else ofMagnitude negative infinity)
  else ofMagnitude negative (round (units a.magnitude * 2 ^ 149) (units b.magnitude))

/-- The cast to `u32`: towards zero, and to the nearest end outside the range. -/
def toU32 (a : F32) : UInt32 :=
  if a.isNaN || a.isNegative then 0
  else if a.isInfinite then UInt32.ofNat (2 ^ 32 - 1)
  else UInt32.ofNat (min (units a.magnitude / 2 ^ 149) (2 ^ 32 - 1))

example : div (ofNat 6) (ofNat 10) = ⟨0x3F19999A⟩ := by decide +kernel

def sub (a b : F32) : F32 := a.add b.neg

/-- The smaller of two numbers; if one of them is not a number, the other one. -/
def min (a b : F32) : F32 := if a.isNaN then b else if b.isNaN then a else if b.lt a then b else a

instance : Zero F32 := ⟨zero⟩

instance : One F32 := ⟨one⟩

instance : Add F32 := ⟨add⟩

instance : Sub F32 := ⟨sub⟩

instance : Mul F32 := ⟨mul⟩

instance : Div F32 := ⟨div⟩

instance : LT F32 := ⟨fun a b => a.lt b = true⟩

instance : LE F32 := ⟨fun a b => a.le b = true⟩

instance : DecidableLT F32 := fun a b => inferInstanceAs (Decidable (a.lt b = true))

instance : DecidableLE F32 := fun a b => inferInstanceAs (Decidable (a.le b = true))

end F32
