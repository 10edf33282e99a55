import GolemKernel.Lib.Bytes

/-!
# SHA-256

The hash of a string of bits as FIPS 180-4 defines it: padding, blocks of sixteen words, the message schedule by its recurrence, 64
rounds and the chaining of the blocks. The constants are the first 32 bits of the fractional parts of roots of prime numbers. Nothing
here is meant to be run, but for the table of prime numbers that evaluates the constants.
-/

namespace Sha256

/-! ## Strings of bits -/

/-- The number that a string of bits denotes, the most significant bit first. -/
def value (b : List Bool) : Nat := b.foldl (fun n bit => 2 * n + bit.toNat) 0

/-- The last `w` bits of a number. -/
def bits : (w n : Nat) → List Bool
  | 0, _ => []
  | w + 1, n => bits w (n / 2) ++ [n.testBit 0]

/-- The bits of bytes, one byte after another. -/
def ofBytes (data : List UInt8) : List Bool := data.flatMap fun x => bits 8 x.toNat

/-- A digit for every four bits. -/
def hex : List Bool → List Char
  | a :: b :: c :: d :: rest => Nat.digitChar (value [a, b, c, d]) :: hex rest
  | _ => []

@[simp] theorem length_bits (w n : Nat) : (bits w n).length = w := by
  induction w generalizing n with
  | zero => rfl
  | succ w ih => rw [bits, List.length_append, ih, List.length_singleton]

/-- The first bits of a number, and the others. -/
theorem bits_add (v w n : Nat) : bits (v + w) n = bits v (n / 2 ^ w) ++ bits w n := by
  induction w generalizing n with
  | zero => simp [bits]
  | succ w ih => rw [← Nat.add_assoc, bits, ih, bits, List.append_assoc, Nat.div_div_eq_div_mul, Nat.pow_succ']

/-- Only the low bits of a number are written. -/
theorem bits_mod (w n : Nat) : bits w (n % 2 ^ w) = bits w n := by
  induction w generalizing n with
  | zero => rfl
  | succ w ih =>
    have hhalf : n % 2 ^ (w + 1) / 2 = n / 2 % 2 ^ w := by rw [Nat.pow_succ', Nat.mod_mul_right_div_self]
    have hlast : (n % 2 ^ (w + 1)).testBit 0 = n.testBit 0 := by simp
    rw [bits, bits, hhalf, hlast, ih]

/-- One more bit doubles the value. -/
theorem value_concat (b : List Bool) (bit : Bool) : value (b ++ [bit]) = 2 * value b + bit.toNat := by
  rw [value, value, List.foldl_append, List.foldl_cons, List.foldl_nil]

/-- The value of two strings of bits. -/
theorem value_append (b b' : List Bool) : value (b ++ b') = value b * 2 ^ b'.length + value b' := by
  induction b' using List.reverseRecOn with
  | nil => simp [value]
  | append_singleton b' bit ih =>
    rw [← List.append_assoc, value_concat, value_concat, ih, List.length_append, List.length_singleton, Nat.pow_succ]
    ring

@[simp] theorem value_bits (w n : Nat) : value (bits w n) = n % 2 ^ w := by
  induction w generalizing n with
  | zero => simp [bits, value, Nat.mod_one]
  | succ w ih =>
    have hlast : (n.testBit 0).toNat = n % 2 := by
      rw [Nat.testBit_zero]
      rcases Nat.mod_two_eq_zero_or_one n with h | h <;> simp [h]
    rw [bits, value_concat, ih, hlast, Nat.pow_succ', Nat.mod_mul]
    ring

/-- The digits of a number from its bits, the first digit first. -/
theorem hex_bits_add (w n : Nat) (rest : List Bool) :
    hex (bits (4 * (w + 1)) n ++ rest) = Nat.digitChar (n / 16 ^ w % 16) :: hex (bits (4 * w) n ++ rest) := by
  have hpow : 2 ^ (4 * w) = 16 ^ w := by rw [Nat.pow_mul]
  have hfirst : ∀ m rest, hex (bits 4 m ++ rest) = Nat.digitChar (value (bits 4 m)) :: hex rest := fun _ _ => rfl
  rw [Nat.mul_succ, Nat.add_comm, bits_add, List.append_assoc, hfirst, value_bits, hpow]
  rfl

/-! ### Bytes -/

/-- The bits of bytes are those of each byte. -/
theorem ofBytes_append (data data' : List UInt8) : ofBytes (data ++ data') = ofBytes data ++ ofBytes data' := List.flatMap_append

@[simp] theorem length_ofBytes (data : List UInt8) : (ofBytes data).length = 8 * data.length := by
  induction data with
  | nil => rfl
  | cons x data ih =>
    rw [ofBytes, List.flatMap_cons, List.length_append, length_bits, ← ofBytes, ih, List.length_cons]
    ring

/-- Bytes are dropped eight bits at a time. -/
theorem drop_ofBytes (n : Nat) (data : List UInt8) : (ofBytes data).drop (8 * n) = ofBytes (data.drop n) := by
  rcases Nat.le_total n data.length with h | h
  · have hlength : (ofBytes (data.take n)).length = 8 * n := by rw [length_ofBytes, List.length_take_of_le h]
    conv_lhs => rw [← List.take_append_drop n data, ofBytes_append, ← hlength, List.drop_left]
  · rw [List.drop_of_length_le h, List.drop_of_length_le (by rw [length_ofBytes]; omega)]
    rfl

/-- And taken so. -/
theorem take_ofBytes (n : Nat) (data : List UInt8) : (ofBytes data).take (8 * n) = ofBytes (data.take n) := by
  rcases Nat.le_total n data.length with h | h
  · have hlength : (ofBytes (data.take n)).length = 8 * n := by rw [length_ofBytes, List.length_take_of_le h]
    conv_lhs => rw [← List.take_append_drop n data, ofBytes_append, ← hlength, List.take_left]
  · rw [List.take_of_length_le h, List.take_of_length_le (by rw [length_ofBytes]; omega)]

/-- As a number, the bits are the bytes with the most significant first. -/
theorem value_ofBytes (data : List UInt8) : value (ofBytes data) = Bytes.ofBe data := by
  induction data using List.reverseRecOn with
  | nil => rfl
  | append_singleton data x ih =>
    have hlast : ofBytes [x] = bits 8 x.toNat := List.append_nil _
    have hbyte : x.toNat % 2 ^ 8 = x.toNat := Nat.mod_eq_of_lt x.toNat_lt
    rw [ofBytes_append, hlast, value_append, ih, length_bits, value_bits, hbyte, Bytes.ofBe, Bytes.ofBe, List.reverse_append]
    simp only [List.reverse_singleton, List.singleton_append, Bytes.ofLe]
    omega

/-- A number written most significant byte first. -/
theorem ofBytes_be (w n : Nat) : ofBytes (Bytes.be w n) = bits (8 * w) n := by
  induction w generalizing n with
  | zero => rfl
  | succ w ih =>
    have hbe : Bytes.be (w + 1) n = Bytes.be w (n / 256) ++ [UInt8.ofNat n] := by rw [Bytes.be, Bytes.le, List.reverse_cons, Bytes.be]
    have hlast : ofBytes [UInt8.ofNat n] = bits 8 n := by
      rw [ofBytes, List.flatMap_singleton, UInt8.toNat_ofNat', bits_mod]
    rw [hbe, ofBytes_append, ih, hlast, Nat.mul_succ, bits_add]
    rfl

/-- Zero bytes are zero bits. -/
theorem ofBytes_replicate_zero (n : Nat) : ofBytes (List.replicate n 0) = List.replicate (8 * n) false := by
  induction n with
  | zero => rfl
  | succ n ih =>
    have hbyte : bits 8 (0 : UInt8).toNat = List.replicate 8 false := rfl
    rw [List.replicate_succ, ofBytes, List.flatMap_cons, ← ofBytes, ih, hbyte, List.replicate_append_replicate, Nat.mul_succ,
      Nat.add_comm]

/-! ## Padding -/

/-- Some number of zeros fills the block up to its last 64 bits. -/
theorem exists_zeros (l : Nat) : ∃ k, (l + 1 + k) % 512 = 448 := ⟨(959 - l % 512) % 512, by omega⟩

/-- The least number of zeros after which 64 bits are missing to a whole number of blocks. -/
def zeros (l : Nat) : Nat := Nat.find (exists_zeros l)

/-- The least one is the only one below 512. -/
theorem zeros_eq {l k : Nat} (h : (l + 1 + k) % 512 = 448) (hk : k < 512) : zeros l = k := by
  rw [zeros, Nat.find_eq_iff]
  refine ⟨h, ?_⟩
  intro k' hk'
  omega

/-- The padded message: a 1, zeros and the length of the message in 64 bits. -/
def pad (message : List Bool) : List Bool :=
  message ++ [true] ++ List.replicate (zeros message.length) false ++ bits 64 message.length

/-! ## Functions and constants -/

abbrev Word : Type := BitVec 32

def rotr (n : Nat) (x : Word) : Word := (x >>> n) ||| (x <<< (32 - n))

def shr (n : Nat) (x : Word) : Word := x >>> n

def ch (x y z : Word) : Word := (x &&& y) ^^^ (~~~x &&& z)

def maj (x y z : Word) : Word := (x &&& y) ^^^ (x &&& z) ^^^ (y &&& z)

def bigSigma0 (x : Word) : Word := rotr 2 x ^^^ rotr 13 x ^^^ rotr 22 x

def bigSigma1 (x : Word) : Word := rotr 6 x ^^^ rotr 11 x ^^^ rotr 25 x

def smallSigma0 (x : Word) : Word := rotr 7 x ^^^ rotr 18 x ^^^ shr 3 x

def smallSigma1 (x : Word) : Word := rotr 17 x ^^^ rotr 19 x ^^^ shr 10 x

/-- The first 32 bits of the fractional part of a number. -/
noncomputable def fractionBits (x : ℝ) : Word := BitVec.ofNat 32 ⌊Int.fract x * 2 ^ 32⌋₊

/-- The first 32 bits of the fractional part of the `k`-th root of a prime number, which are counted from 0. -/
noncomputable def rootBits (k t : Nat) : Word := fractionBits ((Nat.nth Nat.Prime t : ℝ) ^ (k : ℝ)⁻¹)

/-- `K_t`, from the cube root. -/
noncomputable def constant (t : Nat) : Word := rootBits 3 t

/-- A root in fixed point: 32 binary places are the bits of the fractional part. -/
theorem fractionBits_root {k p n : Nat} (hk : k ≠ 0) (hle : n ^ k ≤ p * 2 ^ (32 * k)) (hlt : p * 2 ^ (32 * k) < (n + 1) ^ k) :
    fractionBits ((p : ℝ) ^ (k : ℝ)⁻¹) = BitVec.ofNat 32 n := by
  set x : ℝ := (p : ℝ) ^ (k : ℝ)⁻¹ with hx
  have hx0 : 0 ≤ x := by positivity
  have hpow : (x * 2 ^ 32) ^ k = (p * 2 ^ (32 * k) : Nat) := by
    rw [mul_pow, hx, Real.rpow_inv_natCast_pow (Nat.cast_nonneg p) hk, ← pow_mul]
    push_cast
    rfl
  have hfloor : ⌊x * 2 ^ 32⌋₊ = n := by
    rw [Nat.floor_eq_iff (by positivity)]
    constructor
    · refine le_of_pow_le_pow_left₀ hk (by positivity) ?_
      rw [hpow]
      exact_mod_cast hle
    · refine lt_of_pow_lt_pow_left₀ k (by positivity) ?_
      rw [hpow]
      exact_mod_cast hlt
  have hfract : Int.fract x * 2 ^ 32 = x * 2 ^ 32 - (⌊x⌋₊ * 2 ^ 32 : Nat) := by
    have hint : ((⌊x⌋ : ℤ) : ℝ) = (⌊x⌋₊ : ℝ) := by rw [← natCast_floor_eq_intCast_floor hx0]
    rw [Int.fract, hint]
    push_cast
    ring
  have hge : ⌊x⌋₊ * 2 ^ 32 ≤ n := by
    rw [← hfloor]
    refine Nat.le_floor ?_
    rw [Nat.cast_mul, Nat.cast_pow, Nat.cast_ofNat]
    have hpos : (0 : ℝ) ≤ 2 ^ 32 := by positivity
    exact mul_le_mul_of_nonneg_right (Nat.floor_le hx0) hpos
  rw [fractionBits, hfract, Nat.floor_sub_natCast, hfloor]
  apply BitVec.eq_of_toNat_eq
  rw [BitVec.toNat_ofNat, BitVec.toNat_ofNat]
  conv_rhs => rw [← Nat.sub_add_cancel hge, Nat.add_mul_mod_self_right]

/-! ### The prime numbers below 18² -/

/-- The first 64 prime numbers. -/
def primes : List Nat := [
  2, 3, 5, 7, 11, 13, 17, 19, 23, 29, 31, 37, 41, 43, 47, 53,
  59, 61, 67, 71, 73, 79, 83, 89, 97, 101, 103, 107, 109, 113, 127, 131,
  137, 139, 149, 151, 157, 163, 167, 173, 179, 181, 191, 193, 197, 199, 211, 223,
  227, 229, 233, 239, 241, 251, 257, 263, 269, 271, 277, 281, 283, 293, 307, 311]

/-- No number up to 17 divides it. -/
def trialDivision (n : Nat) : Bool := decide (2 ≤ n) && (List.range' 2 16).all fun m => n ≤ m || n % m ≠ 0

/-- Below 18², trial division by the numbers up to 17 decides. -/
theorem trialDivision_iff {n : Nat} (hn : n < 18 ^ 2) : trialDivision n = true ↔ n.Prime := by
  simp only [trialDivision, Bool.and_eq_true, decide_eq_true_eq, List.all_eq_true, List.mem_range'_1, Bool.or_eq_true, ne_eq,
    ← Nat.dvd_iff_mod_eq_zero]
  constructor
  · rintro ⟨h2, hdiv⟩
    refine Nat.prime_def_le_sqrt.2 ⟨h2, ?_⟩
    intro m hm hle hdvd
    have hroot : n.sqrt < 18 := Nat.sqrt_lt'.2 hn
    have hself : n.sqrt < n := Nat.sqrt_lt_self h2
    rcases hdiv m ⟨hm, by omega⟩ with h | h
    · omega
    · exact h hdvd
  · intro hp
    refine ⟨hp.two_le, ?_⟩
    intro m hm
    by_cases hdvd : m ∣ n
    · rcases (Nat.dvd_prime hp).1 hdvd with h | h
      · omega
      · exact Or.inl h.ge
    · exact Or.inr hdvd

/-- So it counts the primes. -/
theorem count_prime {n : Nat} (hn : n ≤ 18 ^ 2) : Nat.count Nat.Prime n = (List.range n).countP trialDivision := by
  induction n with
  | zero => rfl
  | succ n ih =>
    rw [Nat.count_succ, ih (by omega), List.range_succ, List.countP_append, List.countP_singleton]
    simp only [trialDivision_iff (show n < 18 ^ 2 by omega)]

/-- The table has the first 64 primes. -/
theorem nth_prime {t : Nat} (ht : t < 64) : Nat.nth Nat.Prime t = primes.getD t 0 := by
  have hall : ∀ t : Fin 64, primes.getD t 0 < 18 ^ 2 ∧ trialDivision (primes.getD t 0) = true ∧
      (List.range (primes.getD t 0)).countP trialDivision = t := by decide +kernel
  obtain ⟨hlt, hprime, hcount⟩ := hall ⟨t, ht⟩
  rw [← count_prime (Nat.le_of_lt hlt)] at hcount
  conv_lhs => rw [← show _ = t from hcount]
  exact Nat.nth_count ((trialDivision_iff hlt).1 hprime)

/-- The constants in fixed point. -/
theorem rootBits_eq {k t n : Nat} (hk : k ≠ 0) (ht : t < 64) (hle : n ^ k ≤ primes.getD t 0 * 2 ^ (32 * k))
    (hlt : primes.getD t 0 * 2 ^ (32 * k) < (n + 1) ^ k) : rootBits k t = BitVec.ofNat 32 n := by
  rw [rootBits, nth_prime ht]
  exact fractionBits_root hk hle hlt

/-! ## The hash -/

/-- The eight words of a hash value, and of the working variables. -/
structure Hash where
  a : Word
  b : Word
  c : Word
  d : Word
  e : Word
  f : Word
  g : Word
  h : Word

namespace Hash

def add (x y : Hash) : Hash := ⟨x.a + y.a, x.b + y.b, x.c + y.c, x.d + y.d, x.e + y.e, x.f + y.f, x.g + y.g, x.h + y.h⟩

def words (x : Hash) : List Word := [x.a, x.b, x.c, x.d, x.e, x.f, x.g, x.h]

end Hash

/-- The initial hash value, from the square roots. -/
noncomputable def initial : Hash :=
  ⟨rootBits 2 0, rootBits 2 1, rootBits 2 2, rootBits 2 3, rootBits 2 4, rootBits 2 5, rootBits 2 6, rootBits 2 7⟩

/-- `W_t` for the words of a block. -/
def schedule (block : Nat → Word) (t : Nat) : Word :=
  if t < 16 then block t
  else
    smallSigma1 (schedule block (t - 2)) + schedule block (t - 7) + smallSigma0 (schedule block (t - 15)) + schedule block (t - 16)

/-- One round, with the constant and the word of the schedule. -/
def round (k w : Word) (x : Hash) : Hash :=
  let t1 := x.h + bigSigma1 x.e + ch x.e x.f x.g + k + w
  let t2 := bigSigma0 x.a + maj x.a x.b x.c
  ⟨t1 + t2, x.a, x.b, x.c, x.d + t1, x.e, x.f, x.g⟩

/-- The working variables after the first `t` rounds. -/
noncomputable def rounds (block : Nat → Word) (x : Hash) : Nat → Hash
  | 0 => x
  | t + 1 => round (constant t) (schedule block t) (rounds block x t)

/-- Word `t` of block `i` of a padded message. -/
def messageWord (m : List Bool) (i t : Nat) : Word := BitVec.ofNat 32 (value ((m.drop (512 * i + 32 * t)).take 32))

/-- The hash value after the first `i` blocks of a padded message. -/
noncomputable def chain (m : List Bool) : Nat → Hash
  | 0 => initial
  | i + 1 => (chain m i).add (rounds (messageWord m i) (chain m i) 64)

/-- The 256 bits of the message digest. -/
noncomputable def digest (message : List Bool) : List Bool :=
  (chain (pad message) ((pad message).length / 512)).words.flatMap fun x => bits 32 x.toNat

end Sha256
