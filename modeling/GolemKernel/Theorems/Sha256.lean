import GolemKernel.Lemmas.Audit
import GolemKernel.Lib.Sha256

/-!
# The embedded hash is SHA-256

`sha256_hex` pads a vector of bytes, cuts it into blocks of 64 bytes and runs the rounds on eight variables; `Sha256.digest` is about
strings of bits. The padded vector is the padded string, the array of a block is its message schedule, and every turn of the loops
is one round.
-/

namespace GolemKernel

namespace Sentinel

open Text

/-! ## Functions of words -/

/-- The rotation of the source is the rotation of FIPS 180-4. -/
theorem toBitVec_rotateRight (x : UInt32) {n : Nat} (hn : n < 32) : (rotateRight x n).toBitVec = Sha256.rotr n x.toBitVec := by
  rw [rotateRight, BitVec.rotateRight_def, Nat.mod_eq_of_lt hn]
  rfl

/-- `big_sigma0` is the function of that name in the standard, and so are the next three. -/
theorem toBitVec_bigSigma0 (x : UInt32) : (bigSigma0 x).toBitVec = Sha256.bigSigma0 x.toBitVec := by
  simp [bigSigma0, Sha256.bigSigma0, toBitVec_rotateRight]

theorem toBitVec_bigSigma1 (x : UInt32) : (bigSigma1 x).toBitVec = Sha256.bigSigma1 x.toBitVec := by
  simp [bigSigma1, Sha256.bigSigma1, toBitVec_rotateRight]

theorem toBitVec_smallSigma0 (x : UInt32) : (smallSigma0 x).toBitVec = Sha256.smallSigma0 x.toBitVec := by
  simp [smallSigma0, Sha256.smallSigma0, toBitVec_rotateRight, Sha256.shr]

theorem toBitVec_smallSigma1 (x : UInt32) : (smallSigma1 x).toBitVec = Sha256.smallSigma1 x.toBitVec := by
  simp [smallSigma1, Sha256.smallSigma1, toBitVec_rotateRight, Sha256.shr]

/-- The words in their order. -/
def Registers.words (r : Registers) : List UInt32 := [r.a, r.b, r.c, r.d, r.e, r.f, r.g, r.h]

/-- The hash value that the registers hold. -/
def Registers.hash (r : Registers) : Sha256.Hash :=
  ⟨r.a.toBitVec, r.b.toBitVec, r.c.toBitVec, r.d.toBitVec, r.e.toBitVec, r.f.toBitVec, r.g.toBitVec, r.h.toBitVec⟩

/-! ## Constants -/

/-- A constant is the fractional part of the root, whose whole part is one digit. -/
abbrev RootOf (k t : Nat) (x : UInt32) : Prop :=
  ∃ q : Fin 8, (q * 2 ^ 32 + x.toNat) ^ k ≤ Sha256.primes.getD t 0 * 2 ^ (32 * k) ∧
    Sha256.primes.getD t 0 * 2 ^ (32 * k) < (q * 2 ^ 32 + x.toNat + 1) ^ k

/-- A word that bounds a root from both sides has the first 32 bits of its fraction. -/
theorem RootOf.toBitVec_eq {k t : Nat} {x : UInt32} (h : RootOf k t x) (hk : k ≠ 0) (ht : t < 64) :
    x.toBitVec = Sha256.rootBits k t := by
  obtain ⟨q, hle, hlt⟩ := h
  rw [Sha256.rootBits_eq hk ht hle hlt]
  apply BitVec.eq_of_toNat_eq
  rw [BitVec.toNat_ofNat, Nat.mul_add_mod_self_right, Nat.mod_eq_of_lt x.toNat_lt]
  rfl

/-- The table `K` has the fractions of the cube roots of the first 64 primes. -/
theorem toBitVec_K {t : Nat} (ht : t < 64) : (K.getD t 0).toBitVec = Sha256.constant t := by
  have hall : ∀ t : Fin 64, RootOf 3 t (K.getD t 0) := by decide +kernel
  exact (hall ⟨t, ht⟩).toBitVec_eq three_ne_zero ht

/-- The initial value has the fractions of the square roots of the first 8 primes. -/
theorem hash_hInit : hInit.hash = Sha256.initial := by
  have hall : ∀ t : Fin 8, RootOf 2 t (hInit.words.getD t 0) := by decide +kernel
  have hroot : ∀ t : Fin 8, (hInit.words.getD t 0).toBitVec = Sha256.rootBits 2 t := by
    intro t
    exact (hall t).toBitVec_eq two_ne_zero (by omega)
  rw [Registers.hash, Sha256.initial, Sha256.Hash.mk.injEq]
  exact ⟨hroot 0, hroot 1, hroot 2, hroot 3, hroot 4, hroot 5, hroot 6, hroot 7⟩

/-! ## Padding -/

/-- The loop ends, with the zeros that were missing. -/
theorem pushZeros_eq (msg : List UInt8) : pushZeros msg = msg ++ List.replicate ((120 - msg.length % 64) % 64) 0 := by
  induction msg using pushZeros.induct with
  | case1 msg h =>
    rw [pushZeros, if_pos h, h]
    exact (List.append_nil _).symm
  | case2 msg h ih =>
    have hzeros : (120 - msg.length % 64) % 64 = (120 - (msg ++ [0]).length % 64) % 64 + 1 := by
      rw [List.length_append, List.length_singleton]
      omega
    rw [pushZeros, if_neg h, ih, hzeros, List.replicate_succ, List.append_assoc, List.singleton_append]

/-- What `sha256_hex` cuts into blocks. -/
def paddedBytes (data : List UInt8) : List UInt8 := pushZeros (data ++ [0x80]) ++ Bytes.be 8 (data.length * 8)

/-- The padded message is made of whole blocks. -/
theorem length_paddedBytes (data : List UInt8) : (paddedBytes data).length % 64 = 0 := by
  have hbe : (Bytes.be 8 (data.length * 8)).length = 8 := by rw [Bytes.be, List.length_reverse, Bytes.length_le]
  rw [paddedBytes, pushZeros_eq]
  simp only [List.length_append, List.length_singleton, List.length_replicate, hbe]
  omega

/-- As bits, the padding of the source is that of the standard. -/
theorem ofBytes_paddedBytes (data : List UInt8) : Sha256.ofBytes (paddedBytes data) = Sha256.pad (Sha256.ofBytes data) := by
  have hmarker : Sha256.ofBytes [0x80] = [true] ++ List.replicate 7 false := by decide
  -- the zeros after the marker are those of its own byte and the whole bytes
  have hzeros : Sha256.zeros (8 * data.length) = 7 + 8 * ((120 - (data.length + 1) % 64) % 64) := Sha256.zeros_eq (by omega) (by omega)
  rw [paddedBytes, pushZeros_eq, List.length_append, List.length_singleton, Sha256.ofBytes_append, Sha256.ofBytes_append,
    Sha256.ofBytes_append, Sha256.ofBytes_be, Sha256.ofBytes_replicate_zero, hmarker, Sha256.pad, Sha256.length_ofBytes, hzeros,
    List.replicate_add, Nat.mul_comm data.length]
  simp only [List.append_assoc]

/-! ## A block -/

/-- One turn of the loop that fills the array. -/
def extend (w : Array UInt32) (i : Nat) : Array UInt32 :=
  w.setIfInBounds i
    (smallSigma1 (w.getD (i - 2) 0) + w.getD (i - 7) 0 + smallSigma0 (w.getD (i - 15) 0) + w.getD (i - 16) 0)

/-- The array before that loop. -/
def firstWords (block : List UInt8) : Array UInt32 :=
  Array.ofFn fun i : Fin 64 => if i.val < 16 then UInt32.ofNat (Bytes.ofBe ((block.drop (i * 4)).take 4)) else 0

theorem size_extend (w : Array UInt32) (i : Nat) : (extend w i).size = w.size := Array.size_setIfInBounds

/-- A turn of the loop over the schedule leaves the other words. -/
theorem getD_extend_of_ne (w : Array UInt32) {i t : Nat} (h : i ≠ t) : (extend w i).getD t 0 = w.getD t 0 := by
  simp [extend, Array.getD_eq_getD_getElem?, Array.getElem?_setIfInBounds_ne h]

/-- A turn of the loop stores the next word of the schedule. -/
theorem getD_extend (w : Array UInt32) {i : Nat} (h : i < w.size) :
    (extend w i).getD i 0 =
      smallSigma1 (w.getD (i - 2) 0) + w.getD (i - 7) 0 + smallSigma0 (w.getD (i - 15) 0) + w.getD (i - 16) 0 := by
  simp [extend, Array.getD_eq_getD_getElem?, h]

variable {block : List UInt8} {M : Nat → Sha256.Word}

/-- The array after some turns, on the words that are set by then. -/
theorem getD_extends {w : Array UInt32} (hsize : w.size = 64) (hM : ∀ t < 16, (w.getD t 0).toBitVec = M t) {n : Nat} (hn : n ≤ 48) :
    ((List.range' 16 n).foldl extend w).size = 64 ∧
      ∀ t < 16 + n, (((List.range' 16 n).foldl extend w).getD t 0).toBitVec = Sha256.schedule M t := by
  induction n with
  | zero =>
    refine ⟨hsize, ?_⟩
    intro t ht
    rw [Sha256.schedule, if_pos ht]
    exact hM t ht
  | succ n ih =>
    obtain ⟨hsize', hwords⟩ := ih (by omega)
    rw [List.range'_concat, List.foldl_append, Nat.one_mul, List.foldl_cons, List.foldl_nil]
    refine ⟨(size_extend _ _).trans hsize', ?_⟩
    intro t ht
    by_cases hlast : t = 16 + n
    · subst hlast
      rw [getD_extend _ (by omega), Sha256.schedule, if_neg (by omega), ← hwords _ (by omega), ← hwords _ (by omega),
        ← hwords _ (by omega), ← hwords _ (by omega)]
      simp [toBitVec_smallSigma0, toBitVec_smallSigma1]
    · rw [getD_extend_of_ne _ (Ne.symm hlast)]
      exact hwords t (by omega)

/-- The words of the schedule are those of the standard. -/
theorem getD_schedule (hM : ∀ t < 16, BitVec.ofNat 32 (Bytes.ofBe ((block.drop (t * 4)).take 4)) = M t) {t : Nat} (ht : t < 64) :
    ((schedule block).getD t 0).toBitVec = Sha256.schedule M t := by
  have hloop : schedule block = (List.range' 16 48).foldl extend (firstWords block) := rfl
  have hfirst : ∀ t < 16, ((firstWords block).getD t 0).toBitVec = M t := by
    intro t ht
    have hlt : t < 64 := by omega
    have hword : (firstWords block).getD t 0 = UInt32.ofNat (Bytes.ofBe ((block.drop (t * 4)).take 4)) := by
      simp [firstWords, Array.getD_eq_getD_getElem?, hlt, ht]
    rw [hword, ← hM t ht]
    rfl
  rw [hloop]
  exact (getD_extends (by simp [firstWords]) hfirst (le_refl 48)).2 t ht

/-- A turn of the compression loop is a round. -/
theorem hash_turn (w : Array UInt32) (r : Registers) {t : Nat} (ht : t < 64) :
    (turn w r t).hash = Sha256.round (Sha256.constant t) (w.getD t 0).toBitVec r.hash := by
  rw [← toBitVec_K ht]
  simp [turn, Registers.hash, Sha256.round, toBitVec_bigSigma0, toBitVec_bigSigma1, ch, maj, Sha256.ch, Sha256.maj]

/-- The first `n` turns are the first `n` rounds. -/
theorem hash_turns (hM : ∀ t < 16, BitVec.ofNat 32 (Bytes.ofBe ((block.drop (t * 4)).take 4)) = M t) (r : Registers) {n : Nat}
    (hn : n ≤ 64) : ((List.range n).foldl (turn (schedule block)) r).hash = Sha256.rounds M r.hash n := by
  induction n with
  | zero => rfl
  | succ n ih =>
    rw [List.range_succ, List.foldl_append, List.foldl_cons, List.foldl_nil, hash_turn _ _ (by omega), ih (by omega),
      getD_schedule hM (by omega), Sha256.rounds]

/-- A block adds the registers after 64 rounds to the hash before it. -/
theorem hash_compress (hM : ∀ t < 16, BitVec.ofNat 32 (Bytes.ofBe ((block.drop (t * 4)).take 4)) = M t) (r : Registers) :
    (compress r block).hash = r.hash.add (Sha256.rounds M r.hash 64) := by
  rw [← hash_turns hM r (le_refl 64)]
  simp [compress, Registers.hash, Sha256.Hash.add]

/-! ## All blocks -/

/-- A word of a block is the word of the string of bits. -/
theorem blockWord_eq (msg : List UInt8) (i : Nat) {t : Nat} (ht : t < 16) :
    BitVec.ofNat 32 (Bytes.ofBe ((((msg.drop (64 * i)).take 64).drop (t * 4)).take 4)) =
      Sha256.messageWord (Sha256.ofBytes msg) i t := by
  have hbits : 512 * i + 32 * t = 8 * (64 * i + t * 4) := by ring
  have hbytes : ((((msg.drop (64 * i)).take 64).drop (t * 4)).take 4) = (msg.drop (64 * i + t * 4)).take 4 := by
    rw [List.drop_take, List.drop_drop, List.take_take, Nat.min_eq_left (by omega)]
  have htake := Sha256.take_ofBytes 4 (msg.drop (64 * i + t * 4))
  rw [Sha256.messageWord, hbits, Sha256.drop_ofBytes, htake, Sha256.value_ofBytes, hbytes]

/-- The loop over the blocks, from any of them on. -/
theorem hash_compressBlocks {msg : List UInt8} {r : Registers} {i : Nat} (hi : i ≤ msg.length / 64)
    (hr : r.hash = Sha256.chain (Sha256.ofBytes msg) i) :
    (compressBlocks r (msg.drop (64 * i))).hash = Sha256.chain (Sha256.ofBytes msg) (msg.length / 64) := by
  induction hk : msg.length / 64 - i generalizing r i with
  | zero =>
    have hlast : i = msg.length / 64 := by omega
    rw [compressBlocks, if_neg (by rw [List.length_drop]; omega), hr, ← hlast]
  | succ k ih =>
    rw [compressBlocks, if_pos (by rw [List.length_drop]; omega), List.drop_drop]
    refine ih (show i + 1 ≤ _ by omega) ?_ (by omega)
    rw [hash_compress (fun t ht => blockWord_eq msg i ht), Sha256.chain, hr]

/-! ## The digits -/

/-- The digits of a number, padded, are the digits of its bits. -/
theorem hex_bits (w n : Nat) (rest : List Bool) : Sha256.hex (Sha256.bits (4 * w) n ++ rest) = hexPadded w n ++ Sha256.hex rest := by
  induction w with
  | zero => rfl
  | succ w ih =>
    have hpadded : hexPadded (w + 1) n = Nat.digitChar (n / 16 ^ w % 16) :: hexPadded w n := by
      rw [hexPadded, List.range_succ, List.reverse_append, List.reverse_singleton, List.singleton_append, List.map_cons, hexPadded]
    rw [Sha256.hex_bits_add, ih, hpadded, List.cons_append]

/-- The digits of words are those of their bits. -/
theorem hex_words (ws : List UInt32) :
    Sha256.hex ((ws.map UInt32.toBitVec).flatMap fun x => Sha256.bits 32 x.toNat) = ws.flatMap fun x => hexPadded 8 x.toNat := by
  induction ws with
  | nil => rfl
  | cons x ws ih =>
    have hword := hex_bits 8 x.toNat ((ws.map UInt32.toBitVec).flatMap fun x => Sha256.bits 32 x.toNat)
    rw [List.map_cons, List.flatMap_cons, List.flatMap_cons, ← ih]
    exact hword

/-- The digits of the source are those of the digest. -/
theorem sha256Hex_eq_digest (data : List UInt8) : sha256Hex data = Sha256.hex (Sha256.digest (Sha256.ofBytes data)) := by
  have hblocks : (Sha256.ofBytes (paddedBytes data)).length / 512 = (paddedBytes data).length / 64 := by
    rw [Sha256.length_ofBytes]
    omega
  have hhash : (compressBlocks hInit (paddedBytes data)).hash =
      Sha256.chain (Sha256.ofBytes (paddedBytes data)) ((paddedBytes data).length / 64) :=
    hash_compressBlocks (Nat.zero_le _) hash_hInit
  rw [Sha256.digest, ← ofBytes_paddedBytes, hblocks, ← hhash]
  exact (hex_words (compressBlocks hInit (paddedBytes data)).words).symm

/-- The digits are hexadecimal ones, in lower case. -/
theorem mem_sha256Hex {data : List UInt8} {c : Char} (hc : c ∈ sha256Hex data) : c ∈ "0123456789abcdef".toList := by
  have hall : ∀ d : Fin 16, Nat.digitChar d ∈ "0123456789abcdef".toList := by decide
  obtain ⟨v, -, hc⟩ := List.mem_flatMap.1 hc
  obtain ⟨i, -, rfl⟩ := List.mem_map.1 hc
  exact hall ⟨_, Nat.mod_lt _ (Nat.succ_pos 15)⟩

/-- `sha256_hex` is SHA-256: of bytes whose length in bits has 64 bits it returns the 64 lower case digits of the digest. The loop that
pads ends after the least number of zeros that leaves eight bytes for the length, so that the blocks are whole. -/
theorem sha256Hex_correct (data : List UInt8) (hlength : data.length < 2 ^ 61) :
    sha256Hex data = Sha256.hex (Sha256.digest (Sha256.ofBytes data)) ∧
      (sha256Hex data).length = 64 ∧
      (∀ c ∈ sha256Hex data, c ∈ "0123456789abcdef".toList) ∧
      (∃ z, pushZeros (data ++ [0x80]) = data ++ [0x80] ++ List.replicate z 0 ∧ (data.length + 1 + z) % 64 = 56 ∧
        ∀ z' < z, (data.length + 1 + z') % 64 ≠ 56) ∧
      Bytes.ofBe (Bytes.be 8 (data.length * 8)) = (Sha256.ofBytes data).length ∧
      (pushZeros (data ++ [0x80]) ++ Bytes.be 8 (data.length * 8)).length % 64 = 0 := by
  refine ⟨sha256Hex_eq_digest data, length_sha256Hex data, fun c hc => mem_sha256Hex hc, ?_, ?_, length_paddedBytes data⟩
  · refine ⟨(120 - (data.length + 1) % 64) % 64, ?_, by omega, ?_⟩
    · rw [pushZeros_eq, List.length_append, List.length_singleton]
    · intro z' hz'
      omega
  · rw [Bytes.ofBe, Bytes.be, List.reverse_reverse, Bytes.ofLe_le, Nat.mod_eq_of_lt (by omega), Sha256.length_ofBytes, Nat.mul_comm]

theorem sha256Hex_correct_abc :
    ([0x61, 0x62, 0x63] : List UInt8).length < 2 ^ 61 ∧
      sha256Hex [0x61, 0x62, 0x63] = Sha256.hex (Sha256.digest (Sha256.ofBytes [0x61, 0x62, 0x63])) := by
  have hlength : ([0x61, 0x62, 0x63] : List UInt8).length < 2 ^ 61 := by decide
  exact ⟨hlength, (sha256Hex_correct _ hlength).1⟩

end Sentinel

end GolemKernel
