import GolemKernel.Lemmas.Audit
import GolemKernel.Lemmas.Migration

/-!
# What the checksum of the migration buffer covers

The checksum is the digest of the payload, written in hexadecimal and decoded again. Each of the three layers loses nothing: the payload
has every field at a fixed place, every word of the digest has eight digits, and the decoder, which takes a character that is no digit for
a zero, is given digits only. So two buffers whose checksums are right and equal agree on every field, if the hash tells their payloads
apart.
-/

namespace GolemKernel

namespace SafeMode

open Text Sentinel

/-! ## The digest and its digits -/

/-- The words that `sha256_hex` writes. -/
def sha256 (data : List UInt8) : Registers :=
  compressBlocks hInit (pushZeros (data ++ [0x80]) ++ Bytes.be 8 (data.length * 8))

/-- The digits of eight words. -/
def hexWords (h : Registers) : Text := [h.a, h.b, h.c, h.d, h.e, h.f, h.g, h.h].flatMap fun v => hexPadded 8 v.toNat

/-- The hash is the eight words in digits. -/
theorem sha256Hex_eq (data : List UInt8) : sha256Hex data = hexWords (sha256 data) := rfl

/-- Eight digits determine the word, whatever comes after them. -/
theorem hexWord_append_inj {x y : UInt32} {t u : Text} (h : hexPadded 8 x.toNat ++ t = hexPadded 8 y.toNat ++ u) : x = y ∧ t = u := by
  obtain ⟨hx, htail⟩ := List.append_inj h (by rw [length_hexPadded, length_hexPadded])
  have hn : x.toNat = y.toNat := hexPadded_inj x.toNat_lt y.toNat_lt hx
  exact ⟨UInt32.toNat_inj.1 hn, htail⟩

/-- The digits determine the words. -/
theorem hexWords_injective : Function.Injective hexWords := by
  intro r r' h
  simp only [hexWords, List.flatMap_cons, List.flatMap_nil] at h
  obtain ⟨ha, h⟩ := hexWord_append_inj h
  obtain ⟨hb, h⟩ := hexWord_append_inj h
  obtain ⟨hc, h⟩ := hexWord_append_inj h
  obtain ⟨hd, h⟩ := hexWord_append_inj h
  obtain ⟨he, h⟩ := hexWord_append_inj h
  obtain ⟨hf, h⟩ := hexWord_append_inj h
  obtain ⟨hg, h⟩ := hexWord_append_inj h
  obtain ⟨hh, -⟩ := hexWord_append_inj h
  obtain ⟨a, b, c, d, e, f, g, w⟩ := r
  obtain ⟨a', b', c', d', e', f', g', w'⟩ := r'
  rw [Registers.mk.injEq]
  exact ⟨ha, hb, hc, hd, he, hf, hg, hh⟩

/-! ## Decoding the digits -/

/-- A lower case hexadecimal digit. -/
def HexDigit (c : Char) : Prop := ∃ d < 16, c = Nat.digitChar d

/-- All of them are digits. -/
theorem hexDigit_of_mem_hexWords {h : Registers} {c : Char} (hc : c ∈ hexWords h) : HexDigit c := by
  obtain ⟨v, -, hc⟩ := List.mem_flatMap.1 hc
  obtain ⟨i, -, rfl⟩ := List.mem_map.1 hc
  exact ⟨_, Nat.mod_lt _ (Nat.succ_pos 15), rfl⟩

/-- The byte of a digit is decoded to its value. -/
theorem hexNibble_digitChar {d : Nat} (hd : d < 16) :
    (Nat.digitChar d).toNat < 128 ∧ hexNibble (Nat.digitChar d).toUInt8 = UInt8.ofNat d := by
  have hall : ∀ d : Fin 16, (Nat.digitChar d).toNat < 128 ∧ hexNibble (Nat.digitChar d).toUInt8 = UInt8.ofNat d := by decide
  exact hall ⟨d, hd⟩

/-- A byte is its two nibbles. -/
theorem toNat_nibbles {a b : Nat} (ha : a < 16) (hb : b < 16) : ((UInt8.ofNat a <<< 4) ||| UInt8.ofNat b).toNat = 16 * a + b := by
  have hall : ∀ a b : Fin 16, ((UInt8.ofNat a <<< 4) ||| UInt8.ofNat b).toNat = 16 * a + b := by decide
  exact hall ⟨a, ha⟩ ⟨b, hb⟩

/-- Two halves determine the byte they are in, and the byte determines them. -/
theorem nibbles_inj {a b c d : Nat} (ha : a < 16) (hb : b < 16) (hc : c < 16) (hd : d < 16)
    (h : (UInt8.ofNat a <<< 4) ||| UInt8.ofNat b = (UInt8.ofNat c <<< 4) ||| UInt8.ofNat d) : a = c ∧ b = d := by
  have hvalue := congrArg UInt8.toNat h
  rw [toNat_nibbles ha hb, toNat_nibbles hc hd] at hvalue
  omega

/-- What the decoder reads at a position of a text of digits. -/
theorem hexNibble_getD {s : Text} (hs : ∀ c ∈ s, HexDigit c) {k : Nat} (hk : k < s.length) :
    ∃ d < 16, s[k]? = some (Nat.digitChar d) ∧ hexNibble ((asBytes s).getD k 48) = UInt8.ofNat d := by
  have hascii : ∀ c ∈ s, c.toNat < 128 := by
    intro c hc
    obtain ⟨d, hd, rfl⟩ := hs c hc
    exact (hexNibble_digitChar hd).1
  obtain ⟨d, hd, hchar⟩ := hs s[k] (List.getElem_mem hk)
  refine ⟨d, hd, ?_, ?_⟩
  · rw [List.getElem?_eq_getElem hk, hchar]
  · have hbyte : (asBytes s).getD k 48 = (Nat.digitChar d).toUInt8 := by
      rw [asBytes_ascii hascii, List.getD_eq_getElem _ _ (by rwa [List.length_map]), List.getElem_map, hchar]
    rw [hbyte]
    exact (hexNibble_digitChar hd).2

/-- On 64 digits the decoder is injective. -/
theorem hex64ToBytes_inj {s t : Text} (hs : ∀ c ∈ s, HexDigit c) (ht : ∀ c ∈ t, HexDigit c) (hslen : s.length = 64)
    (htlen : t.length = 64) (h : hex64ToBytes s = hex64ToBytes t) : s = t := by
  have hpair : ∀ i < 32, s[2 * i]? = t[2 * i]? ∧ s[2 * i + 1]? = t[2 * i + 1]? := by
    intro i hi
    obtain ⟨a, ha, hsa, hna⟩ := hexNibble_getD hs (show 2 * i < s.length by omega)
    obtain ⟨b, hb, hsb, hnb⟩ := hexNibble_getD hs (show 2 * i + 1 < s.length by omega)
    obtain ⟨c, hc, htc, hnc⟩ := hexNibble_getD ht (show 2 * i < t.length by omega)
    obtain ⟨d, hd, htd, hnd⟩ := hexNibble_getD ht (show 2 * i + 1 < t.length by omega)
    have hbyte := congrArg (fun v : Vector UInt8 32 => v[i]) h
    simp only [hex64ToBytes, Vector.getElem_ofFn, hna, hnb, hnc, hnd] at hbyte
    obtain ⟨rfl, rfl⟩ := nibbles_inj ha hb hc hd hbyte
    exact ⟨hsa.trans htc.symm, hsb.trans htd.symm⟩
  apply List.ext_getElem?
  intro k
  by_cases hk : k < 64
  · obtain ⟨heven, hodd⟩ := hpair (k / 2) (by omega)
    rcases Nat.mod_two_eq_zero_or_one k with hmod | hmod
    · rwa [show 2 * (k / 2) = k by omega] at heven
    · rwa [show 2 * (k / 2) + 1 = k by omega] at hodd
  · rw [List.getElem?_eq_none (by omega), List.getElem?_eq_none (by omega)]

/-- A byte is two digits. -/
theorem bytesToHex_cons (x : UInt8) (b : List UInt8) :
    bytesToHex (x :: b) = Nat.digitChar (x.toNat / 16) :: Nat.digitChar (x.toNat % 16) :: bytesToHex b := by
  have hhigh : x.toNat / 16 % 16 = x.toNat / 16 := Nat.mod_eq_of_lt (by have := x.toNat_lt; omega)
  have hpair : hexPadded 2 x.toNat = [Nat.digitChar (x.toNat / 16 % 16), Nat.digitChar (x.toNat % 16)] := by
    simp [hexPadded, List.range_succ]
  rw [bytesToHex, List.flatMap_cons, hpair, hhigh]
  rfl

/-- There are two digits for each byte. -/
theorem length_bytesToHex (b : List UInt8) : (bytesToHex b).length = 2 * b.length := by
  induction b with
  | nil => rfl
  | cons x b ih =>
    rw [bytesToHex_cons, List.length_cons, List.length_cons, List.length_cons, ih]
    omega

/-- All of them are digits. -/
theorem hexDigit_of_mem_bytesToHex {b : List UInt8} {c : Char} (hc : c ∈ bytesToHex b) : HexDigit c := by
  obtain ⟨x, -, hc⟩ := List.mem_flatMap.1 hc
  obtain ⟨i, -, rfl⟩ := List.mem_map.1 hc
  exact ⟨_, Nat.mod_lt _ (Nat.succ_pos 15), rfl⟩

/-- The two digits of a byte. -/
theorem getElem?_bytesToHex (b : List UInt8) {i : Nat} (hi : i < b.length) :
    (bytesToHex b)[2 * i]? = some (Nat.digitChar (b[i].toNat / 16)) ∧
      (bytesToHex b)[2 * i + 1]? = some (Nat.digitChar (b[i].toNat % 16)) := by
  induction b generalizing i with
  | nil => exact absurd hi (Nat.not_lt_zero i)
  | cons x b ih =>
    rw [bytesToHex_cons]
    cases i with
    | zero => exact ⟨rfl, rfl⟩
    | succ i => exact ih (Nat.lt_of_succ_lt_succ hi)

/-- Decoding the digits of 32 bytes gives the bytes back. -/
theorem hex64ToBytes_bytesToHex (b : Vector UInt8 32) : hex64ToBytes (bytesToHex b.toList) = b := by
  have hdigits : ∀ c ∈ bytesToHex b.toList, HexDigit c := fun _ hc => hexDigit_of_mem_bytesToHex hc
  have hlength : (bytesToHex b.toList).length = 64 := by rw [length_bytesToHex, Vector.length_toList]
  apply Vector.ext
  intro i hi
  obtain ⟨heven, hodd⟩ := getElem?_bytesToHex b.toList (show i < b.toList.length by rwa [Vector.length_toList])
  obtain ⟨high, hhigh, hchar, hnibble⟩ := hexNibble_getD hdigits (show 2 * i < _ by omega)
  obtain ⟨low, hlow, hchar', hnibble'⟩ := hexNibble_getD hdigits (show 2 * i + 1 < _ by omega)
  rw [Vector.getElem_toList] at heven hodd
  have hlt : b[i].toNat < 256 := b[i].toNat_lt
  have hhighEq := digitChar_inj hhigh (by omega) (Option.some.inj (hchar.symm.trans heven))
  have hlowEq := digitChar_inj hlow (by omega) (Option.some.inj (hchar'.symm.trans hodd))
  rw [hex64ToBytes, Vector.getElem_ofFn, hnibble, hnibble', ← UInt8.toNat_inj, toNat_nibbles hhigh hlow, hhighEq, hlowEq]
  omega

/-- And writing what 64 digits decode to gives the digits back. -/
theorem bytesToHex_hex64ToBytes {s : Text} (hs : ∀ c ∈ s, HexDigit c) (hlength : s.length = 64) :
    bytesToHex (hex64ToBytes s).toList = s := by
  refine hex64ToBytes_inj (fun _ hc => hexDigit_of_mem_bytesToHex hc) hs ?_ hlength (hex64ToBytes_bytesToHex _)
  rw [length_bytesToHex, Vector.length_toList]

/-- The digits are those in lower case. -/
theorem hexDigit_iff {c : Char} : HexDigit c ↔ c ∈ "0123456789abcdef".toList := by
  constructor
  · rintro ⟨d, hd, rfl⟩
    have hall : ∀ d : Fin 16, Nat.digitChar d ∈ "0123456789abcdef".toList := by decide +kernel
    exact hall ⟨d, hd⟩
  · intro hc
    have hdigits : "0123456789abcdef".toList = (List.range 16).map Nat.digitChar := by decide +kernel
    rw [hdigits] at hc
    obtain ⟨d, hd, rfl⟩ := List.mem_map.1 hc
    exact ⟨d, List.mem_range.1 hd, rfl⟩

/-- A hash is made of digits. -/
theorem hexDigit_of_mem_sha256Hex {data : List UInt8} {c : Char} (hc : c ∈ sha256Hex data) : HexDigit c := by
  rw [sha256Hex_eq] at hc
  exact hexDigit_of_mem_hexWords hc

/-- Every array of 32 bytes is decoded from its digits, which are those that the migration prints for a buffer with this checksum; and
every text of 64 lower case digits, such as the output of `sha256_hex`, is written again for the bytes it is decoded to. -/
theorem hex_inverse :
    (∀ b : Vector UInt8 32, hex64ToBytes (bytesToHex b.toList) = b ∧
      ∀ buf : MigrationBuffer, buf.checksum = b → checksumHex buf = bytesToHex b.toList) ∧
    (∀ h : Text, h.length = 64 → (∀ c ∈ h, c ∈ "0123456789abcdef".toList) → bytesToHex (hex64ToBytes h).toList = h) ∧
    ∀ data, bytesToHex (hex64ToBytes (sha256Hex data)).toList = sha256Hex data := by
  refine ⟨fun b => ⟨hex64ToBytes_bytesToHex b, ?_⟩, ?_, ?_⟩
  · rintro buf rfl
    rfl
  · intro h hlength hdigits
    exact bytesToHex_hex64ToBytes (fun c hc => hexDigit_iff.2 (hdigits c hc)) hlength
  · intro data
    exact bytesToHex_hex64ToBytes (fun _ hc => hexDigit_of_mem_sha256Hex hc) (length_sha256Hex data)

/-- Sixty-four times the digit `c`. -/
theorem hex_inverse_replicate : bytesToHex (hex64ToBytes (List.replicate 64 'c')).toList = List.replicate 64 'c' := by
  refine hex_inverse.2.1 _ List.length_replicate ?_
  intro c hc
  rw [(List.mem_replicate.1 hc).2]
  decide +kernel

namespace MigrationBuffer

/-! ## The fields -/

/-- Two buffers have the same logical fields. -/
structure SameFields (b b' : MigrationBuffer) : Prop where
  magic : b.magic = b'.magic
  version : b.version = b'.version
  dirty : b.dirty = b'.dirty
  repetition : b.repetition.bits = b'.repetition.bits
  selfReferential : b.selfReferential.bits = b'.selfReferential.bits
  tokenVelocity : b.tokenVelocity.bits = b'.tokenVelocity.bits
  toolRetry : b.toolRetry.bits = b'.toolRetry.bits
  soft : b.soft.bits = b'.soft.bits
  medium : b.medium.bits = b'.medium.bits
  hard : b.hard.bits = b'.hard.bits
  window : b.window = b'.window
  timestamp : b.timestamp = b'.timestamp

variable {b b' : MigrationBuffer}

/-- The payload determines the fields that it is made of. -/
theorem sameFields_of_checksumPayload (h : b.checksumPayload = b'.checksumPayload) : SameFields b b' := by
  -- an end for the last field, so that each field is followed by a rest
  have hend := congrArg (· ++ ([] : List UInt8)) h
  simp only [checksumPayload, List.append_assoc, Bytes.u64_append_inj, Bytes.u32_append_inj] at hend
  obtain ⟨h1, h2, hrest⟩ := hend
  obtain ⟨h3, hrest⟩ := List.cons.inj hrest
  have hdirty : b.dirty = b'.dirty := by
    rw [← toUInt8_ne_zero b.dirty, h3, toUInt8_ne_zero]
  simp only [List.nil_append, List.append_eq, Bytes.u32_append_inj, Bytes.u64_append_inj] at hrest
  obtain ⟨h4, h5, h6, h7, h8, h9, h10, h11, h12, -⟩ := hrest
  exact ⟨h1, h2, hdirty, h4, h5, h6, h7, h8, h9, h10, h11, h12⟩

/-- The digits and the decoder keep digests apart. -/
theorem sha256_of_computeChecksum (h : b.computeChecksum = b'.computeChecksum) :
    sha256 b.checksumPayload = sha256 b'.checksumPayload := by
  unfold computeChecksum at h
  have hhex := hex64ToBytes_inj (fun _ hc => hexDigit_of_mem_sha256Hex hc) (fun _ hc => hexDigit_of_mem_sha256Hex hc)
    (length_sha256Hex _) (length_sha256Hex _) h
  rw [sha256Hex_eq, sha256Hex_eq] at hhex
  exact hexWords_injective hhex

variable {P : Set (List UInt8)}

/-- So does the checksum, if the hash is injective on the payloads. -/
theorem sameFields_of_checksum (hinj : Set.InjOn sha256 P) (hb : b.checksumPayload ∈ P) (hb' : b'.checksumPayload ∈ P)
    (h : b.computeChecksum = b'.computeChecksum) : SameFields b b' :=
  sameFields_of_checksumPayload (hinj hb hb' (sha256_of_computeChecksum h))

/-- If the hash is injective on payloads that include those of two buffers: valid buffers with one checksum agree on every field, and a
buffer that has the checksum of a sealed one and other fields is not valid and never applied. -/
theorem checksum_covers_fields (hinj : Set.InjOn sha256 P) (b b' : MigrationBuffer) (hb : b.checksumPayload ∈ P)
    (hb' : b'.checksumPayload ∈ P) :
    (b.isValid = true → b'.isValid = true → b.checksum = b'.checksum → SameFields b b') ∧
    (b.checksum = b.computeChecksum → b'.checksum = b.checksum → ¬SameFields b b' →
      b'.isValid = false ∧ (decideBuffer b' = .noBuffer ∨ ∃ e why, decideBuffer b' = .reject e why)) := by
  constructor
  · intro hvalid hvalid' heq
    obtain ⟨-, -, hsum⟩ := b.isValid_iff.mp hvalid
    obtain ⟨-, -, hsum'⟩ := b'.isValid_iff.mp hvalid'
    exact sameFields_of_checksum hinj hb hb' (hsum.trans (heq.trans hsum'.symm))
  · intro hsealed hkept hdiffer
    have hinvalid : b'.isValid = false := by
      by_contra hvalid
      obtain ⟨-, -, hsum'⟩ := b'.isValid_iff.mp (Bool.eq_true_of_not_eq_false hvalid)
      exact hdiffer (sameFields_of_checksum hinj hb hb' (hsealed.symm.trans (hkept.symm.trans hsum'.symm)))
    exact ⟨hinvalid, (SentinelGlobals.decideBuffer_of_invalid hinvalid).imp_left And.right⟩

/-- The buffer of the default configuration, sealed. -/
def sealedDefault : MigrationBuffer := sealedFromThresholds .defaultConfig true 1

/-- The same with another hard tier. -/
def forgedDefault : MigrationBuffer := { sealedDefault with hard := ⟨0x3DFBE76D⟩ }

theorem sha256_forgedDefault : sha256 sealedDefault.checksumPayload ≠ sha256 forgedDefault.checksumPayload := by
  decide +kernel

theorem checksum_covers_fields_forged : forgedDefault.isValid = false := by
  have hinj : Set.InjOn sha256 {sealedDefault.checksumPayload, forgedDefault.checksumPayload} := by
    rw [Set.injOn_pair]
    intro heq
    exact absurd heq sha256_forgedDefault
  have hcovers := checksum_covers_fields hinj sealedDefault forgedDefault (Set.mem_insert _ _) (Set.mem_insert_of_mem _ rfl)
  refine (hcovers.2 ?_ rfl ?_).1
  · exact (sealedDefault.isValid_iff.mp (isValid_sealedFromThresholds _ _ _)).2.2.symm
  · intro hsame
    exact absurd hsame.hard (by decide)

end MigrationBuffer

end SafeMode

end GolemKernel
