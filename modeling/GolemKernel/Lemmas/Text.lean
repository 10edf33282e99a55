import GolemKernel.Text

/-!
# Texts that can be taken apart again

A text is determined by its bytes, a number by its decimal digits, and the part of a text before a separator by the whole when it
does not contain the separator.
-/

namespace GolemKernel

namespace Text

/-- The bytes determine the text. -/
theorem asBytes_injective : Function.Injective asBytes := by
  intro s t h
  have hencode : s.utf8Encode = t.utf8Encode := congrArg List.toByteArray h
  have hdecode := congrArg ByteArray.utf8Decode? hencode
  rw [List.utf8Decode?_utf8Encode, List.utf8Decode?_utf8Encode] at hdecode
  simpa using hdecode

/-- The decimal digits determine the number. -/
theorem decimal_injective : Function.Injective decimal := by
  intro m n h
  have hvalue := congrArg (Nat.ofDigitChars 10 · 0) h
  simpa [decimal, Nat.ofDigitChars_ten_toDigits] using hvalue

/-- Decimal digits are digits. -/
theorem isDigit_of_mem_decimal {n : Nat} {c : Char} (h : c ∈ decimal n) : c.isDigit = true :=
  Nat.isDigit_of_mem_toDigits (by decide) (by decide) h

/-- Two texts with a first part that does not contain the separator. -/
theorem append_sep_inj {sep : Char} {a a' b b' : Text} (ha : sep ∉ a) (ha' : sep ∉ a') :
    a ++ sep :: b = a' ++ sep :: b' ↔ a = a' ∧ b = b' := by
  refine ⟨fun h => ?_, fun h => by rw [h.1, h.2]⟩
  induction a generalizing a' with
  | nil =>
    cases a' with
    | nil => exact ⟨rfl, (List.cons.inj h).2⟩
    | cons c a' => exact absurd ((List.cons.inj h).1 ▸ List.mem_cons_self) ha'
  | cons c a ih =>
    cases a' with
    | nil => exact absurd ((List.cons.inj h).1 ▸ List.mem_cons_self) ha
    | cons c' a' =>
      obtain ⟨rfl, hrest⟩ := List.cons.inj h
      obtain ⟨rfl, rfl⟩ := ih (fun hm => ha (List.mem_cons_of_mem _ hm)) (fun hm => ha' (List.mem_cons_of_mem _ hm)) hrest
      exact ⟨rfl, rfl⟩

/-- A decimal number at the start of a text, before a separator that is not a digit. -/
theorem decimal_sep_inj {sep : Char} (hsep : sep.isDigit = false) {m n : Nat} {b b' : Text} :
    decimal m ++ sep :: b = decimal n ++ sep :: b' ↔ m = n ∧ b = b' := by
  have hmem : ∀ k, sep ∉ decimal k := fun k hk => by
    rw [isDigit_of_mem_decimal hk] at hsep
    exact nomatch hsep
  rw [append_sep_inj (hmem m) (hmem n), decimal_injective.eq_iff]

/-! ## Slices -/

/-- The length in bytes: each character has one to four. -/
theorem len_cons (c : Char) (s : Text) : len (c :: s) = c.utf8Size + len s := by
  simp [len, asBytes]

/-- The length of two texts is the sum. -/
theorem len_append (s t : Text) : len (s ++ t) = len s + len t := by
  simp [len, asBytes]

/-- Only the empty text has no bytes. -/
theorem len_eq_zero_iff {s : Text} : len s = 0 ↔ s = [] := by
  cases s with
  | nil => simp [len, asBytes]
  | cons c s =>
    have hpos := c.utf8Size_pos
    rw [len_cons]
    simp
    omega

/-- A slice from behind the first character is one of the rest. -/
theorem sliceFrom_cons (c : Char) (s : Text) (n : Nat) : sliceFrom (c :: s) (c.utf8Size + n) = sliceFrom s n := by
  have hpos := c.utf8Size_pos
  obtain ⟨k, hk⟩ : ∃ k, c.utf8Size + n = k + 1 := ⟨c.utf8Size + n - 1, by omega⟩
  rw [hk, sliceFrom, if_pos (by omega)]
  congr 1
  omega

/-- A slice that starts where a first part ends. -/
theorem sliceFrom_append (s t : Text) : sliceFrom (s ++ t) s.len = some t := by
  induction s with
  | nil => cases t <;> rfl
  | cons c s ih => rw [List.cons_append, len_cons, sliceFrom_cons, ih]

/-- A slice that ends where a first part ends. -/
theorem sliceTo_append (s t : Text) : sliceTo (s ++ t) s.len = some s := by
  induction s with
  | nil => cases t <;> rfl
  | cons c s ih =>
    have hpos := c.utf8Size_pos
    obtain ⟨k, hk⟩ : ∃ k, c.utf8Size + len s = k + 1 := ⟨c.utf8Size + len s - 1, by omega⟩
    have hrest : k + 1 - c.utf8Size = len s := by omega
    rw [List.cons_append, len_cons, hk, sliceTo, if_pos (by omega), hrest, ih, Option.map_some]

/-- A slice in the middle of a text, by the lengths of what follows its two ends. -/
theorem get_append (s t u : Text) :
    (s ++ t ++ u).get ((s ++ t ++ u).len - (t ++ u).len) ((s ++ t ++ u).len - u.len) = some t := by
  have hstart : (s ++ t ++ u).len - (t ++ u).len = s.len := by simp only [len_append]; omega
  have hstop : (s ++ t ++ u).len - u.len = s.len + t.len := by simp only [len_append]; omega
  rw [hstart, hstop, get, if_pos (Nat.le_add_right _ _), List.append_assoc, sliceFrom_append, Option.bind_some,
    Nat.add_sub_cancel_left, sliceTo_append]

/-- The bytes of a text are read back as the text. -/
theorem fromUtf8_asBytes (s : Text) : fromUtf8 s.asBytes = some s := by
  have hdecode : s.asBytes.toByteArray.utf8Decode? = some s.toArray := List.utf8Decode?_utf8Encode
  rw [fromUtf8, hdecode]
  rfl

/-- And bytes that are read as a text are its bytes. -/
theorem asBytes_of_fromUtf8 {bytes : List UInt8} {s : Text} (h : fromUtf8 bytes = some s) : s.asBytes = bytes := by
  obtain ⟨chars, hchars, rfl⟩ := Option.map_eq_some_iff.1 h
  have hsome : bytes.toByteArray.utf8Decode?.isSome = true := by rw [hchars]; rfl
  have hencode : (bytes.toByteArray.utf8Decode?.get hsome).toList.utf8Encode = bytes.toByteArray := ByteArray.utf8Encode_get_utf8Decode?
  simp only [hchars, Option.get_some] at hencode
  exact List.toByteArray_inj.1 hencode

/-- A text starts with its first character. -/
theorem startsWith_iff {s : Text} {c : Char} : s.startsWith c = true ↔ ∃ t, s = c :: t := by
  cases s <;> simp [startsWith, eq_comm]

/-! ## Splits -/

/-- The split is at the last separator. -/
theorem rsplitOnce_eq_some {s a b : Text} {c : Char} (h : s.rsplitOnce c = some (a, b)) : s = a ++ c :: b ∧ c ∉ b := by
  unfold rsplitOnce at h
  split at h
  · rename_i hc
    obtain ⟨rfl, rfl⟩ := Prod.mk.inj (Option.some.inj h)
    have hne : s.rdropWhile (· ≠ c) ≠ [] := by
      intro hnil
      have hall := List.rdropWhile_eq_nil_iff.mp hnil c hc
      simp at hall
    have hlast : (s.rdropWhile (· ≠ c)).getLast hne = c := by
      simpa using List.rdropWhile_last_not (· ≠ c) s hne
    have hfirst : (s.rdropWhile (· ≠ c)).dropLast ++ [c] = s.rdropWhile (· ≠ c) := by
      have hjoin := List.dropLast_append_getLast hne
      rwa [hlast] at hjoin
    refine ⟨?_, ?_⟩
    · calc s = s.rdropWhile (· ≠ c) ++ s.rtakeWhile (· ≠ c) := List.rdropWhile_append_rtakeWhile.symm
        _ = ((s.rdropWhile (· ≠ c)).dropLast ++ [c]) ++ s.rtakeWhile (· ≠ c) := by rw [hfirst]
        _ = _ := List.append_cons .. |>.symm
    · intro hmem
      have := List.mem_rtakeWhile_imp hmem
      simp at this
  · cases h

/-- The part that is trimmed off consists of the character. -/
theorem trimEndMatches_append (s : Text) (c : Char) : ∃ n, s = s.trimEndMatches c ++ List.replicate n c := by
  refine ⟨(s.rtakeWhile (· = c)).length, ?_⟩
  have hall : s.rtakeWhile (· = c) = List.replicate (s.rtakeWhile (· = c)).length c := by
    refine List.eq_replicate_iff.mpr ⟨rfl, ?_⟩
    intro d hd
    simpa using List.mem_rtakeWhile_imp hd
  rw [← hall]
  exact List.rdropWhile_append_rtakeWhile.symm

/-- An ASCII character has one byte. -/
theorem utf8EncodeChar_ascii {c : Char} (h : c.toNat < 128) : String.utf8EncodeChar c = [c.toUInt8] := by
  have hle : c.val.toNat ≤ 127 := Nat.le_of_lt_succ h
  simp only [String.utf8EncodeChar, if_pos hle]
  rfl

/-- So a text that begins with one begins with its byte. -/
theorem asBytes_cons_ascii {c : Char} (h : c.toNat < 128) (t : Text) : asBytes (c :: t) = c.toUInt8 :: t.asBytes := by
  rw [asBytes, List.flatMap_cons, utf8EncodeChar_ascii h]
  rfl

/-- An ASCII text has one byte for each character. -/
theorem asBytes_ascii {t : Text} (h : ∀ c ∈ t, c.toNat < 128) : t.asBytes = t.map Char.toUInt8 := by
  induction t with
  | nil => rfl
  | cons c t ih =>
    rw [asBytes_cons_ascii (h c List.mem_cons_self), ih fun d hd => h d (List.mem_cons_of_mem c hd)]
    rfl

/-- There are as many digits as asked for. -/
theorem length_hexPadded (width n : Nat) : (hexPadded width n).length = width := by
  simp [hexPadded]

/-- Hexadecimal digits are distinct. -/
theorem digitChar_inj {d e : Nat} (hd : d < 16) (he : e < 16) (h : Nat.digitChar d = Nat.digitChar e) : d = e := by
  have hall : ∀ d e : Fin 16, Nat.digitChar d = Nat.digitChar e → d = e := by decide
  exact Fin.mk.inj (hall ⟨d, hd⟩ ⟨e, he⟩ h)

/-- Fixed-width hexadecimal digits determine the number. -/
theorem hexPadded_inj {width n m : Nat} (hn : n < 16 ^ width) (hm : m < 16 ^ width) (h : hexPadded width n = hexPadded width m) :
    n = m := by
  have hdigit : ∀ i < width, n / 16 ^ i % 16 = m / 16 ^ i % 16 := by
    intro i hi
    unfold hexPadded at h
    have heq := List.map_inj_left.1 h i (List.mem_reverse.2 (List.mem_range.2 hi))
    exact digitChar_inj (Nat.mod_lt _ (Nat.succ_pos 15)) (Nat.mod_lt _ (Nat.succ_pos 15)) heq
  clear h
  induction width generalizing n m with
  | zero =>
    rw [Nat.pow_zero] at hn hm
    omega
  | succ width ih =>
    have hdiv : n / 16 = m / 16 := by
      refine ih ?_ ?_ ?_
      · rw [Nat.pow_succ] at hn
        omega
      · rw [Nat.pow_succ] at hm
        omega
      · intro i hi
        rw [Nat.div_div_eq_div_mul, Nat.div_div_eq_div_mul, ← Nat.pow_succ']
        exact hdigit (i + 1) (by omega)
    have hmod := hdigit 0 (by omega)
    rw [Nat.pow_zero, Nat.div_one, Nat.div_one] at hmod
    omega

end Text

end GolemKernel
