import GolemKernel.Theorems.Terminal

/-!
# Numbers and blanks on a command line

The two number parsers of the terminal accept exactly their grammars (`parseU32_eq_some_iff`, `isSome_parseF32_iff`). A blank is in
neither grammar. `split_first_token` drops the blanks around a token and hands on the rest of the line with those at its end, so that
`set` gets them as a part of the value: `blanks_neutral_iff` says for which lines blanks around the line make no difference.
-/

namespace GolemKernel

namespace SafeMode

namespace Terminal

/-! ## Unsigned numbers -/

/-- Only ASCII digits. -/
def Digits (bytes : List UInt8) : Prop := ∀ b ∈ bytes, 48 ≤ b ∧ b ≤ 57

/-- The number that the digits write in base ten. -/
def decimalValue (bytes : List UInt8) : Nat := Nat.ofDigits 10 (bytes.reverse.map fun b => b.toNat - 48)

/-- The digits are the bytes from 48 to 57. -/
theorem isAsciiDigit_iff {b : UInt8} : isAsciiDigit b = true ↔ 48 ≤ b ∧ b ≤ 57 := by
  simp [isAsciiDigit]

theorem digits_nil : Digits [] := List.forall_mem_nil _

/-- The first digit counts for the most. -/
theorem decimalValue_cons (b : UInt8) (bytes : List UInt8) :
    decimalValue (b :: bytes) = (b.toNat - 48) * 10 ^ bytes.length + decimalValue bytes := by
  rw [decimalValue, List.reverse_cons, List.map_append, Nat.ofDigits_append, List.length_map, List.length_reverse, List.map_singleton,
    Nat.ofDigits_singleton, decimalValue]
  ring

/-- Checked arithmetic gives the number that it should, if that is a `u32`. -/
theorem checkedU32_eq_some_iff {n : Nat} {v : UInt32} : checkedU32 n = some v ↔ n = v.toNat := by
  unfold checkedU32
  split
  · rename_i hn
    rw [Option.some.injEq]
    constructor
    · rintro rfl
      exact (UInt32.toNat_ofNat_of_lt' hn).symm
    · rintro rfl
      exact UInt32.ofNat_toNat
  · rename_i hn
    have := v.toNat_lt
    simp only [reduceCtorEq, false_iff]
    omega

/-- A turn adds a digit at the end of the number, if that fits. -/
theorem pushU32_eq_some_iff {value v : UInt32} {b : UInt8} :
    pushU32 value b = some v ↔ (48 ≤ b ∧ b ≤ 57) ∧ value.toNat * 10 + (b.toNat - 48) = v.toNat := by
  rw [← isAsciiDigit_iff]
  unfold pushU32
  cases hb : isAsciiDigit b with
  | false => simp
  | true =>
    have hsub : (b - 48).toNat = b.toNat - 48 := UInt8.toNat_sub_of_le b 48 (isAsciiDigit_iff.1 hb).1
    simp only [Bool.not_true, Bool.false_eq_true, if_false, Option.bind_eq_bind, Option.bind_eq_some_iff, checkedU32_eq_some_iff, hsub,
      true_and]
    constructor
    · rintro ⟨ten, hten, hv⟩
      omega
    · intro hv
      have hlt : value.toNat * 10 < UInt32.size := by
        have hmax : v.toNat < UInt32.size := v.toNat_lt
        omega
      have hten : (UInt32.ofNat (value.toNat * 10)).toNat = value.toNat * 10 := UInt32.toNat_ofNat_of_lt' hlt
      exact ⟨_, hten.symm, by rw [hten, hv]⟩

/-- The checks made along the way fail for exactly the values that are too large in the end: the value only grows. -/
theorem foldlM_pushU32_eq_some_iff (bytes : List UInt8) (value v : UInt32) :
    bytes.foldlM pushU32 value = some v ↔ Digits bytes ∧ value.toNat * 10 ^ bytes.length + decimalValue bytes = v.toNat := by
  induction bytes generalizing value with
  | nil => simp [digits_nil, decimalValue, UInt32.toNat_inj]
  | cons b bytes ih =>
    have hsum : (value.toNat * 10 + (b.toNat - 48)) * 10 ^ bytes.length + decimalValue bytes =
        value.toNat * 10 ^ (b :: bytes).length + decimalValue (b :: bytes) := by
      rw [decimalValue_cons, List.length_cons]
      ring
    rw [List.foldlM_cons, Digits, List.forall_mem_cons, ← Digits, ← hsum]
    simp only [Option.bind_eq_bind, Option.bind_eq_some_iff, pushU32_eq_some_iff, ih]
    constructor
    · rintro ⟨next, ⟨hb, hnext⟩, hdigits, hv⟩
      rw [hnext]
      exact ⟨⟨hb, hdigits⟩, hv⟩
    · rintro ⟨⟨hb, hdigits⟩, hv⟩
      have hlt : value.toNat * 10 + (b.toNat - 48) < UInt32.size :=
        calc value.toNat * 10 + (b.toNat - 48)
            ≤ (value.toNat * 10 + (b.toNat - 48)) * 10 ^ bytes.length := Nat.le_mul_of_pos_right _ (by positivity)
          _ ≤ v.toNat := by omega
          _ < UInt32.size := v.toNat_lt
      have hnext : (UInt32.ofNat (value.toNat * 10 + (b.toNat - 48))).toNat = value.toNat * 10 + (b.toNat - 48) :=
        UInt32.toNat_ofNat_of_lt' hlt
      exact ⟨_, ⟨hb, hnext.symm⟩, hdigits, by rw [hnext, hv]⟩

/-- `parse_u32` gives the value of a string of digits that writes a `u32`. -/
theorem parseU32_eq_some_iff {bytes : List UInt8} {v : UInt32} :
    parseU32 bytes = some v ↔ bytes ≠ [] ∧ Digits bytes ∧ decimalValue bytes = v.toNat := by
  cases bytes with
  | nil => simp [parseU32]
  | cons b bytes =>
    have hfold : parseU32 (b :: bytes) = (b :: bytes).foldlM pushU32 0 := rfl
    rw [hfold, foldlM_pushU32_eq_some_iff]
    simp

/-! ## Decimals -/

/-- Digits, or digits with a point among or beside them, and a digit at least. -/
def IsUnsigned (bytes : List UInt8) : Prop :=
  ∃ int frac, Digits int ∧ Digits frac ∧
    (bytes = int ∧ int ≠ [] ∨ bytes = int ++ ascii "." ++ frac ∧ (int ≠ [] ∨ frac ≠ []))

/-- An optional sign before an unsigned number. -/
def IsDecimal (bytes : List UInt8) : Prop :=
  ∃ sign unsigned, (sign = [] ∨ sign = ascii "+" ∨ sign = ascii "-") ∧ IsUnsigned unsigned ∧ bytes = sign ++ unsigned

/-- The first loop stops at the first byte that is no digit. -/
theorem intLoop_eq (value : F32) (sawDigit : Bool) (bytes : List UInt8) :
    (intLoop value sawDigit bytes).2 = (sawDigit || !(bytes.takeWhile isAsciiDigit).isEmpty, bytes.dropWhile isAsciiDigit) := by
  induction bytes generalizing value sawDigit with
  | nil => simp [intLoop]
  | cons b bytes ih =>
    cases hb : isAsciiDigit b with
    | false => simp [intLoop, hb]
    | true => simp [intLoop, hb, ih]

/-- So does the second. -/
theorem fracLoop_eq (frac scale : F32) (sawDigit : Bool) (bytes : List UInt8) :
    (fracLoop frac scale sawDigit bytes).2.2 =
      (sawDigit || !(bytes.takeWhile isAsciiDigit).isEmpty, bytes.dropWhile isAsciiDigit) := by
  induction bytes generalizing frac scale sawDigit with
  | nil => simp [fracLoop]
  | cons b bytes ih =>
    cases hb : isAsciiDigit b with
    | false => simp [fracLoop, hb]
    | true => simp [fracLoop, hb, ih]

/-- What is left when the sign has been read. -/
def unsignedPart (bytes : List UInt8) : List UInt8 :=
  if bytes.head? == some 45 || bytes.head? == some 43 then bytes.tail else bytes

/-- The two loops of `parse_f32` get to the end and see a digit. -/
def scansUnsigned (bytes : List UInt8) : Bool :=
  let int := bytes.takeWhile isAsciiDigit
  let rest := bytes.dropWhile isAsciiDigit
  if rest.head? == some 46 then
    (rest.tail.dropWhile isAsciiDigit).isEmpty && (!int.isEmpty || !(rest.tail.takeWhile isAsciiDigit).isEmpty)
  else rest.isEmpty && !int.isEmpty

/-- There is a value exactly if both checks pass. -/
theorem isSome_unless {α : Type} (p q : Bool) (a : α) : (if !p || !q then none else some a).isSome = (p && q) := by
  cases p <;> cases q <;> rfl

/-- `parse_f32` gives a number exactly if its loops get to the end and see a digit. -/
theorem isSome_parseF32 (bytes : List UInt8) : (parseF32 bytes).isSome = scansUnsigned (unsignedPart bytes) := by
  cases bytes with
  | nil => rfl
  | cons b bytes =>
    have hint := intLoop_eq .zero false (unsignedPart (b :: bytes))
    cases hloop : intLoop .zero false (unsignedPart (b :: bytes)) with
    | mk intPart loop =>
      obtain ⟨sawDigit, rest⟩ := loop
      rw [hloop, Bool.false_or] at hint
      rw [unsignedPart] at hloop
      simp only [parseF32, List.isEmpty_cons, Bool.false_eq_true, if_false, hloop]
      obtain ⟨rfl, rfl⟩ := Prod.mk.inj hint
      unfold scansUnsigned
      generalize unsignedPart (b :: bytes) = u
      by_cases hpoint : ((u.dropWhile isAsciiDigit).head? == some 46) = true
      · have hfrac := fracLoop_eq .zero .one (!(u.takeWhile isAsciiDigit).isEmpty) (u.dropWhile isAsciiDigit).tail
        cases hloop : fracLoop .zero .one (!(u.takeWhile isAsciiDigit).isEmpty) (u.dropWhile isAsciiDigit).tail with
        | mk frac loop =>
          obtain ⟨scale, sawDigit, rest⟩ := loop
          rw [hloop] at hfrac
          simp only [hpoint, if_true]
          obtain ⟨rfl, rfl⟩ := Prod.mk.inj hfrac
          exact isSome_unless _ _ _
      · simp only [hpoint]
        exact isSome_unless _ _ _

/-- Digits are taken up to the first byte that is none. -/
theorem takeWhile_digits {int : List UInt8} (hint : Digits int) (rest : List UInt8) :
    (int ++ rest).takeWhile isAsciiDigit = int ++ rest.takeWhile isAsciiDigit :=
  List.takeWhile_append_of_pos fun b hb => isAsciiDigit_iff.2 (hint b hb)

/-- And dropped up to it. -/
theorem dropWhile_digits {int : List UInt8} (hint : Digits int) (rest : List UInt8) :
    (int ++ rest).dropWhile isAsciiDigit = rest.dropWhile isAsciiDigit :=
  List.dropWhile_append_of_pos fun b hb => isAsciiDigit_iff.2 (hint b hb)

/-- Of digits all are taken. -/
theorem takeWhile_eq_self {bytes : List UInt8} (h : Digits bytes) : bytes.takeWhile isAsciiDigit = bytes :=
  List.takeWhile_eq_self_iff.2 fun b hb => isAsciiDigit_iff.2 (h b hb)

/-- Nothing is left exactly of digits. -/
theorem dropWhile_eq_nil_iff {bytes : List UInt8} : bytes.dropWhile isAsciiDigit = [] ↔ Digits bytes := by
  simp only [List.dropWhile_eq_nil_iff, isAsciiDigit_iff, Digits]

/-- What is taken are digits. -/
theorem digits_takeWhile (bytes : List UInt8) : Digits (bytes.takeWhile isAsciiDigit) :=
  fun _ hb => isAsciiDigit_iff.1 (List.mem_takeWhile_imp hb)

/-- Digits are scanned. -/
theorem scansUnsigned_digits {int : List UInt8} (hint : Digits int) (hne : int ≠ []) : scansUnsigned int = true := by
  rw [scansUnsigned, takeWhile_eq_self hint, dropWhile_eq_nil_iff.2 hint]
  simpa using hne

/-- So are digits with a point. -/
theorem scansUnsigned_point {int frac : List UInt8} (hint : Digits int) (hfrac : Digits frac) (hne : int ≠ [] ∨ frac ≠ []) :
    scansUnsigned (int ++ ascii "." ++ frac) = true := by
  have hpoint : ascii "." = [46] := by decide
  have hpoint_not : isAsciiDigit 46 = false := by decide
  rw [scansUnsigned, List.append_assoc, hpoint, takeWhile_digits hint, dropWhile_digits hint]
  simp only [List.singleton_append, List.takeWhile_cons, List.dropWhile_cons, hpoint_not, Bool.false_eq_true, if_false, List.append_nil,
    List.head?_cons, BEq.rfl, if_true, List.tail_cons, takeWhile_eq_self hfrac, dropWhile_eq_nil_iff.2 hfrac, List.isEmpty_nil,
    Bool.true_and]
  simpa using hne

/-- What the loops get through is an unsigned number, and conversely. -/
theorem scansUnsigned_iff {bytes : List UInt8} : scansUnsigned bytes = true ↔ IsUnsigned bytes := by
  have hsplit : bytes.takeWhile isAsciiDigit ++ bytes.dropWhile isAsciiDigit = bytes := List.takeWhile_append_dropWhile
  unfold scansUnsigned
  constructor
  · dsimp only
    split
    · rename_i hpoint
      obtain ⟨frac, hrest⟩ : ∃ frac, bytes.dropWhile isAsciiDigit = 46 :: frac := by
        cases hrest : bytes.dropWhile isAsciiDigit with
        | nil =>
          rw [hrest] at hpoint
          cases hpoint
        | cons b frac =>
          rw [hrest] at hpoint
          exact ⟨frac, by rw [Option.some.inj (eq_of_beq hpoint)]⟩
      rw [hrest, List.tail_cons, Bool.and_eq_true, List.isEmpty_iff]
      rintro ⟨hend, hdigit⟩
      have hfrac := dropWhile_eq_nil_iff.1 hend
      refine ⟨_, frac, digits_takeWhile bytes, hfrac, Or.inr ⟨?_, ?_⟩⟩
      · calc bytes = bytes.takeWhile isAsciiDigit ++ 46 :: frac := by rw [← hrest, hsplit]
          _ = bytes.takeWhile isAsciiDigit ++ ascii "." ++ frac := (List.append_assoc _ [46] frac).symm
      · simpa [takeWhile_eq_self hfrac] using hdigit
    · rw [Bool.and_eq_true, List.isEmpty_iff]
      rintro ⟨hend, hdigit⟩
      refine ⟨bytes, [], dropWhile_eq_nil_iff.1 hend, digits_nil, Or.inl ⟨rfl, ?_⟩⟩
      rintro rfl
      cases hdigit
  · rintro ⟨int, frac, hint, hfrac, ⟨rfl, hne⟩ | ⟨rfl, hne⟩⟩
    · exact scansUnsigned_digits hint hne
    · exact scansUnsigned_point hint hfrac hne

/-- An unsigned number consists of digits and points. -/
theorem IsUnsigned.mem {bytes : List UInt8} (h : IsUnsigned bytes) {b : UInt8} (hb : b ∈ bytes) : 48 ≤ b ∧ b ≤ 57 ∨ b = 46 := by
  obtain ⟨int, frac, hint, hfrac, ⟨rfl, -⟩ | ⟨rfl, -⟩⟩ := h
  · exact Or.inl (hint b hb)
  · rcases List.mem_append.1 hb with hb | hb
    · rcases List.mem_append.1 hb with hb | hb
      · exact Or.inl (hint b hb)
      · exact Or.inr (List.mem_singleton.1 hb)
    · exact Or.inl (hfrac b hb)

/-- An unsigned number has no sign to read. -/
theorem IsUnsigned.unsignedPart_eq {bytes : List UInt8} (h : IsUnsigned bytes) : unsignedPart bytes = bytes := by
  cases bytes with
  | nil => rfl
  | cons b bytes =>
    have hb := h.mem List.mem_cons_self
    have hminus : b ≠ 45 := by
      rintro rfl
      exact absurd hb (by decide)
    have hplus : b ≠ 43 := by
      rintro rfl
      exact absurd hb (by decide)
    simp [unsignedPart, hminus, hplus]

/-- A decimal is an unsigned number when its sign has been read. -/
theorem isUnsigned_unsignedPart_iff {bytes : List UInt8} : IsUnsigned (unsignedPart bytes) ↔ IsDecimal bytes := by
  constructor
  · intro h
    by_cases hsign : (bytes.head? == some 45 || bytes.head? == some 43) = true
    · cases bytes with
      | nil => cases hsign
      | cons b bytes =>
        have hpart : unsignedPart (b :: bytes) = bytes := if_pos hsign
        rw [hpart] at h
        simp only [List.head?_cons, Bool.or_eq_true, beq_iff_eq, Option.some.injEq] at hsign
        rcases hsign with rfl | rfl
        · exact ⟨ascii "-", bytes, Or.inr (Or.inr rfl), h, rfl⟩
        · exact ⟨ascii "+", bytes, Or.inr (Or.inl rfl), h, rfl⟩
    · have hpart : unsignedPart bytes = bytes := if_neg hsign
      rw [hpart] at h
      exact ⟨[], bytes, Or.inl rfl, h, rfl⟩
  · rintro ⟨sign, unsigned, rfl | rfl | rfl, h, rfl⟩
    · rwa [h.unsignedPart_eq]
    · exact h
    · exact h

/-- `parse_f32` gives a number exactly for the decimals. -/
theorem isSome_parseF32_iff {bytes : List UInt8} : (parseF32 bytes).isSome = true ↔ IsDecimal bytes := by
  rw [isSome_parseF32, scansUnsigned_iff, isUnsigned_unsignedPart_iff]

/-- For every byte string: `parse_u32` gives a number if and only if the string is not empty, has only digits and writes that number,
which is below `2 ^ 32`; `parse_f32` gives one if and only if the string is a decimal. Both give nothing for every other string. -/
theorem number_grammars_exact (bytes : List UInt8) :
    (∀ v : UInt32, parseU32 bytes = some v ↔
      bytes ≠ [] ∧ Digits bytes ∧ decimalValue bytes < 2 ^ 32 ∧ v.toNat = decimalValue bytes) ∧
    (parseU32 bytes = none ↔ ¬(bytes ≠ [] ∧ Digits bytes ∧ decimalValue bytes < 2 ^ 32)) ∧
    ((∃ v, parseF32 bytes = some v) ↔ IsDecimal bytes) ∧ (parseF32 bytes = none ↔ ¬IsDecimal bytes) := by
  have hsome : ∀ v : UInt32, parseU32 bytes = some v ↔
      bytes ≠ [] ∧ Digits bytes ∧ decimalValue bytes < 2 ^ 32 ∧ v.toNat = decimalValue bytes := by
    intro v
    rw [parseU32_eq_some_iff]
    constructor
    · rintro ⟨hne, hdigits, hv⟩
      exact ⟨hne, hdigits, hv ▸ v.toNat_lt, hv.symm⟩
    · rintro ⟨hne, hdigits, -, hv⟩
      exact ⟨hne, hdigits, hv.symm⟩
  refine ⟨hsome, ?_, ?_, ?_⟩
  · rw [Option.eq_none_iff_forall_ne_some]
    constructor
    · rintro hnone ⟨hne, hdigits, hlt⟩
      exact hnone _ ((hsome (UInt32.ofNat (decimalValue bytes))).2 ⟨hne, hdigits, hlt, UInt32.toNat_ofNat_of_lt' hlt⟩)
    · intro hnot v hv
      obtain ⟨hne, hdigits, hlt, -⟩ := (hsome v).1 hv
      exact hnot ⟨hne, hdigits, hlt⟩
  · rw [← isSome_parseF32_iff, Option.isSome_iff_exists]
  · rw [← isSome_parseF32_iff, Option.not_isSome_iff_eq_none]

/-! ## Blanks -/

/-- A line with spaces before and after it. -/
def padded (before : Nat) (line : List UInt8) (after : Nat) : List UInt8 := List.replicate before 32 ++ line ++ List.replicate after 32

/-- What becomes of the rest of a line when spaces are added to the line: nothing, or the spaces are at its end. -/
def padRest (rest : List UInt8) (after : Nat) : List UInt8 := if rest.isEmpty then [] else rest ++ List.replicate after 32

theorem dropWhile_space_replicate (n : Nat) : (List.replicate n (32 : UInt8)).dropWhile (· == 32) = [] := by
  simp

/-- Spaces at the end are dropped only with everything before them. -/
theorem dropWhile_space_append (bytes : List UInt8) (after : Nat) :
    (bytes ++ List.replicate after 32).dropWhile (· == 32) = padRest (bytes.dropWhile (· == 32)) after := by
  rw [List.dropWhile_append, padRest, dropWhile_space_replicate]

/-- They are not part of a first token. -/
theorem takeWhile_token_append (bytes : List UInt8) (after : Nat) :
    (bytes ++ List.replicate after 32).takeWhile (· != 32) = bytes.takeWhile (· != 32) := by
  have hspaces : (List.replicate after (32 : UInt8)).takeWhile (· != 32) = [] := by
    cases after <;> rfl
  induction bytes with
  | nil => exact hspaces
  | cons b bytes ih => rw [List.cons_append, List.takeWhile_cons, List.takeWhile_cons, ih]

/-- And so they stay behind it. -/
theorem dropWhile_token_append (bytes : List UInt8) (after : Nat) :
    (bytes ++ List.replicate after 32).dropWhile (· != 32) = bytes.dropWhile (· != 32) ++ List.replicate after 32 := by
  have hspaces : (List.replicate after (32 : UInt8)).dropWhile (· != 32) = List.replicate after 32 := by
    cases after <;> rfl
  induction bytes with
  | nil => exact hspaces
  | cons b bytes ih =>
    rw [List.cons_append, List.dropWhile_cons, List.dropWhile_cons, ih]
    split <;> rfl

/-- Spaces at the end of a line stay at the end of its rest. -/
theorem splitFirstToken_append (line : List UInt8) (after : Nat) :
    splitFirstToken (line ++ List.replicate after 32) = ((splitFirstToken line).1, padRest (splitFirstToken line).2 after) := by
  unfold splitFirstToken
  rw [dropWhile_space_append]
  cases line.dropWhile (· == 32) with
  | nil => rfl
  | cons b input =>
    have hpad : padRest (b :: input) after = b :: input ++ List.replicate after 32 := rfl
    rw [hpad]
    dsimp only
    rw [takeWhile_token_append, dropWhile_token_append, dropWhile_space_append]

/-- The first token is the same with spaces at the end, and the rest keeps them. -/
theorem splitFirstToken_padRest (rest : List UInt8) (after : Nat) :
    splitFirstToken (padRest rest after) = ((splitFirstToken rest).1, padRest (splitFirstToken rest).2 after) := by
  cases rest with
  | nil => rfl
  | cons b rest => exact splitFirstToken_append (b :: rest) after

/-- Spaces before the line are dropped; those after it stay at the end of the rest. -/
theorem splitFirstToken_padded (before : Nat) (line : List UInt8) (after : Nat) :
    splitFirstToken (padded before line after) = ((splitFirstToken line).1, padRest (splitFirstToken line).2 after) := by
  have hbefore : (padded before line after).dropWhile (· == 32) = (line ++ List.replicate after 32).dropWhile (· == 32) := by
    rw [padded, List.append_assoc]
    exact List.dropWhile_append_of_pos fun b hb => by rw [(List.mem_replicate.1 hb).2]; rfl
  rw [← splitFirstToken_append, splitFirstToken, splitFirstToken, hbefore]

/-- A space is in no number. -/
theorem parseU32_of_space {bytes : List UInt8} (h : 32 ∈ bytes) : parseU32 bytes = none := by
  rw [Option.eq_none_iff_forall_ne_some]
  intro v hv
  obtain ⟨-, hdigits, -⟩ := parseU32_eq_some_iff.1 hv
  exact absurd (hdigits 32 h) (by decide)

/-- Nor is it in a decimal. -/
theorem parseF32_of_space {bytes : List UInt8} (h : 32 ∈ bytes) : parseF32 bytes = none := by
  rw [← Option.not_isSome_iff_eq_none, isSome_parseF32_iff]
  rintro ⟨sign, unsigned, hsign, hunsigned, rfl⟩
  rcases List.mem_append.1 h with hmem | hmem
  · rcases hsign with rfl | rfl | rfl <;> exact absurd hmem (by decide)
  · exact absurd (hunsigned.mem hmem) (by decide)

/-- A value with a space at its end is never stored. -/
theorem cmdSet_padRest (rest : List UInt8) {after : Nat} (hafter : after ≠ 0) (config : SentinelConfig) :
    (cmdSet (padRest rest after) config).2 = config := by
  unfold cmdSet
  rw [splitFirstToken_padRest]
  dsimp only
  cases (splitFirstToken rest).2 with
  | nil => simp [padRest]
  | cons b valueTok =>
    have hspace : (32 : UInt8) ∈ padRest (b :: valueTok) after :=
      List.mem_append_right _ (List.mem_replicate.2 ⟨hafter, rfl⟩)
    rw [parseU32_of_space hspace, parseF32_of_space hspace]
    split_ifs <;> rfl

theorem padRest_zero (rest : List UInt8) : padRest rest 0 = rest := by
  cases rest with
  | nil => rfl
  | cons b rest => exact List.append_nil _

/-- The threshold of a configuration that a field name stands for. -/
def fieldRead (field : List UInt8) : Option (SentinelConfig → F32) :=
  if field = ascii "repetition" then some (·.repetition)
  else if field = ascii "self_referential" then some (·.selfReferential)
  else if field = ascii "token_velocity" then some (·.tokenVelocity)
  else if field = ascii "tool_retry" then some (·.toolRetry)
  else if field = ascii "soft" then some (·.soft)
  else if field = ascii "medium" then some (·.medium)
  else if field = ascii "hard" then some (·.hard)
  else none

/-- There is nothing to store for a field and a value: the field is none of the eight, or the value is outside the grammar or the range of
the field, or it is what the field has. -/
def NothingToStore (field value : List UInt8) (c : SentinelConfig) : Prop :=
  (field = ascii "window" → ∀ v, parseU32 value = some v → 0 < v → v = c.window) ∧
    ∀ read, fieldRead field = some read →
      ∀ v, parseF32 value = some v → F32.zero.le v = true → v.le .one = true → v = read c

/-- A store to a field changes nothing exactly if it stores what the field has. -/
theorem fieldStore_fieldRead (field : List UInt8) :
    (fieldStore field = none ∧ fieldRead field = none) ∨
      ∃ store read, fieldStore field = some store ∧ fieldRead field = some read ∧ ∀ v c, store v c = c ↔ v = read c := by
  unfold fieldStore fieldRead
  split_ifs
  all_goals first
    | exact .inl ⟨rfl, rfl⟩
    | refine .inr ⟨_, _, rfl, rfl, ?_⟩
      rintro v ⟨⟩
      simp only [SentinelConfig.mk.injEq, and_true, true_and]

/-- `set` leaves the working copy as it is exactly if there is nothing to store. -/
theorem cmdSet_eq_self_iff (rest : List UInt8) (c : SentinelConfig) :
    (cmdSet rest c).2 = c ↔ NothingToStore (splitFirstToken rest).1 (splitFirstToken rest).2 c := by
  unfold cmdSet NothingToStore
  cases splitFirstToken rest with
  | mk field value =>
    dsimp only
    split
    · -- no field is named, or no value is given
      rename_i hempty
      refine iff_of_true rfl ?_
      rcases (Bool.or_eq_true _ _).mp hempty with hfield | hvalue
      · obtain rfl := List.isEmpty_iff.mp hfield
        exact ⟨fun h => absurd h (by decide), fun _ h => nomatch h⟩
      · obtain rfl := List.isEmpty_iff.mp hvalue
        exact ⟨fun _ _ h => (nomatch h), fun _ _ _ h => (nomatch h)⟩
    · by_cases hwindow : field = ascii "window"
      · -- a window is stored if it is a positive number
        subst hwindow
        have hread : fieldRead (ascii "window") = none := rfl
        rw [if_pos rfl, hread]
        cases parseU32 value with
        | none => simp
        | some v =>
          obtain ⟨⟩ := c
          by_cases hpos : 0 < v <;> simp [hpos]
      · rw [if_neg hwindow]
        cases parseF32 value with
        | none => simp [hwindow]
        | some v =>
          rcases fieldStore_fieldRead field with ⟨hstore, hread⟩ | ⟨store, read, hstore, hread, hself⟩
          · rw [hstore, hread]
            refine iff_of_true ?_ ⟨(absurd · hwindow), fun _ h => nomatch h⟩
            dsimp only
            split <;> rfl
          · -- a threshold is stored if it is in range
            rw [hstore, hread]
            dsimp only
            split
            · rename_i hrange
              refine iff_of_true rfl ⟨(absurd · hwindow), ?_⟩
              intro _ _ v' hv hzero hone
              obtain rfl := Option.some.inj hv
              rw [hzero, hone] at hrange
              cases hrange
            · rename_i hrange
              have hbounds : F32.zero.le v = true ∧ v.le .one = true := by simpa using hrange
              rw [hself]
              constructor
              · intro heq
                refine ⟨(absurd · hwindow), ?_⟩
                intro read' hread' v' hv _ _
                obtain rfl := Option.some.inj hread'
                obtain rfl := Option.some.inj hv
                exact heq
              · intro h
                exact h.2 read rfl v rfl hbounds.1 hbounds.2

variable {blockAddr : Nat} {s : State} {line : List UInt8}

/-- `set` changes the working copy and nothing else. -/
theorem dispatch_set (h : (splitFirstToken line).1 = ascii "set") :
    (dispatch blockAddr line s).2 = { s with config := (cmdSet (splitFirstToken line).2 s.config).2 } := by
  unfold dispatch
  dsimp only
  rw [h, if_neg (by decide), if_neg (by decide), if_neg (by decide), if_pos rfl]

/-- The other commands take no arguments. -/
theorem dispatch_padded_of_ne_set (h : (splitFirstToken line).1 ≠ ascii "set") (before after : Nat) :
    dispatch blockAddr (padded before line after) s = dispatch blockAddr line s := by
  unfold dispatch
  rw [splitFirstToken_padded]
  dsimp only
  rw [if_neg h, if_neg h]

/-- For every line, working copy and memory, and any numbers of spaces before and after the line: the working copy and the block are
as after the line without them if and only if there are no spaces after it, or its command is not `set`, or its field and value leave
nothing to store. -/
theorem blanks_neutral_iff (blockAddr : Nat) (s : State) (line : List UInt8) (before after : Nat) :
    ((dispatch blockAddr (padded before line after) s).2.config = (dispatch blockAddr line s).2.config ∧
        readBlock blockAddr (dispatch blockAddr (padded before line after) s).2.mem =
          readBlock blockAddr (dispatch blockAddr line s).2.mem) ↔
      after = 0 ∨ (splitFirstToken line).1 ≠ ascii "set" ∨
        NothingToStore (splitFirstToken (splitFirstToken line).2).1 (splitFirstToken (splitFirstToken line).2).2 s.config := by
  by_cases hset : (splitFirstToken line).1 = ascii "set"
  · have hpadded : (splitFirstToken (padded before line after)).1 = ascii "set" := by rw [splitFirstToken_padded, hset]
    rw [dispatch_set hset, dispatch_set hpadded, splitFirstToken_padded]
    by_cases hafter : after = 0
    · simp [hafter, padRest_zero]
    · simp only [cmdSet_padRest _ hafter, hafter, hset, and_true, ne_eq, not_true_eq_false, false_or, ← cmdSet_eq_self_iff]
      exact eq_comm
  · rw [dispatch_padded_of_ne_set hset]
    simp [hset]

/-- Two spaces before and three after a `commit`. -/
theorem blanks_neutral_iff_commit :
    (dispatch 0x200000 (padded 2 (ascii "commit") 3) (start freshMemory)).2.config =
        (dispatch 0x200000 (ascii "commit") (start freshMemory)).2.config ∧
      readBlock 0x200000 (dispatch 0x200000 (padded 2 (ascii "commit") 3) (start freshMemory)).2.mem =
        readBlock 0x200000 (dispatch 0x200000 (ascii "commit") (start freshMemory)).2.mem :=
  (blanks_neutral_iff 0x200000 (start freshMemory) (ascii "commit") 2 3).2 (Or.inr (Or.inl (by decide)))

/-- `set window 32` stores the window; with one space after it, it stores nothing. -/
theorem trailing_space_refused :
    (dispatch 0x200000 (ascii "set window 32") (start freshMemory)).2.config = { SentinelConfig.default with window := 32 } ∧
      (dispatch 0x200000 (padded 0 (ascii "set window 32") 1) (start freshMemory)).2.config = .default :=
  ⟨rfl, rfl⟩

end Terminal

end SafeMode

end GolemKernel
