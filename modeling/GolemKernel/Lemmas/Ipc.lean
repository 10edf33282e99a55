import GolemKernel.Lemmas.Text
import GolemKernel.Lib.Json
import GolemKernel.Sentinel.Ipc

/-!
# The scanner on characters

`json_string_field` works on bytes. What it looks for is ASCII, and the bytes of every other character are above ASCII, so it finds the
same as a scanner that works on characters. The requests that are accepted are those in which the three fields are found.
-/

namespace GolemKernel

namespace Sentinel

namespace Ipc

open Text

/-! ## Characters and their bytes -/

/-- The bytes of a character outside ASCII are all at least 128. -/
theorem utf8EncodeChar_high {c : Char} (h : 128 ≤ c.toNat) {b : UInt8} (hb : b ∈ String.utf8EncodeChar c) : 128 ≤ b.toNat := by
  have hgt : ¬c.val.toNat ≤ 127 := Nat.not_le.2 h
  simp only [String.utf8EncodeChar, if_neg hgt] at hb
  split at hb
  · simp only [List.mem_cons, List.not_mem_nil, or_false] at hb
    rcases hb with rfl | rfl <;> simp only [UInt8.toNat_ofNat'] <;> omega
  split at hb
  · simp only [List.mem_cons, List.not_mem_nil, or_false] at hb
    rcases hb with rfl | rfl | rfl <;> simp only [UInt8.toNat_ofNat'] <;> omega
  · simp only [List.mem_cons, List.not_mem_nil, or_false] at hb
    rcases hb with rfl | rfl | rfl | rfl <;> simp only [UInt8.toNat_ofNat'] <;> omega

/-- An ASCII character is its byte. -/
theorem toNat_toUInt8 {c : Char} (h : c.toNat < 128) : c.toUInt8.toNat = c.toNat := by
  have hmod : c.toUInt8.toNat = c.toNat % 256 := UInt32.toNat_toUInt8 c.val
  omega

/-- ASCII characters with the same byte are the same. -/
theorem toUInt8_inj {c d : Char} (hc : c.toNat < 128) (hd : d.toNat < 128) : c.toUInt8 = d.toUInt8 ↔ c = d := by
  refine ⟨fun h => Char.toNat_inj.1 ?_, fun h => by rw [h]⟩
  rw [← toNat_toUInt8 hc, ← toNat_toUInt8 hd, h]

theorem quote_ascii : '"'.toNat < 128 := by decide

theorem backslash_ascii : '\\'.toNat < 128 := by decide

/-- The bytes of a text that starts with an ASCII character, or with another one. -/
theorem asBytes_cons_cases (c : Char) (t : Text) :
    (c.toNat < 128 ∧ asBytes (c :: t) = c.toUInt8 :: t.asBytes) ∨
      128 ≤ c.toNat ∧ ∃ b high, 128 ≤ b.toNat ∧ (∀ b' ∈ high, 128 ≤ b'.toNat) ∧ asBytes (c :: t) = b :: (high ++ t.asBytes) := by
  by_cases hc : c.toNat < 128
  · exact Or.inl ⟨hc, asBytes_cons_ascii hc t⟩
  · right
    have hge : 128 ≤ c.toNat := Nat.not_lt.1 hc
    have hne : String.utf8EncodeChar c ≠ [] := by
      intro hnil
      have hlength := String.length_utf8EncodeChar c
      have hpos := c.utf8Size_pos
      rw [hnil, List.length_nil] at hlength
      omega
    obtain ⟨b, high, hbytes⟩ := List.exists_cons_of_ne_nil hne
    have hhigh : ∀ b' ∈ b :: high, 128 ≤ b'.toNat := fun b' hb' => utf8EncodeChar_high hge (hbytes ▸ hb')
    refine ⟨hge, b, high, hhigh b (by simp), fun b' hb' => hhigh b' (List.mem_cons_of_mem b hb'), ?_⟩
    rw [asBytes, List.flatMap_cons, hbytes]
    rfl

/-- The bytes of a text are those of its parts. -/
theorem asBytes_append (s t : Text) : asBytes (s ++ t) = s.asBytes ++ t.asBytes := List.flatMap_append

/-- The texts that consist of ASCII characters. -/
def Ascii (t : Text) : Prop := ∀ c ∈ t, c.toNat < 128

/-! ## The needle -/

/-- A needle is not found in less bytes than it has. -/
theorem findNeedle_of_short {needle bytes : List UInt8} (h : bytes.length < needle.length) : findNeedle needle bytes = none := by
  cases bytes with
  | nil => exact if_pos h
  | cons b bytes => exact if_pos h

/-- The needle is looked for at the first byte and then from the next one on. -/
theorem findNeedle_cons (needle : List UInt8) (b : UInt8) (bytes : List UInt8) :
    findNeedle needle (b :: bytes) =
      if needle <+: b :: bytes then some ((b :: bytes).drop needle.length) else findNeedle needle bytes := by
  rw [findNeedle]
  by_cases hshort : (b :: bytes).length < needle.length
  · have hno : ¬needle <+: b :: bytes := fun h => absurd h.length_le (by omega)
    rw [if_pos hshort, if_neg hno, findNeedle_of_short (by rw [List.length_cons] at hshort; omega)]
  · rw [if_neg hshort]
    congr 1
    rw [eq_iff_iff, List.prefix_iff_eq_take]
    exact eq_comm

/-- The text after the first occurrence of the needle. -/
def search (needle : Text) : Text → Option Text
  | [] => none
  | c :: t => if needle <+: c :: t then some ((c :: t).drop needle.length) else search needle t

/-- An ASCII text begins another one exactly if its bytes begin the bytes of the other. -/
theorem prefix_asBytes_iff {n t : Text} (hn : Ascii n) : n.asBytes <+: t.asBytes ↔ n <+: t := by
  induction n generalizing t with
  | nil => simp [asBytes]
  | cons c n ih =>
    have hc : c.toNat < 128 := hn c (by simp)
    have hbytes : asBytes (c :: n) = c.toUInt8 :: asBytes n := asBytes_cons_ascii hc n
    cases t with
    | nil => simp [asBytes]
    | cons d t =>
      obtain ⟨hd, hd'⟩ | ⟨hd, b, high, hb, -, hd'⟩ := asBytes_cons_cases d t
      · rw [hbytes, hd', List.cons_prefix_cons, List.cons_prefix_cons, toUInt8_inj hc hd,
          ih fun c' hc' => hn c' (List.mem_cons_of_mem c hc')]
      · have hne : c.toUInt8 ≠ b := by
          intro heq
          rw [← heq, toNat_toUInt8 hc] at hb
          omega
        have hne' : c ≠ d := by
          rintro rfl
          omega
        rw [hbytes, hd', List.cons_prefix_cons, List.cons_prefix_cons]
        simp [hne, hne']

/-- Bytes above ASCII are no place for the needle to start. -/
theorem findNeedle_high {b : UInt8} {needle high bytes : List UInt8} (hb : b.toNat < 128) (hhigh : ∀ b' ∈ high, 128 ≤ b'.toNat) :
    findNeedle (b :: needle) (high ++ bytes) = findNeedle (b :: needle) bytes := by
  induction high with
  | nil => rfl
  | cons b' high ih =>
    have hne : ¬b :: needle <+: b' :: (high ++ bytes) := by
      rw [List.cons_prefix_cons]
      rintro ⟨rfl, -⟩
      have := hhigh b (by simp)
      omega
    rw [List.cons_append, findNeedle_cons, if_neg hne, ih fun b'' hb'' => hhigh b'' (List.mem_cons_of_mem b' hb'')]

/-- A needle of ASCII characters is found among the bytes of a text where it is found in the text. -/
theorem findNeedle_asBytes {c : Char} {n : Text} (hn : Ascii (c :: n)) (t : Text) :
    findNeedle (asBytes (c :: n)) t.asBytes = (search (c :: n) t).map asBytes := by
  have hc : c.toNat < 128 := hn c (by simp)
  have hneedle : asBytes (c :: n) = c.toUInt8 :: asBytes n := asBytes_cons_ascii hc n
  induction t with
  | nil => exact findNeedle_of_short (by rw [hneedle]; exact Nat.succ_pos _)
  | cons d t ih =>
    rw [search]
    by_cases hpre : c :: n <+: d :: t
    · obtain ⟨rest, hrest⟩ := hpre
      have hbytes : asBytes (c :: n) <+: asBytes (d :: t) := (prefix_asBytes_iff hn).2 ⟨rest, hrest⟩
      rw [if_pos ⟨rest, hrest⟩, Option.map_some, ← hrest, List.drop_left]
      obtain ⟨b, bytes, hcons⟩ : ∃ b bytes, asBytes (d :: t) = b :: bytes := by
        rw [← hrest, asBytes_append, hneedle]
        exact ⟨_, _, rfl⟩
      rw [hcons] at hbytes
      rw [hrest, hcons, findNeedle_cons, if_pos hbytes, ← hcons, ← hrest, asBytes_append, List.drop_left]
    · have hbytes : ¬asBytes (c :: n) <+: asBytes (d :: t) := fun h => hpre ((prefix_asBytes_iff hn).1 h)
      rw [if_neg hpre, ← ih]
      obtain ⟨-, hd⟩ | ⟨-, b, high, hb, hhigh, hd⟩ := asBytes_cons_cases d t
      · rw [hd] at hbytes ⊢
        rw [findNeedle_cons, if_neg hbytes]
      · rw [hd] at hbytes ⊢
        rw [findNeedle_cons, if_neg hbytes, hneedle, findNeedle_high (by rw [toNat_toUInt8 hc]; exact hc) hhigh]

/-- What comes after the needle is an end of the text. -/
theorem search_suffix {needle t u : Text} (h : search needle t = some u) : u <:+ t := by
  induction t with
  | nil => cases h
  | cons c t ih =>
    rw [search] at h
    split at h
    · obtain rfl := Option.some.inj h
      exact List.drop_suffix _ _
    · exact (ih h).trans (List.suffix_cons c t)

/-! ## From the needle to the value -/

/-- ASCII whitespace. -/
def isAsciiSpace (c : Char) : Bool := c = ' ' || c = '\t' || c = '\n' || c = '\x0C' || c = '\r'

/-- The blanks are control characters and the space. -/
theorem isAsciiSpace_le {c : Char} (h : isAsciiSpace c = true) : c.toNat ≤ 0x20 := by
  simp only [isAsciiSpace, Bool.or_eq_true, decide_eq_true_eq] at h
  rcases h with (((rfl | rfl) | rfl) | rfl) | rfl <;> decide

/-- A byte of ASCII is a blank if its character is one. -/
theorem isAsciiWhitespace_toUInt8 {c : Char} (h : c.toNat < 128) : isAsciiWhitespace c.toUInt8 = isAsciiSpace c := by
  have hiff : ∀ d : Char, d.toNat < 128 → (c.toUInt8 = d.toUInt8 ↔ c = d) := fun d hd => toUInt8_inj h hd
  have h₁ := hiff ' ' (by decide)
  have h₂ := hiff '\t' (by decide)
  have h₃ := hiff '\n' (by decide)
  have h₄ := hiff '\x0C' (by decide)
  have h₅ := hiff '\r' (by decide)
  simp only [isAsciiWhitespace, isAsciiSpace, ← h₁, ← h₂, ← h₃, ← h₄, ← h₅]
  rfl

/-- Blanks are skipped in the bytes as in the text. -/
theorem dropWhile_asBytes (t : Text) : t.asBytes.dropWhile isAsciiWhitespace = asBytes (t.dropWhile isAsciiSpace) := by
  induction t with
  | nil => rfl
  | cons c t ih =>
    obtain ⟨hc, hbytes⟩ | ⟨hc, b, high, hb, -, hbytes⟩ := asBytes_cons_cases c t
    · rw [hbytes, List.dropWhile_cons, isAsciiWhitespace_toUInt8 hc, List.dropWhile_cons]
      split
      · exact ih
      · exact hbytes.symm
    · have hspace : ¬isAsciiSpace c = true := fun h => absurd (isAsciiSpace_le h) (by omega)
      have hspace' : ¬isAsciiWhitespace b = true := by
        intro h
        simp only [isAsciiWhitespace, Bool.or_eq_true, decide_eq_true_eq] at h
        rcases h with (((rfl | rfl) | rfl) | rfl) | rfl <;> exact absurd hb (by decide)
      rw [hbytes, List.dropWhile_cons_of_neg hspace', List.dropWhile_cons_of_neg hspace, hbytes]

/-- The text after this character, if it is the next. -/
def expectChar (c : Char) : Text → Option Text
  | [] => none
  | c' :: t => if c' = c then some t else none

/-- A byte of ASCII is expected of the bytes as its character is of the text. -/
theorem expectByte_asBytes {c : Char} (hc : c.toNat < 128) (t : Text) :
    expectByte c.toUInt8 t.asBytes = (expectChar c t).map asBytes := by
  cases t with
  | nil => rfl
  | cons d t =>
    rw [expectChar]
    obtain ⟨hd, hbytes⟩ | ⟨hd, b, high, hb, -, hbytes⟩ := asBytes_cons_cases d t
    · rw [hbytes, expectByte]
      by_cases hdc : d = c
      · rw [if_pos ((toUInt8_inj hd hc).2 hdc), if_pos hdc]
        rfl
      · rw [if_neg (mt (toUInt8_inj hd hc).1 hdc), if_neg hdc]
        rfl
    · have hne : d ≠ c := by
        rintro rfl
        omega
      have hne' : b ≠ c.toUInt8 := by
        rintro rfl
        rw [toNat_toUInt8 hc] at hb
        omega
      rw [hbytes, expectByte, if_neg hne', if_neg hne]
      rfl

/-- An expected character is the first one. -/
theorem expectChar_eq_some {c : Char} {t u : Text} (h : expectChar c t = some u) : t = c :: u := by
  cases t with
  | nil => cases h
  | cons d t =>
    rw [expectChar] at h
    split at h
    · rename_i hd
      rw [hd, Option.some.inj h]
    · cases h

/-- The text up to the closing quote. -/
def scanString : Text → Option Text
  | [] => none
  | [c] => if c = '"' then some [] else none
  | c :: d :: t =>
    if c = '\\' then (scanString t).map fun body => c :: d :: body
    else if c = '"' then some []
    else (scanString (d :: t)).map fun body => c :: body

/-- A character of a string that is neither a quote nor a backslash is read as it is. -/
theorem scanString_cons {c : Char} (hquote : c ≠ '"') (hescape : c ≠ '\\') (t : Text) :
    scanString (c :: t) = (scanString t).map fun body => c :: body := by
  cases t with
  | nil => exact if_neg hquote
  | cons d t => rw [scanString, if_neg hescape, if_neg hquote]

/-- A quote ends the string. -/
theorem scanString_quote (t : Text) : scanString ('"' :: t) = some [] := by
  cases t with
  | nil => rfl
  | cons d t => rw [scanString, if_neg (by decide), if_pos rfl]

/-- A backslash takes the next character with it, whatever it is. -/
theorem scanString_escape (d : Char) (t : Text) : scanString ('\\' :: d :: t) = (scanString t).map fun body => '\\' :: d :: body := by
  rw [scanString, if_pos rfl]

/-- The text splits at the closing quote. -/
theorem scanString_eq_some {t body : Text} (h : scanString t = some body) : ∃ rest, t = body ++ '"' :: rest := by
  fun_induction scanString t generalizing body with
  | case1 => cases h
  | case2 =>
    obtain rfl := Option.some.inj h
    exact ⟨[], rfl⟩
  | case3 => cases h
  | case4 d t ih =>
    obtain ⟨body', hbody, rfl⟩ := Option.map_eq_some_iff.1 h
    obtain ⟨rest, rfl⟩ := ih hbody
    exact ⟨rest, rfl⟩
  | case5 d t _ =>
    obtain rfl := Option.some.inj h
    exact ⟨d :: t, rfl⟩
  | case6 c d t _ _ ih =>
    obtain ⟨body', hbody, rfl⟩ := Option.map_eq_some_iff.1 h
    obtain ⟨rest, hrest⟩ := ih hbody
    exact ⟨rest, by rw [hrest]; rfl⟩

/-- A byte that is neither a quote nor a backslash does not end the string. -/
theorem closingQuote_cons {b : UInt8} (hquote : b ≠ '"'.toUInt8) (hescape : b ≠ '\\'.toUInt8) (bytes : List UInt8) :
    closingQuote (b :: bytes) = closingQuote bytes := by
  cases bytes with
  | nil => exact if_neg hquote
  | cons b' bytes => rw [closingQuote, if_neg hescape, if_neg hquote]

/-- Bytes outside ASCII do not end the string. -/
theorem closingQuote_high {high bytes : List UInt8} (hhigh : ∀ b ∈ high, 128 ≤ b.toNat) :
    closingQuote (high ++ bytes) = closingQuote bytes := by
  induction high with
  | nil => rfl
  | cons b high ih =>
    have hb : 128 ≤ b.toNat := hhigh b (by simp)
    have hquote : b ≠ '"'.toUInt8 := by
      rintro rfl
      exact absurd hb (by decide)
    have hescape : b ≠ '\\'.toUInt8 := by
      rintro rfl
      exact absurd hb (by decide)
    rw [List.cons_append, closingQuote_cons hquote hescape, ih fun b' hb' => hhigh b' (List.mem_cons_of_mem b hb')]

/-- Both scans stop at the same place. The escaped byte may be the first of a character; the rest of it is passed over. -/
theorem closingQuote_asBytes (t : Text) :
    closingQuote t.asBytes = (scanString t).map fun body => asBytes (t.drop body.length) := by
  fun_induction scanString t with
  | case1 => rfl
  | case2 => rfl
  | case3 c hc =>
    obtain ⟨hascii, hbytes⟩ | ⟨-, b, high, hb, hhigh, hbytes⟩ := asBytes_cons_cases c []
    · have hne : c.toUInt8 ≠ '"'.toUInt8 := mt (toUInt8_inj hascii quote_ascii).1 hc
      rw [hbytes]
      exact if_neg hne
    · have hall : ∀ b' ∈ b :: high, 128 ≤ b'.toNat := List.forall_mem_cons.2 ⟨hb, hhigh⟩
      rw [hbytes, ← List.cons_append, closingQuote_high hall]
      rfl
  | case4 d t ih =>
    rw [asBytes_cons_ascii backslash_ascii]
    have hskip : closingQuote ('\\'.toUInt8 :: asBytes (d :: t)) = closingQuote (asBytes t) := by
      obtain ⟨-, hbytes⟩ | ⟨-, b, high, -, hhigh, hbytes⟩ := asBytes_cons_cases d t
      · rw [hbytes, closingQuote, if_pos rfl]
      · rw [hbytes, closingQuote, if_pos rfl, closingQuote_high hhigh]
    rw [hskip, ih, Option.map_map]
    rfl
  | case5 d t _ =>
    rw [asBytes_cons_ascii quote_ascii]
    cases hbytes : asBytes (d :: t) with
    | nil =>
      obtain ⟨-, hcons⟩ | ⟨-, b, high, -, -, hcons⟩ := asBytes_cons_cases d t
      · rw [hbytes] at hcons
        cases hcons
      · rw [hbytes] at hcons
        cases hcons
    | cons b bytes =>
      rw [closingQuote, if_neg (by decide), if_pos rfl, Option.map_some, List.length_nil, List.drop_zero,
        asBytes_cons_ascii quote_ascii, hbytes]
  | case6 c d t hescape hquote ih =>
    have hpass : closingQuote (asBytes (c :: d :: t)) = closingQuote (asBytes (d :: t)) := by
      obtain ⟨hascii, hbytes⟩ | ⟨-, b, high, hb, hhigh, hbytes⟩ := asBytes_cons_cases c (d :: t)
      · have hquote' : c.toUInt8 ≠ '"'.toUInt8 := mt (toUInt8_inj hascii quote_ascii).1 hquote
        have hescape' : c.toUInt8 ≠ '\\'.toUInt8 := mt (toUInt8_inj hascii backslash_ascii).1 hescape
        rw [hbytes, closingQuote_cons hquote' hescape']
      · have hall : ∀ b' ∈ b :: high, 128 ≤ b'.toNat := List.forall_mem_cons.2 ⟨hb, hhigh⟩
        rw [hbytes, ← List.cons_append, closingQuote_high hall]
    rw [hpass, ih, Option.map_map]
    rfl

/-! ## The scanner -/

/-- `json_string_field` on characters. -/
def scanField (src key : Text) : Option Text := do
  let start ← search ('"' :: (key ++ ['"'])) src
  let j ← expectChar ':' (start.dropWhile isAsciiSpace)
  let value ← expectChar '"' (j.dropWhile isAsciiSpace)
  scanString value

/-- The scanner of bytes gives what the scanner of characters does, if the key with its quotes fits in its buffer of 64 bytes. -/
theorem jsonStringField_eq {key : Text} (hkey : Ascii key) (hlen : key.len + 2 ≤ 64) (src : Text) :
    jsonStringField src key = scanField src key := by
  have hneedle : '"'.toUInt8 :: key.asBytes ++ ['"'.toUInt8] = asBytes ('"' :: (key ++ ['"'])) := by
    rw [asBytes_cons_ascii quote_ascii, asBytes_append]
    rfl
  have hascii : Ascii ('"' :: (key ++ ['"'])) := by
    intro c hc
    simp only [List.mem_cons, List.mem_append, List.not_mem_nil, or_false] at hc
    rcases hc with rfl | hc | rfl
    · exact quote_ascii
    · exact hkey c hc
    · exact quote_ascii
  have hshort : ¬(asBytes ('"' :: (key ++ ['"']))).length > 64 := by
    have hlength : (asBytes ('"' :: (key ++ ['"']))).length = key.len + 2 := by
      rw [← hneedle]
      simp [len]
    omega
  simp only [jsonStringField, hneedle, if_neg hshort, findNeedle_asBytes hascii, scanField]
  cases hstart : search ('"' :: (key ++ ['"'])) src with
  | none => rfl
  | some start =>
    simp only [Option.map_some, Option.bind_eq_bind, Option.bind_some, dropWhile_asBytes,
      expectByte_asBytes (show ':'.toNat < 128 by decide)]
    cases hj : expectChar ':' (start.dropWhile isAsciiSpace) with
    | none => rfl
    | some j =>
      simp only [Option.map_some, Option.bind_some, dropWhile_asBytes, expectByte_asBytes quote_ascii]
      cases hvalue : expectChar '"' (j.dropWhile isAsciiSpace) with
      | none => rfl
      | some value =>
        simp only [Option.map_some, Option.bind_some, closingQuote_asBytes]
        cases hbody : scanString value with
        | none => rfl
        | some body =>
          -- the value is a part of the source, so its two ends are ends of characters
          obtain ⟨rest, hrest⟩ := scanString_eq_some hbody
          have hsuffix : value <:+ src :=
            calc value <:+ j.dropWhile isAsciiSpace := by
                  rw [expectChar_eq_some hvalue]
                  exact List.suffix_cons _ _
              _ <:+ j := List.dropWhile_suffix _
              _ <:+ start.dropWhile isAsciiSpace := by
                  rw [expectChar_eq_some hj]
                  exact List.suffix_cons _ _
              _ <:+ start := List.dropWhile_suffix _
              _ <:+ src := search_suffix hstart
          obtain ⟨before, rfl⟩ := hsuffix
          rw [hrest]
          simp only [Option.map_some, Option.bind_some, List.drop_left]
          have hget := get_append before body ('"' :: rest)
          rw [List.append_assoc] at hget
          exact hget

/-! ## Requests -/

theorem okOr_eq_ok {α : Type} {o : Option α} {e : IpcError} {a : α} : okOr o e = .ok a ↔ o = some a := by
  cases o with
  | none => simp [okOr]
  | some b => simp [okOr]

/-- A tier is read from the name it is written with, and from no other text. -/
theorem fromWire_eq_some_iff {s : Text} {tier : PermissionTier} : PermissionTier.fromWire s = some tier ↔ s = tier.asWire := by
  constructor
  · intro h
    unfold PermissionTier.fromWire at h
    split at h
    · rename_i hs
      cases h
      exact hs
    split at h
    · rename_i hs
      cases h
      exact hs
    split at h
    · rename_i hs
      cases h
      exact hs
    · cases h
  · rintro rfl
    cases tier <;> decide

/-- A copy replaces the bytes from its position on and leaves the others. -/
theorem toList_copyFromSlice {n : Nat} (buf : Vector UInt8 n) {pos : Nat} {bytes : List UInt8} (h : pos + bytes.length ≤ n) :
    (copyFromSlice buf pos bytes).toList = buf.toList.take pos ++ bytes ++ buf.toList.drop (pos + bytes.length) := by
  unfold copyFromSlice
  apply List.ext_getElem
  · simp
    omega
  intro i hi hi'
  have hin : i < n := by simpa using hi
  rw [Vector.getElem_toList, Vector.getElem_ofFn]
  by_cases hpos : pos ≤ i
  · rw [if_pos hpos]
    by_cases hbytes : i - pos < bytes.length
    · rw [List.getElem_append_left (by simp; omega), List.getElem_append_right (by simp; omega), List.getElem?_eq_getElem hbytes]
      simp [Nat.min_eq_left (show pos ≤ n by omega)]
    · rw [List.getElem_append_right (by simp; omega), List.getElem?_eq_none (show bytes.length ≤ i - pos by omega)]
      simp [Vector.get, Nat.min_eq_left (show pos ≤ n by omega), show pos + bytes.length + (i - (pos + bytes.length)) = i by omega]
  · rw [if_neg hpos, List.getElem_append_left (by simp; omega), List.getElem_append_left (by simp; omega)]
    simp [Vector.get]

/-- A text copied to the start of a buffer is read back from it. -/
theorem inlineText_copyFromSlice {n : Nat} (buf : Vector UInt8 n) {s : Text} (h : s.len ≤ n) :
    inlineText (copyFromSlice buf 0 s.asBytes) s.len = s := by
  have hfits : 0 + s.asBytes.length ≤ n := by rwa [Nat.zero_add]
  rw [inlineText, toList_copyFromSlice buf hfits, List.take_zero, List.nil_append, len, List.take_left, fromUtf8_asBytes]
  rfl

/-- A request has the agent id that it was made with. -/
theorem agentId_registerRequest {s : Text} (tier : PermissionTier) (h : s.len ≤ maxAgentId) : (registerRequest s tier h).agentId = s :=
  inlineText_copyFromSlice _ h

/-- Two fallible steps succeed exactly if each of them does. -/
theorem bind_eq_ok_iff {α β : Type} {x : Except IpcError α} {f : α → Except IpcError β} {b : β} :
    x >>= f = .ok b ↔ ∃ a, x = .ok a ∧ f a = .ok b := by
  cases x with
  | error e =>
    constructor
    · intro h
      cases h
    · rintro ⟨_, h, -⟩
      cases h
  | ok a =>
    constructor
    · intro h
      exact ⟨a, rfl, h⟩
    · rintro ⟨_, ha, h⟩
      cases ha
      exact h

/-- What is accepted. -/
theorem parseRegisterRequest_eq_ok_iff {raw : List UInt8} {req : RegisterRequest} :
    parseRegisterRequest raw = .ok req ↔
      ∃ src agentId tier, ∃ h : agentId.len ≤ maxAgentId, fromUtf8 raw = some src ∧
        jsonStringField src "method".toList = some "register".toList ∧ jsonStringField src "agent_id".toList = some agentId ∧
        jsonStringField src "permission_tier".toList = some (PermissionTier.asWire tier) ∧ req = registerRequest agentId tier h := by
  simp only [parseRegisterRequest, bind_eq_ok_iff, okOr_eq_ok]
  constructor
  · rintro ⟨src, hsrc, method, hmethod, hreq⟩
    split at hreq
    · cases hreq
    rename_i hregister
    rw [not_not.1 hregister] at hmethod
    obtain ⟨agentId, hagentId, hreq⟩ := bind_eq_ok_iff.1 hreq
    split at hreq
    · cases hreq
    rename_i hlen
    obtain ⟨tierStr, htierStr, hreq⟩ := bind_eq_ok_iff.1 hreq
    obtain ⟨tier, htier, hreq⟩ := bind_eq_ok_iff.1 hreq
    rw [okOr_eq_ok] at hagentId htierStr htier
    rw [fromWire_eq_some_iff.1 htier] at htierStr
    exact ⟨src, agentId, tier, Nat.not_lt.1 hlen, hsrc, hmethod, hagentId, htierStr, (Except.ok.inj hreq).symm⟩
  · rintro ⟨src, agentId, tier, hlen, hsrc, hmethod, hagentId, htier, rfl⟩
    refine ⟨src, hsrc, _, hmethod, ?_⟩
    rw [if_neg (not_not.2 rfl), bind_eq_ok_iff]
    refine ⟨agentId, okOr_eq_ok.2 hagentId, ?_⟩
    rw [dif_neg (Nat.not_lt.2 hlen), bind_eq_ok_iff]
    refine ⟨_, okOr_eq_ok.2 htier, ?_⟩
    rw [bind_eq_ok_iff]
    exact ⟨tier, okOr_eq_ok.2 (fromWire_eq_some_iff.2 rfl), rfl⟩

end Ipc

end Sentinel

end GolemKernel
