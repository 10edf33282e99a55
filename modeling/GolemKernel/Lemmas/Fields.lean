import GolemKernel.Lemmas.Ipc

/-!
# The scanner on the tokens of a JSON text

In a JSON text the needle `"key"` can stand only at the end of a string: it is the whole string with its quotes, or what follows an
escaped quote in it. So the scanner goes through the strings of the text, keys and values alike, up to the first that ends so, and then
expects a colon and a string.
-/

namespace GolemKernel

namespace Sentinel

namespace Ipc

open Text Json

/-- The keys the scanner is called with: names of a few letters and underscores. -/
structure Name (key : Text) : Prop where
  ne_nil : key ≠ []
  letter : ∀ c ∈ key, c.isAlpha = true ∨ c = '_'
  short : key.len + 2 ≤ 64

/-- The string ends in the quoted key, when it is written with its quotes. -/
def EndsIn (key : Text) (s : Str) : Prop := '"' :: key <:+ '"' :: s.text

instance (key : Text) (s : Str) : Decidable (EndsIn key s) := inferInstanceAs (Decidable ('"' :: key <:+ '"' :: s.text))

/-! ## In a string -/

/-- The key with its quotes. -/
abbrev needleOf (key : Text) : Text := '"' :: (key ++ ['"'])

section Needle

variable {key : Text}

/-- Without a quote there is no key. -/
theorem search_of_quote_notMem {l : Text} (hl : '"' ∉ l) (t : Text) :
    search (needleOf key) (l ++ t) = search (needleOf key) t := by
  induction l with
  | nil => rfl
  | cons c l ih =>
    obtain ⟨hc, hl'⟩ := not_or.1 (mt List.mem_cons.2 hl)
    have hno : ¬needleOf key <+: c :: (l ++ t) := by
      intro h
      exact hc (List.cons_prefix_cons.1 h).1
    rw [List.cons_append, search, if_neg hno, ih hl']

/-- Nor does a text without quotes matter to what the key ends. -/
theorem suffix_append_iff {l : Text} (hl : '"' ∉ l) (t : Text) : '"' :: key <:+ l ++ t ↔ '"' :: key <:+ t := by
  induction l with
  | nil => rfl
  | cons c l ih =>
    obtain ⟨hc, hl'⟩ := not_or.1 (mt List.mem_cons.2 hl)
    rw [List.cons_append, List.suffix_cons_iff, ih hl']
    refine ⟨fun h => h.resolve_left ?_, Or.inr⟩
    intro heq
    exact hc (List.cons.inj heq).1

/-- Neither quotes nor escapes. -/
theorem Name.notMem (hkey : Name key) : '"' ∉ key ∧ '\\' ∉ key := by
  constructor <;> intro h
  · exact absurd (hkey.letter _ h) (by decide)
  · exact absurd (hkey.letter _ h) (by decide)

/-- The key and a quote are at the start of the rest of a string exactly when the key is the rest of the string. -/
theorem key_prefix_iff (hquote : '"' ∉ key) (hescape : '\\' ∉ key) (s : Str) (rest : Text) :
    key ++ ['"'] <+: s.text ++ '"' :: rest ↔ key = s.text := by
  constructor
  · intro h
    induction s generalizing key with
    | nil =>
      cases key with
      | nil => rfl
      | cons c key =>
        obtain ⟨rfl, -⟩ := List.cons_prefix_cons.1 h
        exact absurd List.mem_cons_self hquote
    | cons p s ih =>
      cases p with
      | unescaped c hc =>
        cases key with
        | nil => exact absurd (List.cons_prefix_cons.1 h).1.symm hc.2.1
        | cons d key =>
          obtain ⟨rfl, h'⟩ := List.cons_prefix_cons.1 h
          rw [ih (fun hm => hquote (List.mem_cons_of_mem _ hm)) (fun hm => hescape (List.mem_cons_of_mem _ hm)) h']
          rfl
      | escape e =>
        cases key with
        | nil => exact absurd (List.cons_prefix_cons.1 h).1 (by decide)
        | cons d key =>
          obtain ⟨rfl, -⟩ := List.cons_prefix_cons.1 h
          exact absurd List.mem_cons_self hescape
      | unicode d₃ d₂ d₁ d₀ =>
        cases key with
        | nil => exact absurd (List.cons_prefix_cons.1 h).1 (by decide)
        | cons d key =>
          obtain ⟨rfl, -⟩ := List.cons_prefix_cons.1 h
          exact absurd List.mem_cons_self hescape
  · rintro rfl
    exact ⟨rest, by simp⟩

/-- The needle from a quote on. -/
theorem search_quote (hkey : Name key) (s : Str) (rest : Text) :
    search (needleOf key) ('"' :: (s.text ++ '"' :: rest)) =
      if key = s.text then some rest else search (needleOf key) (s.text ++ '"' :: rest) := by
  obtain ⟨hquote, hescape⟩ := hkey.notMem
  have hiff : '"' :: (key ++ ['"']) <+: '"' :: (s.text ++ '"' :: rest) ↔ key = s.text := by
    rw [List.cons_prefix_cons, key_prefix_iff hquote hescape]
    exact and_iff_right rfl
  rw [search]
  by_cases heq : key = s.text
  · rw [if_pos (hiff.2 heq), if_pos heq, heq]
    simp
  · rw [if_neg (mt hiff.1 heq), if_neg heq]

/-- In a string, the key is found at the end of it or not at all. -/
theorem search_text (hkey : Name key) (s : Str) (rest : Text) :
    search (needleOf key) (s.text ++ '"' :: rest) =
      if '"' :: key <:+ s.text then some rest else search (needleOf key) ('"' :: rest) := by
  induction s with
  | nil => simp
  | cons p s ih =>
    rw [Str.text_cons, List.append_assoc]
    rcases p.quote_notMem with hp | rfl
    · rw [search_of_quote_notMem hp, ih]
      simp only [suffix_append_iff hp]
    · -- the quote of an escape
      have hback : '"' ∉ ['\\'] := by decide
      have htext : Piece.text (.escape .quotationMark) ++ (Str.text s ++ '"' :: rest) = ['\\'] ++ '"' :: (Str.text s ++ '"' :: rest) := rfl
      have hsuffix : '"' :: key <:+ Piece.text (.escape .quotationMark) ++ Str.text s ↔ key = Str.text s ∨ '"' :: key <:+ Str.text s := by
        have hsplit : Piece.text (.escape .quotationMark) ++ Str.text s = ['\\'] ++ '"' :: Str.text s := rfl
        rw [hsplit, suffix_append_iff hback, List.suffix_cons_iff, List.cons_inj_right]
      rw [htext, search_of_quote_notMem hback, search_quote hkey, ih]
      by_cases heq : key = Str.text s
      · rw [if_pos heq, if_pos (hsuffix.2 (Or.inl heq))]
      · rw [if_neg heq]
        by_cases hends : '"' :: key <:+ Str.text s
        · rw [if_pos hends, if_pos (hsuffix.2 (Or.inr hends))]
        · rw [if_neg hends, if_neg fun h => (hsuffix.1 h).elim heq hends]

/-- The needle from the opening quote of a string on. -/
theorem search_string (hkey : Name key) (s : Str) {rest : Text} (hrest : ¬key ++ ['"'] <+: rest) :
    search (needleOf key) ('"' :: s.text ++ ['"'] ++ rest) =
      if EndsIn key s then some rest else search (needleOf key) rest := by
  have hclose : search (needleOf key) ('"' :: rest) = search (needleOf key) rest := by
    rw [search, if_neg fun h => hrest (List.cons_prefix_cons.1 h).2]
  have hends : EndsIn key s ↔ key = s.text ∨ '"' :: key <:+ s.text := by
    rw [EndsIn, List.suffix_cons_iff, List.cons_inj_right]
  have htext : '"' :: s.text ++ ['"'] ++ rest = '"' :: (s.text ++ '"' :: rest) := by simp
  rw [htext, search_quote hkey, search_text hkey, hclose]
  by_cases heq : key = s.text
  · rw [if_pos heq, if_pos (hends.2 (Or.inl heq))]
  · rw [if_neg heq]
    by_cases hsuffix : '"' :: key <:+ s.text
    · rw [if_pos hsuffix, if_pos (hends.2 (Or.inr hsuffix))]
    · rw [if_neg hsuffix, if_neg fun h => (hends.1 h).elim heq hsuffix]

end Needle

/-! ## In a text -/

def Token.isString : Token → Bool
  | .string _ => true
  | _ => false

def Token.isStructural : Token → Bool
  | .beginArray | .beginObject | .endArray | .endObject | .nameSeparator | .valueSeparator => true
  | _ => false

/-- After a string comes a structural character. -/
def Separated (ts : List Token) : Prop := ts.IsChain fun t u => Token.isString t = true → Token.isStructural u = true

/-- The tokens after the first string that ends in the key. -/
def after (key : Text) : List Token → Option (List Token)
  | [] => none
  | .string s :: ts => if EndsIn key s then some ts else after key ts
  | _ :: ts => after key ts

/-- Tokens other than strings are passed over. -/
theorem after_cons {key : Text} {t : Token} (ht : ∀ s, t ≠ .string s) (ts : List Token) : after key (t :: ts) = after key ts := by
  cases t with
  | string s => exact absurd rfl (ht s)
  | _ => rfl

theorem after_beginObject (key : Text) (ts : List Token) : after key (.beginObject :: ts) = after key ts := rfl

theorem after_nameSeparator (key : Text) (ts : List Token) : after key (.nameSeparator :: ts) = after key ts := rfl

theorem after_valueSeparator (key : Text) (ts : List Token) : after key (.valueSeparator :: ts) = after key ts := rfl

theorem after_number (key : Text) (n : Number) (ts : List Token) : after key (.number n :: ts) = after key ts := rfl

/-- The string that follows a colon. -/
def namedString : List Token → Option Text
  | .nameSeparator :: .string s :: _ => some s.text
  | _ => none

section Tokens

variable {key src : Text} {t : Token} {ts : List Token}

/-- Punctuation does not begin with a letter. -/
theorem isStructural_startsWith {c : Char} (ht : Token.isStructural t = true) (hc : t.StartsWith c) : ¬(c.isAlpha = true ∨ c = '_') := by
  cases t with
  | null => cases ht
  | bool b => cases ht
  | number n => cases ht
  | string s => cases ht
  | _ => obtain rfl := hc; decide

/-- What is written after a string does not continue with the key. -/
theorem Name.not_prefix (hkey : Name key) (hspelled : Spelled isAsciiSpace ts src) (hhead : ∀ t ∈ ts.head?, Token.isStructural t = true) :
    ¬key ++ ['"'] <+: src := by
  obtain ⟨c, key', rfl⟩ := List.exists_cons_of_ne_nil hkey.ne_nil
  have hletter : c.isAlpha = true ∨ c = '_' := hkey.letter c List.mem_cons_self
  have hspace : isAsciiSpace c = false := by
    by_contra hc
    have hle := isAsciiSpace_le (by simpa using hc)
    rcases hletter with hletter | rfl
    · have hge : 'A'.toNat ≤ c.toNat := by
        simp only [Char.isAlpha, Char.isUpper, Char.isLower, Bool.or_eq_true, Bool.and_eq_true, decide_eq_true_eq] at hletter
        rcases hletter with h | h
        · exact h.1
        · exact Nat.le_trans (by decide) h.1
      have : 'A'.toNat = 65 := rfl
      omega
    · exact absurd hle (by decide)
  intro hprefix
  cases hspelled with
  | nil _ hws =>
    have hmem : c ∈ src := hprefix.subset (by simp)
    rw [hws c hmem] at hspace
    cases hspace
  | cons ws t hws hrest =>
    cases ws with
    | nil =>
      obtain ⟨d, text, htext, hstart⟩ := t.exists_text_eq
      rw [List.nil_append, htext] at hprefix
      obtain ⟨rfl, -⟩ := List.cons_prefix_cons.1 hprefix
      exact isStructural_startsWith (hhead t rfl) hstart hletter
    | cons d ws =>
      obtain ⟨rfl, -⟩ := List.cons_prefix_cons.1 hprefix
      rw [hws c List.mem_cons_self] at hspace
      cases hspace

/-- The search goes from string to string. -/
theorem search_spelled (hkey : Name key) (hspelled : Spelled isAsciiSpace ts src) (hsep : Separated ts) :
    (after key ts = none ∧ search (needleOf key) src = none) ∨
      ∃ ts' rest, after key ts = some ts' ∧ search (needleOf key) src = some rest ∧ Spelled isAsciiSpace ts' rest := by
  have hblank : ∀ ws : Text, (∀ c ∈ ws, isAsciiSpace c = true) → '"' ∉ ws := fun ws hws hmem => absurd (hws _ hmem) (by decide)
  induction hspelled with
  | nil ws hws =>
    left
    have hnone : search (needleOf key) ws = search (needleOf key) [] := by
      simpa using search_of_quote_notMem (hblank ws hws) []
    exact ⟨rfl, hnone⟩
  | @cons ws t ts text hws hrest ih =>
    have htail := ih hsep.tail
    rw [List.append_assoc, search_of_quote_notMem (hblank ws hws)]
    by_cases hstring : ∃ s, t = .string s
    · obtain ⟨s, rfl⟩ := hstring
      have hhead : ∀ u ∈ ts.head?, Token.isStructural u = true := fun u hu => (List.isChain_cons.1 hsep).1 u hu rfl
      rw [Token.text, search_string hkey s (hkey.not_prefix hrest hhead), after]
      by_cases hends : EndsIn key s
      · rw [if_pos hends, if_pos hends]
        exact Or.inr ⟨ts, text, rfl, rfl, hrest⟩
      · rw [if_neg hends, if_neg hends]
        exact htail
    · have hnot : ∀ s, t ≠ .string s := fun s hs => hstring ⟨s, hs⟩
      rw [search_of_quote_notMem (Token.quote_notMem hnot), after_cons hnot]
      exact htail

/-- A string is read up to its closing quote. -/
theorem scanString_text (s : Str) (rest : Text) : scanString (s.text ++ '"' :: rest) = some s.text := by
  have hhex : ∀ d : { c : Char // HexDigit c }, d.val ≠ '"' ∧ d.val ≠ '\\' := by
    intro d
    constructor <;> intro hd <;> exact absurd (hd ▸ d.property) (by decide)
  induction s with
  | nil => exact scanString_quote rest
  | cons p s ih =>
    cases p with
    | unescaped c hc =>
      rw [Str.text_cons, Piece.text, List.singleton_append, List.cons_append, scanString_cons hc.2.1 hc.2.2, ih]
      rfl
    | escape e =>
      rw [Str.text_cons, Piece.text, List.append_assoc, List.cons_append, List.cons_append, List.nil_append, scanString_escape, ih]
      rfl
    | unicode d₃ d₂ d₁ d₀ =>
      rw [Str.text_cons, Piece.text, List.append_assoc]
      simp only [List.cons_append, List.nil_append, scanString_escape, scanString_cons (hhex _).1 (hhex _).2, ih, Option.map_some]

/-- The next token is told by the character it starts with. -/
theorem expectChar_spelled (c : Char) (hspelled : Spelled isAsciiSpace (t :: ts) src) :
    (∃ text rest, t.text = c :: text ∧ t.StartsWith c ∧ expectChar c (src.dropWhile isAsciiSpace) = some (text ++ rest) ∧
        Spelled isAsciiSpace ts rest) ∨
      (∀ text, t.text ≠ c :: text) ∧ expectChar c (src.dropWhile isAsciiSpace) = none := by
  obtain ⟨rest, hdrop, hrest⟩ := hspelled.dropWhile_cons fun c => isAsciiSpace_le
  obtain ⟨d, text, htext, hstart⟩ := t.exists_text_eq
  rw [hdrop, htext, List.cons_append, expectChar]
  by_cases hdc : d = c
  · subst hdc
    exact Or.inl ⟨text, rest, rfl, hstart, if_pos rfl, hrest⟩
  · refine Or.inr ⟨fun text' htext' => hdc ?_, if_neg hdc⟩
    exact (List.cons.inj htext').1

/-- In a blank text nothing that is expected is found. -/
theorem expectChar_nil (c : Char) (hspelled : Spelled isAsciiSpace [] src) : expectChar c (src.dropWhile isAsciiSpace) = none := by
  rw [hspelled.dropWhile_nil]
  rfl

/-- After the needle: a colon and a string, or nothing is read. -/
theorem scanValue_spelled (hspelled : Spelled isAsciiSpace ts src) :
    ((expectChar ':' (src.dropWhile isAsciiSpace)).bind fun j => (expectChar '"' (j.dropWhile isAsciiSpace)).bind scanString) =
      namedString ts := by
  cases ts with
  | nil => rw [expectChar_nil ':' hspelled]; rfl
  | cons t ts =>
    obtain ⟨text, rest, htext, hstart, hexpect, hrest⟩ | ⟨htext, hexpect⟩ := expectChar_spelled ':' hspelled
    · obtain rfl := hstart.eq_nameSeparator
      obtain rfl : text = [] := (List.cons.inj htext).2.symm
      rw [hexpect, Option.bind_some, List.nil_append]
      cases ts with
      | nil => rw [expectChar_nil '"' hrest]; rfl
      | cons u ts =>
        obtain ⟨text, rest', htext, hstart, hexpect, -⟩ | ⟨htext, hexpect⟩ := expectChar_spelled '"' hrest
        · obtain ⟨s, rfl⟩ := hstart.exists_string
          obtain rfl : text = s.text ++ ['"'] := (List.cons.inj htext).2.symm
          rw [hexpect, Option.bind_some, List.append_assoc, List.singleton_append, scanString_text]
          rfl
        · have hnot : ∀ s, u ≠ .string s := by
            rintro s rfl
            exact htext _ rfl
          rw [hexpect]
          cases u with
          | string s => exact absurd rfl (hnot s)
          | _ => rfl
    · have hnot : t ≠ .nameSeparator := by
        rintro rfl
        exact htext _ rfl
      rw [hexpect]
      cases t with
      | nameSeparator => exact absurd rfl hnot
      | _ => rfl

/-- The scanner finds the first string that ends in the key, and reads the string after the colon. -/
theorem scanField_spelled (hkey : Name key) (hspelled : Spelled isAsciiSpace ts src) (hsep : Separated ts) :
    scanField src key = (after key ts).bind namedString := by
  obtain ⟨hafter, hsearch⟩ | ⟨ts', rest, hafter, hsearch, hrest⟩ := search_spelled hkey hspelled hsep
  · rw [scanField, hafter, hsearch]
    rfl
  · rw [scanField, hafter, hsearch]
    exact scanValue_spelled hrest

/-- Names are ASCII. -/
theorem Name.ascii (hkey : Name key) : Ascii key := by
  intro c hc
  rcases hkey.letter c hc with hletter | rfl
  · simp only [Char.isAlpha, Char.isUpper, Char.isLower, Bool.or_eq_true, Bool.and_eq_true, decide_eq_true_eq] at hletter
    rcases hletter with h | h
    · exact Nat.lt_of_le_of_lt h.2 (by decide)
    · exact Nat.lt_of_le_of_lt h.2 (by decide)
  · decide

end Tokens

/-! ## The names of the protocol -/

theorem unescaped_method : ("method".toList.all fun c => decide (Unescaped c)) = true := by decide +kernel

theorem unescaped_agent_id : ("agent_id".toList.all fun c => decide (Unescaped c)) = true := by decide +kernel

theorem unescaped_permission_tier : ("permission_tier".toList.all fun c => decide (Unescaped c)) = true := by decide +kernel

end Ipc

end Sentinel

end GolemKernel
