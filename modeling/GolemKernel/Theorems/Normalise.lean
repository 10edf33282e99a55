import GolemKernel.Sentinel.Monitor

/-!
# Normalising an output

`normalize_output_hash` reads the text once and keeps a flag for whitespace. What it hashes is the words of the text, each lowercased
and one space between two of them.
-/

namespace GolemKernel

namespace Text

/-- Only whitespace. -/
def Blank (t : Text) : Prop := ∀ c ∈ t, isWhitespace c = true

theorem blank_nil : Blank [] := by
  intro c hc
  cases hc

theorem blank_space : Blank [' '] := by
  intro c hc
  rw [List.mem_singleton.mp hc]
  decide

/-- Blanks after blanks are blank. -/
theorem Blank.append {s t : Text} (hs : Blank s) (ht : Blank t) : Blank (s ++ t) := by
  intro c hc
  exact (List.mem_append.mp hc).elim (hs c) (ht c)

/-- A text that `trim` leaves as it is: it begins and ends with a character that is not whitespace. -/
structure Solid (t : Text) : Prop where
  first : ∃ c rest, t = c :: rest ∧ isWhitespace c = false
  last : ∃ c rest, t = rest ++ [c] ∧ isWhitespace c = false

/-- A word is solid. -/
theorem solid_of_no_whitespace {t : Text} (hne : t ≠ []) (h : ∀ c ∈ t, isWhitespace c = false) : Solid t where
  first := by
    obtain ⟨c, rest, rfl⟩ := List.exists_cons_of_ne_nil hne
    exact ⟨c, rest, rfl, h c List.mem_cons_self⟩
  last := ⟨t.getLast hne, t.dropLast, (List.dropLast_append_getLast hne).symm, h _ (List.getLast_mem hne)⟩

/-- Only the ends matter. -/
theorem Solid.join {a b : Text} (ha : Solid a) (hb : Solid b) (mid : Text) : Solid (a ++ mid ++ b) where
  first := by
    obtain ⟨c, rest, rfl, hc⟩ := ha.first
    exact ⟨c, rest ++ mid ++ b, by simp, hc⟩
  last := by
    obtain ⟨c, rest, rfl, hc⟩ := hb.last
    exact ⟨c, a ++ mid ++ rest, by simp, hc⟩

/-- Of blanks `trim` leaves nothing. -/
theorem trim_blank {t : Text} (h : Blank t) : trim t = [] := by
  unfold trim
  rw [List.dropWhile_eq_nil_iff.mpr h]
  rfl

/-- `trim` takes the whitespace off both ends. -/
theorem trim_solid {lead t trail : Text} (hlead : Blank lead) (ht : Solid t) (htrail : Blank trail) :
    trim (lead ++ t ++ trail) = t := by
  have hstart : (lead ++ t ++ trail).dropWhile isWhitespace = t ++ trail := by
    obtain ⟨c, rest, rfl, hc⟩ := ht.first
    rw [List.append_assoc, List.dropWhile_append_of_pos hlead, List.cons_append, List.dropWhile_cons_of_neg (by simp [hc])]
  have hend : (t ++ trail).reverse.dropWhile isWhitespace = t.reverse := by
    obtain ⟨c, rest, rfl, hc⟩ := ht.last
    have hblank : ∀ c ∈ trail.reverse, isWhitespace c = true := by
      intro d hd
      exact htrail d (List.mem_reverse.mp hd)
    rw [List.reverse_append, List.dropWhile_append_of_pos hblank, List.reverse_append, List.reverse_singleton,
      List.singleton_append, List.dropWhile_cons_of_neg (by simp [hc])]
  unfold trim List.rdropWhile
  rw [hstart, hend, List.reverse_reverse]

/-- The parts between whitespace have no whitespace. -/
theorem splitOnP_no_whitespace (s : Text) : ∀ w ∈ s.splitOnP isWhitespace, ∀ c ∈ w, isWhitespace c = false := by
  induction s with
  | nil =>
    intro w hw c hc
    rw [List.splitOnP_nil, List.mem_singleton] at hw
    rw [hw] at hc
    cases hc
  | cons d s ih =>
    intro w hw c hc
    rw [List.splitOnP_cons_eq_if_modifyHead] at hw
    by_cases hd : isWhitespace d = true
    · rw [if_pos hd] at hw
      cases hw with
      | head => cases hc
      | tail _ hw => exact ih w hw c hc
    · rw [if_neg hd] at hw
      obtain ⟨h, t, hparts⟩ := List.exists_cons_of_ne_nil (List.splitOnP_ne_nil isWhitespace s)
      rw [hparts] at hw ih
      cases hw with
      | head =>
        cases hc with
        | head => exact Bool.eq_false_iff.mpr hd
        | tail _ hc => exact ih h List.mem_cons_self c hc
      | tail _ hw => exact ih w (List.mem_cons_of_mem h hw) c hc

/-- The words are not empty and have no whitespace in them. -/
theorem mem_splitWhitespace {s w : Text} (hw : w ∈ splitWhitespace s) : w ≠ [] ∧ ∀ c ∈ w, isWhitespace c = false := by
  unfold splitWhitespace at hw
  obtain ⟨hmem, hne⟩ := List.mem_filter.mp hw
  refine ⟨?_, splitOnP_no_whitespace s w hmem⟩
  rintro rfl
  cases hne

/-- Whitespace before a text makes no word. -/
theorem splitWhitespace_cons_whitespace {c : Char} (hc : isWhitespace c = true) (s : Text) :
    splitWhitespace (c :: s) = splitWhitespace s := by
  unfold splitWhitespace
  rw [List.splitOnP_cons_eq_if_modifyHead, if_pos hc]
  rfl

end Text

namespace Sentinel

namespace Monitor

open Text

section

variable (core : Lowercase)

/-- A word, lowercased character by character. -/
def lowered (w : Text) : Text := w.flatMap core.expand

/-- The words, lowercased, with one space between two of them. -/
def joined (words : List Text) : Text := [' '].intercalate (words.map (lowered core))

/-- The words that follow another: a space comes before each. -/
def following (words : List Text) : Text := words.flatMap fun w => ' ' :: lowered core w

/-- The first word, and then the others with a space before each. -/
theorem joined_cons (w : Text) (words : List Text) : joined core (w :: words) = lowered core w ++ following core words := by
  induction words generalizing w with
  | nil =>
    unfold joined following
    rw [List.map_singleton, List.intercalate_singleton, List.flatMap_nil, List.append_nil]
  | cons w' words ih =>
    have htail := ih w'
    unfold joined following at htail ⊢
    rw [List.map_cons, List.map_cons] at *
    rw [List.intercalate_cons_cons, htail, List.flatMap_cons]
    simp

/-- A word is solid also when it is lowercased. -/
theorem solid_lowered {w : Text} (hne : w ≠ []) (h : ∀ c ∈ w, isWhitespace c = false) : Solid (lowered core w) := by
  refine solid_of_no_whitespace ?_ ?_
  · obtain ⟨c, rest, rfl⟩ := List.exists_cons_of_ne_nil hne
    intro hnil
    unfold lowered at hnil
    rw [List.flatMap_cons, List.append_eq_nil_iff] at hnil
    exact core.expand_ne_nil c (h c List.mem_cons_self) hnil.1
  · intro d hd
    obtain ⟨c, hc, hd⟩ := List.mem_flatMap.mp hd
    exact core.expand_no_whitespace c (h c hc) d hd

/-- And so are words with spaces between them. -/
theorem solid_joined (w : Text) (words : List Text)
    (h : ∀ v ∈ w :: words, v ≠ [] ∧ ∀ c ∈ v, isWhitespace c = false) : Solid (joined core (w :: words)) := by
  induction words generalizing w with
  | nil =>
    unfold joined
    rw [List.map_singleton, List.intercalate_singleton]
    exact solid_lowered core (h w List.mem_cons_self).1 (h w List.mem_cons_self).2
  | cons w' words ih =>
    have hfirst := solid_lowered core (h w List.mem_cons_self).1 (h w List.mem_cons_self).2
    have hrest := ih w' fun v hv => h v (List.mem_cons_of_mem w hv)
    unfold joined at hrest ⊢
    rw [List.map_cons, List.map_cons, List.intercalate_cons_cons]
    exact hfirst.join hrest [' ']

/-! ## The loop -/

/-- What the loop writes for the rest of the text, with `prev_ws`. -/
def collapse : Bool → Text → Text
  | _, [] => []
  | prevWs, c :: s =>
    if isWhitespace c then (if prevWs then collapse true s else ' ' :: collapse true s) else core.expand c ++ collapse false s

/-- The loop appends the collapsed text to its buffer. -/
theorem foldl_normalizeChar (s buf : Text) (prevWs : Bool) :
    (s.foldl (normalizeChar core) (buf, prevWs)).1 = buf ++ collapse core prevWs s := by
  induction s generalizing buf prevWs with
  | nil => exact (List.append_nil buf).symm
  | cons c s ih =>
    rw [List.foldl_cons]
    by_cases hc : isWhitespace c = true
    · cases prevWs <;> simp [normalizeChar, collapse, hc, ih]
    · simp [normalizeChar, collapse, hc, ih]

/-- Of whitespace one space is left, and nothing after whitespace. -/
theorem collapse_whitespace {c : Char} (hc : isWhitespace c = true) (s : Text) :
    collapse core true (c :: s) = collapse core true s ∧ collapse core false (c :: s) = ' ' :: collapse core true s := by
  constructor <;> simp [collapse, hc]

/-- Another character is lowercased. -/
theorem collapse_char {c : Char} (hc : isWhitespace c = false) (prevWs : Bool) (s : Text) :
    collapse core prevWs (c :: s) = core.expand c ++ collapse core false s := by
  simp [collapse, hc]

/-- A text, and after it only whitespace. -/
def Trailed (t expected : Text) : Prop := ∃ trail, Blank trail ∧ t = expected ++ trail

/-- After whitespace the loop writes the words. Inside a word it writes the rest of that word, and then the words that follow. -/
theorem collapse_trailed (s : Text) : Trailed (collapse core true s) (joined core (splitWhitespace s)) ∧
    ∀ h t, s.splitOnP isWhitespace = h :: t →
      Trailed (collapse core false s) (lowered core h ++ following core (t.filter fun word => !word.isEmpty)) := by
  induction s with
  | nil =>
    refine ⟨⟨[], blank_nil, rfl⟩, ?_⟩
    intro h t hparts
    cases hparts
    exact ⟨[], blank_nil, rfl⟩
  | cons c s ih =>
    obtain ⟨h, t, hparts⟩ := List.exists_cons_of_ne_nil (List.splitOnP_ne_nil isWhitespace s)
    by_cases hc : isWhitespace c = true
    · obtain ⟨hsame, hspace⟩ := collapse_whitespace core hc s
      rw [hsame, hspace, splitWhitespace_cons_whitespace hc]
      refine ⟨ih.1, ?_⟩
      intro h' t' hparts'
      rw [List.splitOnP_cons_eq_if_modifyHead, if_pos hc] at hparts'
      cases hparts'
      obtain ⟨trail, hblank, hcollapse⟩ := ih.1
      change Trailed _ (following core (splitWhitespace s))
      -- the space starts the next word, or is trailing if there is none
      cases hwords : splitWhitespace s with
      | nil =>
        rw [hwords] at hcollapse
        exact ⟨' ' :: trail, blank_space.append hblank, by rw [hcollapse]; rfl⟩
      | cons w words =>
        rw [hwords, joined_cons] at hcollapse
        exact ⟨trail, hblank, by rw [hcollapse]; rfl⟩
    · have hc' : isWhitespace c = false := Bool.eq_false_iff.mpr hc
      have hcons : (c :: s).splitOnP isWhitespace = (c :: h) :: t := by
        rw [List.splitOnP_cons_eq_if_modifyHead, if_neg hc, hparts]
        rfl
      have hsplit : splitWhitespace (c :: s) = (c :: h) :: t.filter fun word => !word.isEmpty := by
        unfold splitWhitespace
        rw [hcons]
        rfl
      obtain ⟨trail, hblank, hcollapse⟩ := ih.2 h t hparts
      have hword : ∀ prevWs, Trailed (collapse core prevWs (c :: s))
          (lowered core (c :: h) ++ following core (t.filter fun word => !word.isEmpty)) := by
        intro prevWs
        refine ⟨trail, hblank, ?_⟩
        rw [collapse_char core hc', hcollapse, lowered, lowered, List.flatMap_cons]
        simp only [List.append_assoc]
      refine ⟨?_, ?_⟩
      · rw [hsplit, joined_cons]
        exact hword true
      · intro h' t' hparts'
        rw [hcons] at hparts'
        cases hparts'
        exact hword false

/-- The flag makes a difference at a leading space only. -/
theorem collapse_lead (s : Text) : ∃ lead, Blank lead ∧ collapse core false s = lead ++ collapse core true s := by
  cases s with
  | nil => exact ⟨[], blank_nil, rfl⟩
  | cons c s =>
    by_cases hc : isWhitespace c = true
    · obtain ⟨hsame, hspace⟩ := collapse_whitespace core hc s
      exact ⟨[' '], blank_space, by rw [hsame, hspace]; rfl⟩
    · have hc' : isWhitespace c = false := Bool.eq_false_iff.mpr hc
      refine ⟨[], blank_nil, ?_⟩
      rw [collapse_char core hc', collapse_char core hc']
      rfl

/-- The normalised output is its words, lowercased, with single spaces. -/
theorem normalizedOutput_eq (s : Text) : normalizedOutput core s = joined core (splitWhitespace s) := by
  obtain ⟨lead, hlead, hfirst⟩ := collapse_lead core s
  obtain ⟨trail, htrail, hrest⟩ := (collapse_trailed core s).1
  unfold normalizedOutput
  rw [foldl_normalizeChar, List.nil_append, hfirst, hrest]
  cases hwords : splitWhitespace s with
  | nil => exact trim_blank (hlead.append htrail)
  | cons w words =>
    rw [← List.append_assoc]
    refine trim_solid hlead (solid_joined core w words ?_) htrail
    intro v hv
    rw [← hwords] at hv
    exact mem_splitWhitespace hv

/-- The text that is hashed is the words, lowercased and joined by single spaces. So two texts with the same lowercased words have the
same hash. -/
theorem hash_is_of_words (s : Text) :
    normalizedOutput core s = [' '].intercalate ((splitWhitespace s).map fun w => w.flatMap core.expand) ∧
    normalizeOutputHash core s = sha256Hex (normalizedOutput core s).asBytes ∧
    ∀ s' : Text,
      ((splitWhitespace s).map fun w => w.flatMap core.expand) = ((splitWhitespace s').map fun w => w.flatMap core.expand) →
      normalizeOutputHash core s = normalizeOutputHash core s' := by
  refine ⟨normalizedOutput_eq core s, rfl, ?_⟩
  intro s' hwords
  have hsame : joined core (splitWhitespace s) = joined core (splitWhitespace s') := congrArg [' '].intercalate hwords
  unfold normalizeOutputHash
  rw [normalizedOutput_eq, normalizedOutput_eq, hsame]

end

/-- Small letters are not whitespace. -/
theorem isWhitespace_of_small_letter {c : Char} (hlow : 97 ≤ c.toNat) (hhigh : c.toNat ≤ 122) : isWhitespace c = false := by
  unfold isWhitespace
  simp only [Bool.or_eq_false_iff, Bool.and_eq_false_iff, decide_eq_false_iff_not, beq_eq_false_iff_ne]
  omega

/-- A character that is not whitespace is none when it is lowercased. -/
theorem isWhitespace_toLower {c : Char} (hc : isWhitespace c = false) : isWhitespace c.toLower = false := by
  unfold Char.toLower
  split
  · rename_i hupper
    have hlow : 65 ≤ c.toNat := hupper.1
    have hhigh : c.toNat ≤ 90 := hupper.2
    have hnat : (c.val + ('a'.val - 'A'.val)).toNat = c.toNat + 32 := by
      have hval : c.val.toNat ≤ 90 := hhigh
      have hshift : ('a'.val - 'A'.val).toNat = 32 := rfl
      rw [UInt32.toNat_add, hshift]
      exact Nat.mod_eq_of_lt (by omega)
    have hsmall : 97 ≤ c.toNat + 32 := by omega
    have hsmall' : c.toNat + 32 ≤ 122 := by omega
    exact isWhitespace_of_small_letter (hsmall.trans_eq hnat.symm) (hnat.trans_le hsmall')
  · exact hc

/-- A lowercase that changes the ASCII letters. -/
def asciiLowercase : Lowercase where
  expand c := [c.toLower]
  expand_ne_nil c _ := List.cons_ne_nil _ _
  expand_no_whitespace c hc d hd := by
    rw [List.mem_singleton.mp hd]
    exact isWhitespace_toLower hc

theorem hash_is_of_words_hello :
    normalizeOutputHash asciiLowercase "Hello   World" = normalizeOutputHash asciiLowercase "  hello world\n" :=
  (hash_is_of_words asciiLowercase "Hello   World").2.2 "  hello world\n" (by decide)

end Monitor

end Sentinel

end GolemKernel
