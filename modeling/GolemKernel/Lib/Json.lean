import Mathlib

/-!
# JSON texts

The grammar of JSON as data. A string is the list of its pieces (characters that stand for themselves and escapes), so that a string
that is not well formed cannot be built; its `text` is what stands between the quotes, its `units` are what it means. A value is written
as tokens, and a text spells tokens with whitespace between them. Which characters are whitespace is a parameter: JSON has four, and
there are readers that skip more.
-/

namespace Json

/-! ## Strings -/

/-- The characters that stand for themselves in a string: no control characters, no quotation mark and no reverse solidus. -/
def Unescaped (c : Char) : Prop := 0x20 ≤ c.toNat ∧ c ≠ '"' ∧ c ≠ '\\'

instance : DecidablePred Unescaped := fun c => inferInstanceAs (Decidable (0x20 ≤ c.toNat ∧ c ≠ '"' ∧ c ≠ '\\'))

def HexDigit (c : Char) : Prop := c.isDigit = true ∨ ('a' ≤ c ∧ c ≤ 'f') ∨ ('A' ≤ c ∧ c ≤ 'F')

instance : DecidablePred HexDigit :=
  fun c => inferInstanceAs (Decidable (c.isDigit = true ∨ ('a' ≤ c ∧ c ≤ 'f') ∨ ('A' ≤ c ∧ c ≤ 'F')))

/-- The escapes of one letter. -/
inductive Escape where
  | quotationMark | reverseSolidus | solidus | backspace | formFeed | lineFeed | carriageReturn | tab
  deriving DecidableEq, Repr

/-- The letter after the reverse solidus. -/
def Escape.letter : Escape → Char
  | quotationMark => '"'
  | reverseSolidus => '\\'
  | solidus => '/'
  | backspace => 'b'
  | formFeed => 'f'
  | lineFeed => 'n'
  | carriageReturn => 'r'
  | tab => 't'

/-- The UTF-16 code unit the escape stands for. -/
def Escape.unit : Escape → UInt16
  | quotationMark => 0x22
  | reverseSolidus => 0x5C
  | solidus => 0x2F
  | backspace => 0x08
  | formFeed => 0x0C
  | lineFeed => 0x0A
  | carriageReturn => 0x0D
  | tab => 0x09

inductive Piece where
  | unescaped (c : Char) (h : Unescaped c)
  | escape (e : Escape)
  | unicode (d₃ d₂ d₁ d₀ : { c : Char // HexDigit c })

/-- What stands between the quotation marks of a string. -/
abbrev Str : Type := List Piece

def Piece.text : Piece → List Char
  | unescaped c _ => [c]
  | escape e => ['\\', e.letter]
  | unicode d₃ d₂ d₁ d₀ => ['\\', 'u', d₃, d₂, d₁, d₀]

def Str.text (s : Str) : List Char := s.flatMap Piece.text

/-- The UTF-16 code units of a character. -/
def utf16 (c : Char) : List UInt16 :=
  let n := c.toNat
  if n < 0x10000 then [UInt16.ofNat n]
  else [UInt16.ofNat (0xD800 + (n - 0x10000) / 0x400), UInt16.ofNat (0xDC00 + (n - 0x10000) % 0x400)]

def hexValue (c : Char) : Nat :=
  if c.isDigit then c.toNat - '0'.toNat else if 'a' ≤ c then c.toNat - 'a'.toNat + 10 else c.toNat - 'A'.toNat + 10

/-- What a piece means. An escape may name half of a surrogate pair, so this is a list of code units and not of characters. -/
def Piece.units : Piece → List UInt16
  | unescaped c _ => utf16 c
  | escape e => [e.unit]
  | unicode d₃ d₂ d₁ d₀ => [UInt16.ofNat (((hexValue d₃ * 16 + hexValue d₂) * 16 + hexValue d₁) * 16 + hexValue d₀)]

def Str.units (s : Str) : List UInt16 := s.flatMap Piece.units

/-- The string means this text. -/
def Str.Means (s : Str) (t : List Char) : Prop := s.units = t.flatMap utf16

instance (s : Str) (t : List Char) : Decidable (s.Means t) := inferInstanceAs (Decidable (s.units = t.flatMap utf16))

/-- A text in which every character stands for itself. -/
def Str.plain (t : List Char) (h : ∀ c ∈ t, Unescaped c) : Str := t.pmap Piece.unescaped h

/-- No character of a text needs an escape if a check over them says so. -/
theorem unescaped_of_all {t : List Char} (h : (t.all fun c => decide (Unescaped c)) = true) : ∀ c ∈ t, Unescaped c := by
  simpa using h

/-- A string literal in which every character stands for itself. -/
def Str.literal (s : String) (h : (s.toList.all fun c => decide (Unescaped c)) = true) : Str := Str.plain s.toList (unescaped_of_all h)

@[simp] theorem Str.text_nil : Str.text [] = [] := rfl

@[simp] theorem Str.text_cons (p : Piece) (s : Str) : Str.text (p :: s) = p.text ++ s.text := rfl

@[simp] theorem Str.text_plain (t : List Char) (h : ∀ c ∈ t, Unescaped c) : (Str.plain t h).text = t := by
  induction t with
  | nil => rfl
  | cons c t ih => simpa [Str.plain, Piece.text] using ih fun d hd => h d (List.mem_cons_of_mem c hd)

/-- A text without escapes means itself. -/
theorem Str.means_plain (t : List Char) (h : ∀ c ∈ t, Unescaped c) : (Str.plain t h).Means t := by
  induction t with
  | nil => rfl
  | cons c t ih =>
    have htail := ih fun d hd => h d (List.mem_cons_of_mem c hd)
    simpa [Str.plain, Str.Means, Str.units, Piece.units] using htail

@[simp] theorem Str.text_literal (s : String) (h : (s.toList.all fun c => decide (Unescaped c)) = true) :
    (Str.literal s h).text = s.toList := Str.text_plain _ _

/-- And so does a literal. -/
theorem Str.means_literal (s : String) (h : (s.toList.all fun c => decide (Unescaped c)) = true) : (Str.literal s h).Means s.toList :=
  Str.means_plain _ _

/-! ## Numbers -/

/-- The digits of the integer part: zero, or digits of which the first is not zero. -/
inductive IntPart where
  | zero
  | digits (first : Fin 9) (rest : List (Fin 10))

/-- One digit or more. -/
structure Digits where
  first : Fin 10
  rest : List (Fin 10)

structure Exponent where
  upper : Bool
  /-- The sign if there is one, `true` for a minus. -/
  sign : Option Bool
  digits : Digits

structure Number where
  minus : Bool
  int : IntPart
  frac : Option Digits
  exp : Option Exponent

def digit (d : Fin 10) : Char := Char.ofNat ('0'.toNat + d)

def IntPart.text : IntPart → List Char
  | zero => ['0']
  | digits first rest => digit first.succ :: rest.map digit

def Digits.text (d : Digits) : List Char := digit d.first :: d.rest.map digit

def Exponent.text (e : Exponent) : List Char :=
  (if e.upper then 'E' else 'e') :: (e.sign.map fun minus => if minus then '-' else '+').toList ++ e.digits.text

def Number.text (n : Number) : List Char :=
  (if n.minus then ['-'] else []) ++ n.int.text ++ (n.frac.elim [] fun d => '.' :: d.text) ++ n.exp.elim [] Exponent.text

/-! ## Tokens -/

inductive Token where
  | beginArray | beginObject | endArray | endObject | nameSeparator | valueSeparator
  | null
  | bool (b : Bool)
  | number (n : Number)
  | string (s : Str)

def Token.text : Token → List Char
  | beginArray => ['[']
  | beginObject => ['\x7b']
  | endArray => [']']
  | endObject => ['\x7d']
  | nameSeparator => [':']
  | valueSeparator => [',']
  | null => ['n', 'u', 'l', 'l']
  | bool true => ['t', 'r', 'u', 'e']
  | bool false => ['f', 'a', 'l', 's', 'e']
  | number n => n.text
  | string s => '"' :: s.text ++ ['"']

/-- A text that consists of the tokens, with whitespace before, between and after them. -/
inductive Spelled (space : Char → Bool) : List Token → List Char → Prop where
  | nil (ws : List Char) (h : ∀ c ∈ ws, space c = true) : Spelled space [] ws
  | cons (ws : List Char) (t : Token) {ts : List Token} {text : List Char} (h : ∀ c ∈ ws, space c = true)
      (rest : Spelled space ts text) : Spelled space (t :: ts) (ws ++ t.text ++ text)

/-! ## Values -/

inductive Value where
  | null
  | bool (b : Bool)
  | number (n : Number)
  | string (s : Str)
  | array (elements : List Value)
  | object (members : List (Str × Value))

/-- The members of an object. -/
abbrev Members : Type := List (Str × Value)

mutual

def Value.tokens : Value → List Token
  | .null => [.null]
  | .bool b => [.bool b]
  | .number n => [.number n]
  | .string s => [.string s]
  | .array [] => [.beginArray, .endArray]
  | .array (v :: vs) => .beginArray :: (v.tokens ++ moreElements vs ++ [.endArray])
  | .object [] => [.beginObject, .endObject]
  | .object ((k, v) :: ms) => .beginObject :: .string k :: .nameSeparator :: (v.tokens ++ moreMembers ms ++ [.endObject])

def moreElements : List Value → List Token
  | [] => []
  | v :: vs => .valueSeparator :: (v.tokens ++ moreElements vs)

def moreMembers : List (Str × Value) → List Token
  | [] => []
  | (k, v) :: ms => .valueSeparator :: .string k :: .nameSeparator :: (v.tokens ++ moreMembers ms)

end

/-- The whitespace of JSON. -/
def isSpace (c : Char) : Bool := c = ' ' || c = '\t' || c = '\n' || c = '\r'

/-- A JSON text that is an object with these members. -/
def IsObject (members : Members) (text : List Char) : Prop := Spelled isSpace (Value.object members).tokens text

/-- The value of the first member with this name. -/
def Members.get? (members : Members) (name : List Char) : Option Value :=
  (members.find? fun m => decide (m.1.Means name)).map Prod.snd

/-- No two members have the same name. -/
def Members.Distinct (members : Members) : Prop := (members.map fun m => m.1.units).Nodup

instance (members : Members) : Decidable (Members.Distinct members) := inferInstanceAs (Decidable (members.map fun m => m.1.units).Nodup)

/-- A string or a number. -/
def Value.isFlat : Value → Bool
  | .string _ | .number _ => true
  | _ => false

/-! ## Reading a text back -/

/-- A quote is in a piece only where it is escaped. -/
theorem Piece.quote_notMem (p : Piece) : '"' ∉ p.text ∨ p = .escape .quotationMark := by
  have hhex : ∀ d : { c : Char // HexDigit c }, '"' ≠ d.val := by
    intro d hd
    have hquote := d.property
    rw [← hd] at hquote
    revert hquote
    decide
  cases p with
  | unescaped c h => exact Or.inl (by simpa [Piece.text] using h.2.1.symm)
  | escape e => cases e <;> simp [Piece.text, Escape.letter]
  | unicode d₃ d₂ d₁ d₀ => exact Or.inl (by simp [Piece.text, hhex])

theorem isDigit_digit (d : Fin 10) : (digit d).isDigit = true := by
  revert d
  decide

/-- Digits are written as digits. -/
theorem isDigit_of_mem_digits {ds : List (Fin 10)} {c : Char} (h : c ∈ ds.map digit) : c.isDigit = true := by
  obtain ⟨d, -, rfl⟩ := List.mem_map.1 h
  exact isDigit_digit d

/-- An integer part is made of digits. -/
theorem IntPart.isDigit_of_mem {i : IntPart} {c : Char} (h : c ∈ i.text) : c.isDigit = true := by
  cases i with
  | zero =>
    obtain rfl := List.mem_singleton.1 h
    rfl
  | digits first rest =>
    rcases List.mem_cons.1 h with rfl | hrest
    · exact isDigit_digit first.succ
    · exact isDigit_of_mem_digits hrest

/-- So are the other digits of a number. -/
theorem Digits.isDigit_of_mem {d : Digits} {c : Char} (h : c ∈ d.text) : c.isDigit = true := by
  rcases List.mem_cons.1 h with rfl | hrest
  · exact isDigit_digit d.first
  · exact isDigit_of_mem_digits hrest

/-- A number has no quotation mark in it. -/
theorem Number.quote_notMem (n : Number) : '"' ∉ n.text := by
  have hdigits : ∀ d : Digits, '"' ∉ d.text := fun d h => nomatch Digits.isDigit_of_mem h
  have hminus : '"' ∉ if n.minus then ['-'] else [] := by cases n.minus <;> simp
  have hint : '"' ∉ n.int.text := fun h => nomatch IntPart.isDigit_of_mem h
  have hfrac : '"' ∉ n.frac.elim [] fun d => '.' :: d.text := by
    cases n.frac with
    | none => simp
    | some d => simp [hdigits]
  have hexp : '"' ∉ n.exp.elim [] Exponent.text := by
    cases n.exp with
    | none => simp
    | some e =>
      obtain ⟨upper, sign, digits⟩ := e
      cases upper <;> rcases sign with - | - | - <;> simp [Exponent.text, hdigits]
  simp only [Number.text, List.mem_append, not_or]
  exact ⟨⟨⟨hminus, hint⟩, hfrac⟩, hexp⟩

/-- An integer part has a digit. -/
theorem IntPart.text_ne_nil (i : IntPart) : i.text ≠ [] := by
  cases i <;> simp [IntPart.text]

/-- A number starts with a minus sign or a digit. -/
theorem Number.exists_text_eq (n : Number) : ∃ c text, n.text = c :: text ∧ (c = '-' ∨ c.isDigit = true) := by
  obtain ⟨minus, int, frac, exp⟩ := n
  obtain ⟨c, text, hint⟩ := List.exists_cons_of_ne_nil int.text_ne_nil
  cases minus with
  | true => exact ⟨'-', _, rfl, Or.inl rfl⟩
  | false =>
    refine ⟨c, _, by rw [Number.text, hint]; rfl, Or.inr ?_⟩
    exact IntPart.isDigit_of_mem (i := int) (by simp [hint])

/-- The kind of a token can be told from the character it starts with. -/
def Token.StartsWith : Token → Char → Prop
  | beginArray, c => c = '['
  | beginObject, c => c = '\x7b'
  | endArray, c => c = ']'
  | endObject, c => c = '\x7d'
  | nameSeparator, c => c = ':'
  | valueSeparator, c => c = ','
  | null, c => c = 'n'
  | bool true, c => c = 't'
  | bool false, c => c = 'f'
  | number _, c => c = '-' ∨ c.isDigit = true
  | string _, c => c = '"'

/-- A token has a first character, which says what it is. -/
theorem Token.exists_text_eq (t : Token) : ∃ c text, t.text = c :: text ∧ t.StartsWith c := by
  cases t with
  | number n => exact n.exists_text_eq
  | bool b => cases b <;> exact ⟨_, _, rfl, rfl⟩
  | _ => exact ⟨_, _, rfl, rfl⟩

/-- Digits are no blanks. -/
theorem isDigit_gt {c : Char} (h : c.isDigit = true) : 0x20 < c.toNat := by
  simp only [Char.isDigit, Bool.and_eq_true, decide_eq_true_eq] at h
  have hge : '0'.toNat ≤ c.toNat := h.1
  have : '0'.toNat = 48 := rfl
  omega

/-- No token starts with whitespace. -/
theorem Token.StartsWith.gt {t : Token} {c : Char} (h : t.StartsWith c) : 0x20 < c.toNat := by
  cases t with
  | number n =>
    rcases h with rfl | h
    · decide
    · exact isDigit_gt h
  | bool b => cases b <;> (obtain rfl := h; decide)
  | _ => obtain rfl := h; decide

/-- A colon is the only token that begins with one. -/
theorem Token.StartsWith.eq_nameSeparator {t : Token} (h : t.StartsWith ':') : t = .nameSeparator := by
  cases t with
  | nameSeparator => rfl
  | bool b => cases b <;> simp [Token.StartsWith] at h
  | number n => exact absurd (show ':' = '-' ∨ ':'.isDigit = true from h) (by decide)
  | _ => simp [Token.StartsWith] at h

/-- What begins with a quote is a string. -/
theorem Token.StartsWith.exists_string {t : Token} (h : t.StartsWith '"') : ∃ s, t = .string s := by
  cases t with
  | string s => exact ⟨s, rfl⟩
  | bool b => cases b <;> simp [Token.StartsWith] at h
  | number n => exact absurd (show '"' = '-' ∨ '"'.isDigit = true from h) (by decide)
  | _ => simp [Token.StartsWith] at h

/-- The kind of a value can be told from its first token. -/
theorem Value.exists_tokens_eq (v : Value) :
    ∃ t ts, v.tokens = t :: ts ∧ (t.StartsWith 't' → v = .bool true) ∧ (t.StartsWith '"' → ∃ s, v = .string s) := by
  cases v with
  | null => exact ⟨.null, [], by rw [Value.tokens], by simp [Token.StartsWith], by simp [Token.StartsWith]⟩
  | bool b => cases b <;> exact ⟨_, [], by rw [Value.tokens], by simp [Token.StartsWith], by simp [Token.StartsWith]⟩
  | number n =>
    refine ⟨.number n, [], by rw [Value.tokens], ?_, ?_⟩
    · intro h
      exact absurd (show 't' = '-' ∨ 't'.isDigit = true from h) (by decide)
    · intro h
      exact absurd (show '"' = '-' ∨ '"'.isDigit = true from h) (by decide)
  | string s => exact ⟨.string s, [], by rw [Value.tokens], by simp [Token.StartsWith], fun _ => ⟨s, rfl⟩⟩
  | array vs => cases vs <;> exact ⟨_, _, by rw [Value.tokens], by simp [Token.StartsWith], by simp [Token.StartsWith]⟩
  | object ms => cases ms <;> exact ⟨_, _, by rw [Value.tokens], by simp [Token.StartsWith], by simp [Token.StartsWith]⟩

/-- There are no quotes in other tokens. -/
theorem Token.quote_notMem {t : Token} (h : ∀ s, t ≠ .string s) : '"' ∉ t.text := by
  cases t with
  | number n => exact n.quote_notMem
  | string s => exact absurd rfl (h s)
  | bool b => cases b <;> decide
  | _ => decide

section Spelled

variable {space : Char → Bool} (hspace : ∀ c, space c = true → c.toNat ≤ 0x20) {t : Token} {ts : List Token} {text : List Char}

/-- A text without tokens is blank. -/
theorem Spelled.dropWhile_nil (h : Spelled space [] text) : text.dropWhile space = [] := by
  cases h with
  | nil _ hws => exact List.dropWhile_eq_nil_iff.2 hws

include hspace

/-- After the whitespace the first token follows. -/
theorem Spelled.dropWhile_cons (h : Spelled space (t :: ts) text) :
    ∃ rest, text.dropWhile space = t.text ++ rest ∧ Spelled space ts rest := by
  cases h with
  | cons ws _ hws hrest =>
    rename_i rest
    obtain ⟨c, tail, htext, hstart⟩ := t.exists_text_eq
    have hc : space c = false := by
      by_contra hne
      have := hspace c (by simpa using hne)
      have := hstart.gt
      omega
    refine ⟨rest, ?_, hrest⟩
    rw [List.append_assoc, List.dropWhile_append_of_pos hws, htext, List.cons_append, List.dropWhile_cons_of_neg (by simp [hc])]

/-- A text that starts with a character above the whitespace starts with its first token. -/
theorem Spelled.uncons {c : Char} {src : List Char} (hc : 0x20 < c.toNat) (h : Spelled space (t :: ts) (c :: src)) :
    ∃ text rest, t.StartsWith c ∧ t.text = c :: text ∧ src = text ++ rest ∧ Spelled space ts rest := by
  have hnot : ¬space c = true := by
    intro hsp
    have hle := hspace c hsp
    omega
  obtain ⟨rest, hdrop, hrest⟩ := h.dropWhile_cons hspace
  obtain ⟨d, text, htext, hstart⟩ := t.exists_text_eq
  rw [List.dropWhile_cons_of_neg hnot, htext] at hdrop
  obtain ⟨rfl, hsrc⟩ := List.cons.inj hdrop
  exact ⟨text, rest, hstart, htext, hsrc, hrest⟩

end Spelled

/-- The tokens spelled without whitespace. -/
theorem spelled_flatMap (space : Char → Bool) (ts : List Token) : Spelled space ts (ts.flatMap Token.text) := by
  induction ts with
  | nil => exact .nil [] (by simp)
  | cons t ts ih => exact .cons [] t (by simp) ih

end Json
