import Mathlib

/-!
# Text

A `&str` or `String` that the source takes apart, formats or hashes is the list of its characters. This module has the functions of
`core` and `alloc` that the source calls on them.
-/

namespace GolemKernel

/-- The characters of a `&str` or a `String`. -/
abbrev Text : Type := List Char

instance : Coe String Text := ⟨String.toList⟩

namespace Text

/-- `str::as_bytes`. -/
def asBytes (s : Text) : List UInt8 := s.flatMap String.utf8EncodeChar

/-- `core::str::from_utf8`. -/
def fromUtf8 (bytes : List UInt8) : Option Text := bytes.toByteArray.utf8Decode?.map Array.toList

/-- `char::is_whitespace`: the characters with the Unicode property `White_Space`. -/
def isWhitespace (c : Char) : Bool :=
  let n := c.toNat
  (9 ≤ n && n ≤ 13) || n == 0x20 || n == 0x85 || n == 0xA0 || n == 0x1680 || (0x2000 ≤ n && n ≤ 0x200A) || n == 0x2028 ||
    n == 0x2029 || n == 0x202F || n == 0x205F || n == 0x3000

/-- `str::trim`. -/
def trim (s : Text) : Text := (s.dropWhile isWhitespace).rdropWhile isWhitespace

/-- `str::split_whitespace`. -/
def splitWhitespace (s : Text) : List Text := (s.splitOnP isWhitespace).filter fun word => !word.isEmpty

/-- `str::to_ascii_lowercase`. -/
def toAsciiLowercase (s : Text) : Text := s.map Char.toLower

/-- `char::to_lowercase`, whose tables are not modelled, with what is assumed of them: a character that is not whitespace becomes one or
more characters, none of them whitespace. -/
structure Lowercase where
  expand : Char → Text
  expand_ne_nil : ∀ c, isWhitespace c = false → expand c ≠ []
  expand_no_whitespace : ∀ c, isWhitespace c = false → ∀ d ∈ expand c, isWhitespace d = false

/-- `str::len`, in bytes. -/
def len (s : Text) : Nat := s.asBytes.length

/-- `&s[n..]`, with `n` in bytes. `none`: the slice panics, since `n` is past the end or inside a character. -/
def sliceFrom : Text → Nat → Option Text
  | s, 0 => some s
  | [], _ + 1 => none
  | c :: s, n + 1 => if c.utf8Size ≤ n + 1 then sliceFrom s (n + 1 - c.utf8Size) else none

/-- `s.get(..n)`, with `n` in bytes. `none`: `n` is past the end or inside a character. -/
def sliceTo : Text → Nat → Option Text
  | _, 0 => some []
  | [], _ + 1 => none
  | c :: s, n + 1 => if c.utf8Size ≤ n + 1 then (sliceTo s (n + 1 - c.utf8Size)).map (c :: ·) else none

/-- `str::get` with a range of bytes. -/
def get (s : Text) (a b : Nat) : Option Text := if a ≤ b then (s.sliceFrom a).bind fun t => t.sliceTo (b - a) else none

/-- `str::starts_with` with a character. -/
def startsWith (s : Text) (c : Char) : Bool := s.head? = some c

/-- `str::trim_start_matches` with a character. -/
def trimStartMatches (s : Text) (c : Char) : Text := s.dropWhile (· = c)

/-- `str::trim_end_matches` with a character. -/
def trimEndMatches (s : Text) (c : Char) : Text := s.rdropWhile (· = c)

/-- `str::split` with a character. -/
def split (s : Text) (c : Char) : List Text := s.splitOn c

/-- `str::rsplit_once` with a character: the texts before and after its last occurrence. -/
def rsplitOnce (s : Text) (c : Char) : Option (Text × Text) :=
  if c ∈ s then some ((s.rdropWhile (· ≠ c)).dropLast, s.rtakeWhile (· ≠ c)) else none

/-- `u32::from_str`: an optional plus sign, then digits, with a value that fits. -/
def parseU32 (s : Text) : Option UInt32 :=
  let digits := match s with
    | '+' :: rest => rest
    | _ => s
  if digits.isEmpty || !digits.all Char.isDigit then none
  else
    let value := digits.foldl (fun n c => 10 * n + (c.toNat - '0'.toNat)) 0
    if value < 2 ^ 32 then some (UInt32.ofNat value) else none

/-- An integer by `{}`. -/
def decimal (n : Nat) : Text := Nat.toDigits 10 n

/-- An integer below `16 ^ width` by `{:0<width>x}`. -/
def hexPadded (width n : Nat) : Text := (List.range width).reverse.map fun i => Nat.digitChar (n / 16 ^ i % 16)

/-- An integer by `{:#x}`. -/
def hexAlternate (n : Nat) : Text := "0x" ++ Nat.toDigits 16 n

/-- A `bool` by `{}`. -/
def ofBool (b : Bool) : Text := if b then "true" else "false"

end Text

end GolemKernel
