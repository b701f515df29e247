/-!
# Character classes of plan text

Plans and scripts are Unicode text, and three of their rules look beyond ASCII:

* a decimal digit of a number is any character of general category `Nd`
  (`isDecimalDigit`);
* letters are compared up to simple case folding, under which two characters
  outside ASCII fold to ASCII letters (`fold`);
* a name of nothing but white space counts as empty (`isBlank`).

Everything else in the language is ASCII. `isAsciiDigit` is the digit of an integer
token, which is narrower than `isDecimalDigit` (`isDecimalDigit_of_isAsciiDigit`).
-/

namespace SlipStack.Text

/-- The code points at which a run of ten decimal digits, from zero to nine, starts. -/
def digitZeros : List Nat :=
  [0x30, 0x660, 0x6F0, 0x7C0, 0x966, 0x9E6, 0xA66, 0xAE6, 0xB66, 0xBE6, 0xC66, 0xCE6,
   0xD66, 0xDE6, 0xE50, 0xED0, 0xF20, 0x1040, 0x1090, 0x17E0, 0x1810, 0x1946, 0x19D0,
   0x1A80, 0x1A90, 0x1B50, 0x1BB0, 0x1C40, 0x1C50, 0xA620, 0xA8D0, 0xA900, 0xA9D0,
   0xA9F0, 0xAA50, 0xABF0, 0xFF10, 0x104A0, 0x10D30, 0x10D40, 0x11066, 0x110F0, 0x11136,
   0x111D0, 0x112F0, 0x11450, 0x114D0, 0x11650, 0x116C0, 0x116D0, 0x116DA, 0x11730,
   0x118E0, 0x11950, 0x11BF0, 0x11C50, 0x11D50, 0x11DA0, 0x11F50, 0x16130, 0x16A60,
   0x16AC0, 0x16B50, 0x16D70, 0x1CCF0, 0x1D7CE, 0x1D7D8, 0x1D7E2, 0x1D7EC, 0x1D7F6,
   0x1E140, 0x1E2F0, 0x1E4F0, 0x1E5F1, 0x1E950, 0x1FBF0]

/-- Whether the character is a decimal digit of any script (general category `Nd`). -/
def isDecimalDigit (c : Char) : Bool :=
  digitZeros.any fun first => first ≤ c.toNat && c.toNat ≤ first + 9

/-- Whether the character is one of `0` to `9`. -/
def isAsciiDigit (c : Char) : Bool :=
  '0' ≤ c && c ≤ '9'

theorem isDecimalDigit_of_isAsciiDigit {c : Char} (h : isAsciiDigit c = true) :
    isDecimalDigit c = true := by
  simp only [isAsciiDigit, Bool.and_eq_true, decide_eq_true_eq] at h
  have lower : 48 ≤ c.toNat := h.1
  have upper : c.toNat ≤ 57 := h.2
  simp [isDecimalDigit, digitZeros, lower, upper]

/-- Simple case folding onto the ASCII letters. Besides the capital letters, the long s
and the Kelvin sign fold to an ASCII letter; all other characters are left alone. -/
def fold (c : Char) : Char :=
  if 'A' ≤ c && c ≤ 'Z' then Char.ofNat (c.toNat + 32)
  else if c = '\u017F' then 's'
  else if c = '\u212A' then 'k'
  else c

/-- Whether the character is an ASCII letter, up to case folding. -/
def isLetter (c : Char) : Bool :=
  'a' ≤ fold c && fold c ≤ 'z'

/-- Whether the character may stand in a name after its first letter. -/
def isNameChar (c : Char) : Bool :=
  isLetter c || isAsciiDigit c || c = '_' || c = '-'

/-- The characters with the Unicode property `White_Space`. -/
def isBlank (c : Char) : Bool :=
  let n := c.toNat
  (9 ≤ n && n ≤ 13) || n = 0x20 || n = 0x85 || n = 0xA0 || n = 0x1680 ||
    (0x2000 ≤ n && n ≤ 0x200A) || n = 0x2028 || n = 0x2029 || n = 0x202F ||
    n = 0x205F || n = 0x3000

/-- Whether there is nothing but white space in the text. The empty text is all blank. -/
def allBlank (text : String) : Bool :=
  text.toList.all isBlank

end SlipStack.Text
