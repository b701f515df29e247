import SlipStack.Lap.Word
import SlipStack.Number.Numeral
import SlipStack.Sense.Value

/-!
# Literals

The value that a text in a plan stands for: an integer, else a fraction, else a truth
value, else a text. Integers are decimal, octal after a leading zero or hexadecimal after
`0x`, possibly with the suffix `l`; one that 64 bits do not hold is a text. A text may be
marked by a single quote in front, which is not part of it.
-/

namespace SlipStack

namespace Literal

open Text

/-- The characters without one `l` at the end. -/
def withoutSuffix (cs : List Char) : List Char :=
  if cs.getLast? = some 'l' || cs.getLast? = some 'L' then cs.dropLast else cs

/-- The digits of a decimal integer that does not start with zero. -/
def decimal? : List Char → Option Nat
  | c :: rest =>
    if '1' ≤ c && c ≤ '9' && rest.all isAsciiDigit then Numeral.digitsValue? 10 (c :: rest)
    else none
  | [] => none

/-- An integer of any size, without suffix. -/
def integer? : List Char → Option Int
  | ['0'] => some 0
  | '0' :: 'x' :: digits => (Numeral.digitsValue? 16 digits).map Int.ofNat
  | '0' :: 'X' :: digits => (Numeral.digitsValue? 16 digits).map Int.ofNat
  | '0' :: digits => (Numeral.digitsValue? 8 digits).map Int.ofNat
  | '-' :: digits => (decimal? digits).map fun n => -(n : Int)
  | digits => (decimal? digits).map Int.ofNat

/-- The characters without one single quote at the start. -/
def withoutQuote : List Char → List Char
  | '\'' :: rest => rest
  | cs => cs

/-- The fraction that a text is, if it is one in ASCII digits. -/
def real? (cs : List Char) : Option Binary64 :=
  if Lap.Word.isFloat cs then Numeral.decimal? cs else none

end Literal

/-- The value that a text stands for. -/
def Value.ofLiteral (text : String) : Value :=
  let cs := text.toList
  match (Literal.integer? (Literal.withoutSuffix cs)).filter Numeral.fitsInt64 with
  | some n => .int n
  | none =>
    match Literal.real? cs with
    | some x => .real x
    | none =>
      if text = "true" || text = "True" then .bool true
      else if text = "false" || text = "False" then .bool false
      else .text (String.ofList (Literal.withoutQuote cs))

end SlipStack
