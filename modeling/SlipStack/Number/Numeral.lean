import SlipStack.Number.Binary64
import SlipStack.Text.Unicode

/-!
# Numerals

Reading numbers from characters. `digitsValue?` is the value of a digit string in a base
up to sixteen; `natural?`, `signed?` and `int64?` are decimal integers, the last only if
64 bits hold it; `decimal?` is a decimal fraction with an optional exponent, rounded to
the nearest binary64 value. All of them read ASCII digits only and the whole text.
-/

namespace SlipStack.Numeral

open Text

/-- The value of a digit of a base up to sixteen, in either case of letters. -/
def digitValue? (c : Char) : Option Nat :=
  if isAsciiDigit c then some (c.toNat - 48)
  else if 'a' ≤ c && c ≤ 'f' then some (c.toNat - 87)
  else if 'A' ≤ c && c ≤ 'F' then some (c.toNat - 55)
  else none

/-- A digit of base sixteen, in lower case. -/
def hexDigit (n : Nat) : Char :=
  if n < 10 then Char.ofNat (48 + n) else Char.ofNat (87 + n)

/-- The value of a digit string that continues a number already read. -/
def digitsValueFrom? (base : Nat) : Nat → List Char → Option Nat
  | value, [] => some value
  | value, c :: rest =>
    match digitValue? c with
    | some d => if d < base then digitsValueFrom? base (value * base + d) rest else none
    | none => none

/-- The value of a non-empty digit string. -/
def digitsValue? (base : Nat) : List Char → Option Nat
  | [] => none
  | digits => digitsValueFrom? base 0 digits

/-- A decimal natural number, possibly with a plus sign, of at most `max`. -/
def natural? (max : Nat) (text : List Char) : Option Nat :=
  let digits := match text with
    | '+' :: rest => rest
    | _ => text
  (digitsValue? 10 digits).filter (· ≤ max)

/-- A decimal integer, possibly with a sign. -/
def signed? : List Char → Option Int
  | '-' :: rest => (digitsValue? 10 rest).map fun n => -(n : Int)
  | '+' :: rest => (digitsValue? 10 rest).map Int.ofNat
  | rest => (digitsValue? 10 rest).map Int.ofNat

/-- Whether the integer is one that 64 bits hold in two's complement. -/
def fitsInt64 (n : Int) : Bool :=
  Binary64.int64Min ≤ n && n ≤ Binary64.int64Max

/-- A decimal integer that 64 bits hold. -/
def int64? (text : List Char) : Option Int :=
  (signed? text).filter fitsInt64

/-- The exponent that follows the digits of a decimal fraction: nothing, or `e` and an
integer. -/
def exponent? : List Char → Option Int
  | [] => some 0
  | c :: rest => if c = 'e' || c = 'E' then signed? rest else none

/-- Splits off a leading sign; true means negative. -/
def splitSign : List Char → Bool × List Char
  | '-' :: rest => (true, rest)
  | '+' :: rest => (false, rest)
  | rest => (false, rest)

/-- A decimal fraction such as `-12.5e3`: digits with at most one point among them, at
least one digit, then possibly an exponent. -/
def decimal? (text : List Char) : Option Binary64 :=
  let (negative, unsigned) := splitSign text
  let whole := unsigned.takeWhile isAsciiDigit
  let afterWhole := unsigned.dropWhile isAsciiDigit
  let fraction := match afterWhole with
    | '.' :: rest => rest.takeWhile isAsciiDigit
    | _ => []
  let afterFraction := match afterWhole with
    | '.' :: rest => rest.dropWhile isAsciiDigit
    | rest => rest
  match digitsValue? 10 (whole ++ fraction), exponent? afterFraction with
  | some digits, some e => some (Binary64.ofDecimal negative digits (e - fraction.length))
  | _, _ => none

end SlipStack.Numeral
