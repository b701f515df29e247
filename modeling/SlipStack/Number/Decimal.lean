import SlipStack.Number.Binary64

/-!
# Decimal text of numbers

Two ways to write a binary64 value in decimal, both computed exactly in the natural
numbers:

* `Binary64.toText` is the shortest positional decimal that reads back as the value. The
  digits come from `Decimal.shortest`: the first precision at which a multiple of a power
  of ten lies among the quotients that round to the value; of two such multiples the
  nearer, and the larger one on a tie.
* `Binary64.toFixed` has a given number of places, a half going to the even neighbour.

Neither ever uses an exponent. `Decimal.exponential` is the notation of documents that
are read by other programs; it writes large and small values with one.
-/

namespace SlipStack

/-- A positive decimal `digits · 10 ^ exponent`. -/
structure Decimal where
  digits : Nat
  exponent : Int
  deriving DecidableEq, Repr

namespace Decimal

/-- The decimal digits of a natural number, without leading zeros. -/
def digitChars (n : Nat) : List Char :=
  Nat.toDigits 10 n

/-- The number of decimal digits of a natural number. -/
def width (n : Nat) : Nat :=
  (digitChars n).length

/-- The quotients that round to a magnitude, as bounds over a common denominator. The
value itself is `value / den`; the bounds belong to the interval iff `closed`. -/
structure Interval where
  low : Nat
  value : Nat
  high : Nat
  den : Nat
  closed : Bool

/-- The interval of a finite magnitude. Below the least significand of its binade the
neighbours are half as far apart, so there the lower bound is nearer. -/
def Interval.ofRank (rank : Nat) : Interval :=
  let s := Binary64.significand rank
  let scale := 2 ^ (Binary64.unit rank).toNat
  let gap := if s = 2 ^ 52 && 2 ^ 53 ≤ rank then 1 else 2
  { low := (4 * s - gap) * scale, value := 4 * s * scale, high := (4 * s + 2) * scale
    den := 4 * 2 ^ (-(Binary64.unit rank)).toNat, closed := s % 2 = 0 }

/-- Whether `num / den` lies in the interval. -/
def Interval.contains (i : Interval) (num den : Nat) : Bool :=
  if i.closed then i.low * den ≤ num * i.den && num * i.den ≤ i.high * den
  else i.low * den < num * i.den && num * i.den < i.high * den

/-- The multiple of `10 ^ exponent` in the interval that is nearest to its value, the
larger one on a tie. -/
def onGrid? (i : Interval) (exponent : Int) : Option Decimal :=
  let up := 10 ^ exponent.toNat
  let down := 10 ^ (-exponent).toNat
  let below := i.value * down / (i.den * up)
  let above := below + 1
  let fromBelow := i.value * down - below * (i.den * up)
  let toAbove := above * (i.den * up) - i.value * down
  let belowFits := 0 < below && i.contains (below * up) down
  let aboveFits := i.contains (above * up) down
  -- Only these two multiples can be the nearest one.
  if aboveFits && (!belowFits || toAbove ≤ fromBelow) then some ⟨above, exponent⟩
  else if belowFits then some ⟨below, exponent⟩
  else none

/-- The first hit on the grids with units `10 ^ exponent`, `10 ^ (exponent - 1)`, and so
on; the coarsest grid of all if none of the `n + 1` has one. -/
def firstOnGrid (i : Interval) (exponent : Int) : Nat → Decimal
  | 0 => (onGrid? i exponent).getD ⟨1, exponent⟩
  | n + 1 => (onGrid? i exponent).getD (firstOnGrid i (exponent - 1) n)

/-- The shortest decimal that rounds to a positive finite magnitude. The search starts at
the power of ten just above the value; 17 digits always suffice. -/
def shortest (rank : Nat) : Decimal :=
  let i := Interval.ofRank rank
  firstOnGrid i ((width i.value : Int) - width i.den + 1) 20

/-- Removes trailing zeros, at most `fuel` of them. -/
def strip (d : Decimal) : Nat → Decimal
  | 0 => d
  | fuel + 1 =>
    if d.digits ≠ 0 && d.digits % 10 = 0 then strip ⟨d.digits / 10, d.exponent + 1⟩ fuel
    else d

/-- The decimal written out, with a point only if it has a fraction. -/
def positional (d : Decimal) : List Char :=
  let digits := digitChars d.digits
  if 0 ≤ d.exponent then digits ++ List.replicate d.exponent.toNat '0'
  else
    let places := (-d.exponent).toNat
    if places < digits.length then
      digits.take (digits.length - places) ++ '.' :: digits.drop (digits.length - places)
    else '0' :: '.' :: List.replicate (places - digits.length) '0' ++ digits

/-- The decimal as a machine-readable floating point literal: always with a point or an
exponent, and with an exponent iff the first digit stands before the fifth place after
the point or past the sixteenth place before it. -/
def exponential (d : Decimal) : List Char :=
  let digits := digitChars d.digits
  let point : Int := digits.length + d.exponent
  if 0 ≤ d.exponent && point ≤ 16 then positional d ++ ['.', '0']
  else if -5 < point && point ≤ 16 then positional d
  else
    let mantissa := match digits with
      | [] => []
      | [c] => [c]
      | c :: rest => c :: '.' :: rest
    mantissa ++ 'e' :: (toString (point - 1)).toList

end Decimal

namespace Binary64

/-- The sign that is written in front of a value. -/
def signText (negative : Bool) : String :=
  if negative then "-" else ""

/-- The shortest positional decimal that reads back as the value. -/
def toText : Binary64 → String
  | .nan => "NaN"
  | .number negative rank _ =>
    signText negative ++
      if rank = infinityRank then "inf"
      else if rank = 0 then "0"
      else String.ofList ((Decimal.shortest rank).strip 20).positional

/-- The value with the given number of places after the point, a half going to the even
neighbour. -/
def toFixed (places : Nat) : Binary64 → String
  | .nan => "NaN"
  | .number negative rank _ =>
    signText negative ++
      if rank = infinityRank then "inf"
      else
        let (n, d) := ratio rank
        let digits := Decimal.digitChars (roundHalfEven (n * 10 ^ places) d)
        let padded := List.replicate (places + 1 - digits.length) '0' ++ digits
        let whole := padded.length - places
        String.ofList (padded.take whole ++ (if places = 0 then [] else '.' :: padded.drop whole))

/-- The value as a machine-readable literal; `none` for values without one. -/
def toLiteral? : Binary64 → Option String
  | .nan => none
  | .number negative rank _ =>
    if rank = infinityRank then none
    else if rank = 0 then some (signText negative ++ "0.0")
    else some (signText negative ++ String.ofList ((Decimal.shortest rank).strip 20).exponential)

end Binary64

end SlipStack
