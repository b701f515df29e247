/-!
# Binary floating point, 64 bits wide

The numbers of plans and scripts that are not integers are IEEE 754 binary64 values.
They are represented by what can be observed of them: either not a number, or a sign and
a *rank*. The rank counts magnitudes upwards from zero, so that consecutive ranks are
consecutive magnitudes, and the last rank is infinity. A rank is at the same time the
word of the interchange format without its sign bit.

* `roundRatio` is the rank nearest to a quotient of natural numbers, ties going to the
  even rank. Every operation is an exact computation on quotients followed by one such
  rounding, so all of them are correctly rounded.
* `order` is the numeric comparison; it is the comparison of `key`, an integer.
* `toInt64` drops the fraction and clamps to the range of 64-bit integers.
-/

namespace SlipStack

-- Mathlib makes the power of a monoid the default for `2 ^ 52`. Here powers are those of the
-- core library, whether Mathlib is imported or not.
attribute [instance (high + 1), default_instance (high + 1)] instPowNat

/-- A binary64 value. The payload of "not a number" is not represented. -/
inductive Binary64 where
  /-- Not a number. -/
  | nan
  /-- A signed magnitude, possibly zero or infinite. -/
  | number (negative : Bool) (rank : Nat) (rank_le : rank ≤ 2047 * 2 ^ 52)
  deriving DecidableEq, Repr

namespace Binary64

/-- The rank of infinity, one above the last finite magnitude. -/
def infinityRank : Nat := 2047 * 2 ^ 52

/-- The signed magnitude of the given rank; ranks past infinity are infinite. -/
def ofRank (negative : Bool) (rank : Nat) : Binary64 :=
  .number negative (min rank infinityRank) (Nat.min_le_right _ _)

/-- The whole number `s` in `rank = s · 2 ^ unit`, for a finite rank. -/
def significand (rank : Nat) : Nat :=
  if rank < 2 ^ 52 then rank else 2 ^ 52 + rank % 2 ^ 52

/-- The exponent of two that scales `significand rank`. -/
def unit (rank : Nat) : Int :=
  if rank < 2 ^ 52 then -1074 else (rank / 2 ^ 52 : Nat) - 1075

/-- A finite magnitude as a quotient of natural numbers. -/
def ratio (rank : Nat) : Nat × Nat :=
  (significand rank * 2 ^ (unit rank).toNat, 2 ^ (-unit rank).toNat)

/-- The natural number nearest to `num / den`, a half going to the even neighbour. -/
def roundHalfEven (num den : Nat) : Nat :=
  let quotient := num / den
  let twice := 2 * (num % den)
  if den < twice || (twice = den && quotient % 2 = 1) then quotient + 1 else quotient

/-- The greatest `k` with `2 ^ k ≤ num / den`, for positive `num` and `den`. -/
def floorLog2 (num den : Nat) : Int :=
  let k : Int := (num.log2 : Int) - den.log2
  if den * 2 ^ k.toNat ≤ num * 2 ^ (-k).toNat then k else k - 1

/-- The rank nearest to `num / den`, ties to the even rank. The unit of the result leaves
53 significant bits, or is the least unit there is. -/
def roundRatio (num den : Nat) : Nat :=
  if num = 0 then 0
  else
    let scale := max (floorLog2 num den - 52) (-1074)
    let whole := roundHalfEven (num * 2 ^ (-scale).toNat) (den * 2 ^ scale.toNat)
    -- A significand rounded up to the next power of two carries into the next binade.
    min ((scale + 1074).toNat * 2 ^ 52 + whole) infinityRank

/-- The value nearest to `± num / den`. -/
def ofRatio (negative : Bool) (num den : Nat) : Binary64 :=
  ofRank negative (roundRatio num den)

def zero : Binary64 := ofRank false 0

def infinity (negative : Bool) : Binary64 := ofRank negative infinityRank

/-- The value nearest to a natural number. -/
def ofNat (n : Nat) : Binary64 := ofRatio false n 1

/-- The value nearest to an integer. -/
def ofInt (n : Int) : Binary64 := ofRatio (n < 0) n.natAbs 1

/-- The value nearest to `± digits · 10 ^ exponent`. Decimals far outside the range are
not computed: an exponent above 309 gives more than the greatest magnitude, and one that
stays below -330 after the binary length of `digits` is added gives less than half the
least magnitude. -/
def ofDecimal (negative : Bool) (digits : Nat) (exponent : Int) : Binary64 :=
  if digits = 0 then ofRank negative 0
  else if 309 < exponent then infinity negative
  else if exponent + (digits.log2 + 1 : Nat) < -330 then ofRank negative 0
  else ofRatio negative (digits * 10 ^ exponent.toNat) (10 ^ (-exponent).toNat)

/-- The word of the interchange format; "not a number" is written quiet and positive. -/
def toBits : Binary64 → Nat
  | .nan => 2047 * 2 ^ 52 + 2 ^ 51
  | .number negative rank _ => (if negative then 2 ^ 63 else 0) + rank

/-- The value of a word of the interchange format. -/
def ofBits (bits : Nat) : Binary64 :=
  let rank := bits % 2 ^ 63
  if infinityRank < rank then .nan else ofRank (bits / 2 ^ 63 % 2 = 1) rank

def isNan : Binary64 → Bool
  | .nan => true
  | .number .. => false

def isInfinite : Binary64 → Bool
  | .nan => false
  | .number _ rank _ => rank = infinityRank

/-- Whether the value is a zero of either sign. -/
def isZero : Binary64 → Bool
  | .nan => false
  | .number _ rank _ => rank = 0

def neg : Binary64 → Binary64
  | .nan => .nan
  | .number negative rank bound => .number (!negative) rank bound

/-- An integer that orders values as their sizes do; both zeros have key 0. -/
def key (negative : Bool) (rank : Nat) : Int :=
  if negative then -(rank : Int) else rank

/-- The numeric comparison. Nothing compares with "not a number". -/
def order : Binary64 → Binary64 → Option Ordering
  | .number s a _, .number t b _ => some (compare (key s a) (key t b))
  | _, _ => none

def mul : Binary64 → Binary64 → Binary64
  | .number s a _, .number t b _ =>
    let negative := s != t
    if a = infinityRank || b = infinityRank then
      -- Infinity times zero has no value.
      if a = 0 || b = 0 then .nan else infinity negative
    else
      let (n, d) := ratio a
      let (m, e) := ratio b
      ofRatio negative (n * m) (d * e)
  | _, _ => .nan

def div : Binary64 → Binary64 → Binary64
  | .number s a _, .number t b _ =>
    let negative := s != t
    if a = infinityRank then
      if b = infinityRank then .nan else infinity negative
    else if b = infinityRank then ofRank negative 0
    else if b = 0 then
      if a = 0 then .nan else infinity negative
    else
      let (n, d) := ratio a
      let (m, e) := ratio b
      ofRatio negative (n * e) (d * m)
  | _, _ => .nan

/-- The sum. An exact sum of zero is positive unless both summands are negative zeros. -/
def add : Binary64 → Binary64 → Binary64
  | .number s a ha, .number t b hb =>
    if a = infinityRank then
      if b = infinityRank && s != t then .nan else .number s a ha
    else if b = infinityRank then .number t b hb
    else
      let (n, d) := ratio a
      let (m, e) := ratio b
      let sum := (if s then -1 else 1) * ((n * e : Nat) : Int) +
        (if t then -1 else 1) * ((m * d : Nat) : Int)
      if sum = 0 then ofRank (s && t) 0 else ofRatio (sum < 0) sum.natAbs (d * e)
  | _, _ => .nan

def sub (x y : Binary64) : Binary64 := add x (neg y)

/-- The least and greatest integers that 64 bits hold in two's complement. -/
def int64Min : Int := -(2 ^ 63)

def int64Max : Int := 2 ^ 63 - 1

/-- The integer part, rounded toward zero and clamped to 64 bits; zero for "not a
number". -/
def toInt64 : Binary64 → Int
  | .nan => 0
  | .number negative rank _ =>
    let (n, d) := ratio rank
    let whole : Int := (n / d : Nat)
    if negative then max (-whole) int64Min else min whole int64Max

end Binary64

end SlipStack
