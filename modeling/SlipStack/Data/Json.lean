import SlipStack.Data.Basic
import SlipStack.Number.Numeral
import SlipStack.Number.Decimal

/-!
# JSON

Reading and writing documents as JSON.

* `Json.read?` accepts exactly one value with blanks around it. Numbers that are too large,
  tables and lists nested more than `Json.depthLimit` deep, and strings in which surrogates
  are not paired have no value; nor has a table with such a string for a name. No string
  may hold bare control characters.
* A number without fraction and exponent is whole if 64 bits hold it, signed or unsigned.
  Any other number is its leading digits, as many as 64 bits hold, converted to binary64
  and then scaled by a power of ten (`Json.scale?`): two roundings, so the last bit may
  differ from the nearest value. `-0` is a negative zero.
* `Json.compact` writes on one line, `Json.pretty` with two blanks of indentation per
  level.
-/

namespace SlipStack.Json

open Text

/-- How deep lists and tables may be nested. -/
def depthLimit : Nat := 127

def isSpace (c : Char) : Bool :=
  c = ' ' || c = '\t' || c = '\n' || c = '\r'

def skip (cs : List Char) : List Char :=
  cs.dropWhile isSpace

/-! ## Numbers -/

/-- The greatest number that 64 bits hold without a sign. -/
def nat64Max : Nat := 2 ^ 64 - 1

/-- The power of ten with the given exponent, which is at most 308. -/
def powerOfTen (exponent : Nat) : Binary64 :=
  Binary64.ofDecimal false 1 exponent

/-- Scales a value by a power of ten. An exponent below -308 is divided away in steps of
`10 ^ 308`; `fuel` is the number of such steps still allowed, and four of them leave
nothing of a number that 64 bits hold. No result is infinite. -/
def scale? (x : Binary64) (exponent : Int) : Nat → Option Binary64
  | 0 => some Binary64.zero
  | fuel + 1 =>
    if exponent.natAbs ≤ 308 then
      if 0 ≤ exponent then
        let y := x.mul (powerOfTen exponent.natAbs)
        if y.isInfinite then none else some y
      else some (x.div (powerOfTen exponent.natAbs))
    else if x.isZero then some x
    else if 0 ≤ exponent then none
    else scale? (x.div (powerOfTen 308)) (exponent + 308) fuel

/-- The digits of a number that count: as many as 64 bits hold. The second component is
the number of digits left out. -/
def leading : Nat → List Char → Nat × Nat
  | value, [] => (value, 0)
  | value, c :: rest =>
    let next := value * 10 + (c.toNat - 48)
    if next ≤ nat64Max then leading next rest else (value, rest.length + 1)

/-- The exponent after `e`, if digits follow; absent if there is no `e` at all. -/
def exponent? : List Char → Option (Option Int × List Char)
  | c :: rest =>
    if c = 'e' || c = 'E' then
      let (negative, digits) := Numeral.splitSign rest
      match Numeral.digitsValue? 10 (digits.takeWhile isAsciiDigit) with
      | some n => some (some (if negative then -(n : Int) else n), digits.dropWhile isAsciiDigit)
      | none => none
    else some (none, c :: rest)
  | [] => some (none, [])

/-- A number that is not whole: counted digits, decimal shift, written exponent. -/
def real (negative : Bool) (digits : Nat) (shift : Int) (exponent : Option Int) : Data :=
  let e := exponent.getD 0
  let scaled :=
    if 2 ^ 31 ≤ e.natAbs then
      if digits = 0 || e < 0 then some Binary64.zero else none
    else scale? (Binary64.ofNat digits) (shift + e) 5
  match scaled with
  | some x => .real (if negative then x.neg else x)
  | none => .unreadable

/-- A number. No digit may follow a leading zero. -/
def number? (cs : List Char) : Option (Data × List Char) :=
  let (negative, unsigned) := match cs with
    | '-' :: rest => (true, rest)
    | _ => (false, cs)
  let whole := unsigned.takeWhile isAsciiDigit
  let rest := unsigned.dropWhile isAsciiDigit
  if whole.isEmpty || (whole.head? = some '0' && whole.length ≠ 1) then none
  else
    let (value, skipped) := leading 0 whole
    match rest with
    | '.' :: after =>
      let fraction := after.takeWhile isAsciiDigit
      let counted := leading value fraction
      let shift : Int := skipped - (fraction.length - counted.2 : Nat)
      if fraction.isEmpty then none
      else
        match exponent? (after.dropWhile isAsciiDigit) with
        | some (e, rest) => some (real negative counted.1 shift e, rest)
        | none => none
    | _ =>
      match exponent? rest with
      | none => none
      | some (some e, rest) => some (real negative value skipped (some e), rest)
      | some (none, rest) =>
        if skipped ≠ 0 then some (real negative value skipped none, rest)
        else if !negative then some (.int value, rest)
        else if value = 0 || 2 ^ 63 < value then
          some (.real (Binary64.ofNat value).neg, rest)
        else some (.int (-(value : Int)), rest)

/-! ## Strings -/

/-- The code unit written as four hexadecimal digits. -/
def unit? : List Char → Option (Nat × List Char)
  | a :: b :: c :: d :: rest => (Numeral.digitsValue? 16 [a, b, c, d]).map (·, rest)
  | _ => none

/-- The character written by the unit after `\u`, with its partner if it is a leading
surrogate. A surrogate without partner is no character. -/
def unitChar? (cs : List Char) : Option (Option Char × List Char) :=
  match unit? cs with
  | none => none
  | some (high, rest) =>
    if 0xD800 ≤ high && high ≤ 0xDBFF then
      match rest with
      | '\\' :: 'u' :: after =>
        match unit? after with
        | some (low, after) =>
          if 0xDC00 ≤ low && low ≤ 0xDFFF then
            some (Char.ofNat (0x10000 + (high - 0xD800) * 0x400 + (low - 0xDC00)), after)
          else some (none, rest)
        | none => none
      | _ => some (none, rest)
    else if 0xDC00 ≤ high && high ≤ 0xDFFF then some (none, rest)
    else some (Char.ofNat high, rest)

/-- The character that an escape after a backslash stands for, if it stands for one. -/
def escape? : List Char → Option (Option Char × List Char)
  | 'u' :: rest => unitChar? rest
  | c :: rest =>
    match c with
    | '"' => some ('"', rest)
    | '\\' => some ('\\', rest)
    | '/' => some ('/', rest)
    | 'b' => some ('\x08', rest)
    | 'f' => some ('\x0c', rest)
    | 'n' => some ('\n', rest)
    | 'r' => some ('\r', rest)
    | 't' => some ('\t', rest)
    | _ => none
  | [] => none

/-- The rest of a string after its opening quote. What was read, reversed, is in `read`,
unless it cannot be text any more. -/
def string? (read : Option (List Char)) : Nat → List Char → Option (Option String × List Char)
  | 0, _ => none
  | _, [] => none
  | fuel + 1, c :: rest =>
    if c = '"' then some (read.map fun cs => String.ofList cs.reverse, rest)
    else if c = '\\' then
      match escape? rest with
      | some (some d, rest) => string? (read.map (d :: ·)) fuel rest
      | some (none, rest) => string? none fuel rest
      | none => none
    else if c.toNat < 0x20 then none
    else string? (read.map (c :: ·)) fuel rest

/-- A quoted string. -/
def quoted? : List Char → Option (Option String × List Char)
  | '"' :: rest => string? (some []) (rest.length + 1) rest
  | _ => none

/-! ## Values -/

/-- Consumes exactly the given word. -/
def word? (word : String) (value : Data) (cs : List Char) : Option (Data × List Char) :=
  if word.toList.isPrefixOf cs then some (value, cs.drop word.length) else none

/-- What is nested less deep than the limit; `depth` levels are left. -/
def within (depth : Nat) (data : Data) : Data :=
  if depth = 0 then .unreadable else data

/-- The table with the given fields, if all of their names are text. -/
def tableOf (fields : List (Option String × Data)) : Data :=
  match fields.mapM fun (name, x) => name.map (·, x) with
  | some fields => .table fields
  | none => .unreadable

mutual

/-- One value without blanks in front. What is more than `depth` levels inside it is
unreadable. -/
def value? (depth : Nat) : Nat → List Char → Option (Data × List Char)
  | 0, _ => none
  | fuel + 1, cs =>
    match cs with
    | '[' :: rest =>
      match skip rest with
      | ']' :: rest => some (within depth (.list []), rest)
      | rest =>
        (items? (depth - 1) [] fuel rest).map fun (xs, rest) => (within depth (.list xs), rest)
    | '\x7b' :: rest =>
      match skip rest with
      | '\x7d' :: rest => some (within depth (.table []), rest)
      | rest =>
        (fields? (depth - 1) [] fuel rest).map fun (xs, rest) => (within depth (tableOf xs), rest)
    | '"' :: _ =>
      (quoted? cs).map fun (s, rest) => ((s.map Data.text).getD .unreadable, rest)
    | 't' :: _ => word? "true" (.bool true) cs
    | 'f' :: _ => word? "false" (.bool false) cs
    | 'n' :: _ => word? "null" .null cs
    | _ => number? cs

/-- The items of a list up to its closing bracket; `read` holds those before, reversed. -/
def items? (depth : Nat) (read : List Data) :
    Nat → List Char → Option (List Data × List Char)
  | 0, _ => none
  | fuel + 1, cs =>
    match value? depth fuel cs with
    | none => none
    | some (x, rest) =>
      match skip rest with
      | ',' :: rest => items? depth (x :: read) fuel (skip rest)
      | ']' :: rest => some ((x :: read).reverse, rest)
      | _ => none

/-- The fields of a table up to its closing brace; `read` holds those before, reversed. A
name that is no text is missing. -/
def fields? (depth : Nat) (read : List (Option String × Data)) :
    Nat → List Char → Option (List (Option String × Data) × List Char)
  | 0, _ => none
  | fuel + 1, cs =>
    match quoted? cs with
    | none => none
    | some (name, rest) =>
      match skip rest with
      | ':' :: rest =>
        match value? depth fuel (skip rest) with
        | none => none
        | some (x, rest) =>
          match skip rest with
          | ',' :: rest => fields? depth ((name, x) :: read) fuel (skip rest)
          | '\x7d' :: rest => some (((name, x) :: read).reverse, rest)
          | _ => none
      | _ => none

end

/-- The document that a text holds. -/
def read? (text : String) : Option Data :=
  let cs := skip text.toList
  match value? depthLimit (2 * cs.length + 2) cs with
  | some (value, rest) => if (skip rest).isEmpty then some value else none
  | none => none

/-! ## Writing -/

/-- A character inside a string: the quote, the backslash and control characters are
escaped, all others stand for themselves. -/
def escape (c : Char) : List Char :=
  match c with
  | '"' => ['\\', '"']
  | '\\' => ['\\', '\\']
  | '\n' => ['\\', 'n']
  | '\r' => ['\\', 'r']
  | '\t' => ['\\', 't']
  | '\x08' => ['\\', 'b']
  | '\x0c' => ['\\', 'f']
  | c =>
    if c.toNat < 0x20 then
      ['\\', 'u', '0', '0', Numeral.hexDigit (c.toNat / 16), Numeral.hexDigit (c.toNat % 16)]
    else [c]

/-- A text in quotes. -/
def quote (text : String) : String :=
  String.ofList ('"' :: text.toList.flatMap escape ++ ['"'])

/-- A value that is neither list nor table. What has no value, or no finite one, is null. -/
def scalar : Data → String
  | .null => "null"
  | .bool true => "true"
  | .bool false => "false"
  | .int n => toString n
  | .real x => x.toLiteral?.getD "null"
  | .text s => quote s
  | .list _ => ""
  | .table _ => ""
  | .unreadable => "null"

/-- The document on one line. -/
def compact : Data → String
  | .list items => "[" ++ ",".intercalate (compactItems items) ++ "]"
  | .table fields => "\x7b" ++ ",".intercalate (compactFields fields) ++ "\x7d"
  | .null => scalar .null
  | .bool b => scalar (.bool b)
  | .int n => scalar (.int n)
  | .real x => scalar (.real x)
  | .text s => scalar (.text s)
  | .unreadable => scalar .unreadable
where
  compactItems : List Data → List String
    | [] => []
    | x :: rest => compact x :: compactItems rest
  compactFields : List (String × Data) → List String
    | [] => []
    | (name, x) :: rest => (quote name ++ ":" ++ compact x) :: compactFields rest

/-- A new line with the indentation of a nesting level. -/
def newLine (level : Nat) : String :=
  String.ofList ('\n' :: List.replicate (2 * level) ' ')

/-- Bracketed lines one level further in; nothing between the brackets if there are none. -/
def block (level : Nat) (opening closing : String) (lines : List String) : String :=
  if lines.isEmpty then opening ++ closing
  else
    opening ++ newLine (level + 1) ++ ("," ++ newLine (level + 1)).intercalate lines ++
      newLine level ++ closing

/-- The document over several lines, at the given nesting level. -/
def prettyAt (level : Nat) : Data → String
  | .list items => block level "[" "]" (prettyItems (level + 1) items)
  | .table fields => block level "\x7b" "\x7d" (prettyFields (level + 1) fields)
  | .null => scalar .null
  | .bool b => scalar (.bool b)
  | .int n => scalar (.int n)
  | .real x => scalar (.real x)
  | .text s => scalar (.text s)
  | .unreadable => scalar .unreadable
where
  prettyItems (level : Nat) : List Data → List String
    | [] => []
    | x :: rest => prettyAt level x :: prettyItems level rest
  prettyFields (level : Nat) : List (String × Data) → List String
    | [] => []
    | (name, x) :: rest => (quote name ++ ": " ++ prettyAt level x) :: prettyFields level rest

/-- The document over several lines. -/
def pretty (document : Data) : String :=
  prettyAt 0 document

end SlipStack.Json
