import SlipStack.Lap.Token
import SlipStack.Text.Unicode

/-!
# Words

A word is a run of characters that holds no separator. `kindOf?` is its kind, if it has
one: the reserved words come first, then operators, fractions, whole numbers, names and
quoted words. The classes overlap only where a reserved word is also a name, so this order
matters there and nowhere else.

Letters are taken up to case folding, except in the tags, `AP`, `C` and `nil`. Fractions
may be written with the decimal digits of any script, whole numbers with ASCII digits only.
-/

namespace SlipStack.Lap.Word

open Text

/-- Whether the word is the given one, letter for letter. -/
def isExactly (reserved : String) (word : List Char) : Bool :=
  word = reserved.toList

/-- Whether the word is the given one, in lower or upper case. -/
def isFolded (reserved : String) (word : List Char) : Bool :=
  word.map fold = reserved.toList

/-- Whether the word is one of the comparison operators. -/
def isOperator (word : List Char) : Bool :=
  ["==", "=", "!=", "<", ">", "<=", ">="].any (isExactly · word)

/-- The word without a leading minus sign. -/
def unsigned : List Char → List Char
  | '-' :: rest => rest
  | word => word

/-- Whether this is nothing, or an exponent: `e`, possibly a sign, and digits. -/
def isExponent : List Char → Bool
  | [] => true
  | e :: rest =>
    let digits := match rest with
      | '+' :: digits => digits
      | '-' :: digits => digits
      | digits => digits
    (e = 'e' || e = 'E') && !digits.isEmpty && digits.all isDecimalDigit

/-- Whether this is a fraction without its sign: a point with a digit on at least one side, then
possibly an exponent. -/
def isUnsignedFloat (word : List Char) : Bool :=
  match word.dropWhile isDecimalDigit with
  | '.' :: rest =>
    !((word.takeWhile isDecimalDigit).isEmpty && (rest.takeWhile isDecimalDigit).isEmpty) &&
      isExponent (rest.dropWhile isDecimalDigit)
  | _ => false

/-- Whether the word is a fraction, such as `-2.50` or `.5e3`. -/
def isFloat (word : List Char) : Bool :=
  isUnsignedFloat (unsigned word)

/-- Whether the word is a whole number. -/
def isInt (word : List Char) : Bool :=
  !(unsigned word).isEmpty && (unsigned word).all isAsciiDigit

/-- Whether the word is a letter followed by letters, digits, underscores and hyphens. -/
def isName : List Char → Bool
  | [] => false
  | c :: rest => isLetter c && rest.all isNameChar

/-- Whether the word is a single quote followed by a name. -/
def isQuotedName : List Char → Bool
  | '\'' :: rest => isName rest
  | _ => false

/-- The reserved words, the case-sensitive ones first. -/
def reserved? (word : List Char) : Option Kind :=
  if isExactly "AP" word then some .actionPattern
  else if isExactly "C" word then some .competence
  else if isExactly "DC" word then some .dc
  else if isExactly "RDC" word then some .rdc
  else if isExactly "SDC" word then some .sdc
  else if isExactly "SRDC" word then some .srdc
  else if isExactly "nil" word then some .nil
  else if isFolded "drives" word then some .drives
  else if isFolded "elements" word then some .elements
  else if isFolded "trigger" word then some .trigger
  else if isFolded "goal" word then some .goal
  else if isFolded "hours" word then some .hours
  else if isFolded "minutes" word then some .minutes
  else if isFolded "seconds" word then some .seconds
  else if isFolded "hz" word then some .hz
  else if isFolded "pm" word then some .pm
  else if isFolded "none" word then some .noUnit
  else if isFolded "documentation" word then some .documentation
  else none

/-- The kind of a word, if all of it belongs to one. -/
def kindOf? (word : List Char) : Option Kind :=
  match reserved? word with
  | some kind => some kind
  | none =>
    if isOperator word then some .predicate
    else if isFloat word then some .float
    else if isInt word then some .int
    else if isName word then some .name
    else if isQuotedName word then some .string
    else none

end SlipStack.Lap.Word
