import SlipStack.Data.Basic
import SlipStack.Number.Numeral

/-!
# TOML

Reading documents written as TOML, without dates and times.

A document is read line by line into `Fields`, in which every table remembers how it was
made: by its header, on the way to the table of another header, or by dotted names. That
decides what may still be added to it. A table written inline is closed at once.

Lists and inline tables may be nested `Toml.depthLimit` deep, and may spread over lines with
comments and a comma after the last item. A dotted name has `Toml.nameLimit` parts at most.

A number is accepted for its notation alone (`Toml.numberForm?`). Whether it has a value is
another matter: whole numbers are limited to 128 bits, and a fraction must not be too large
for binary64. A number without value is unreadable, which does no harm where nobody reads
it.
-/

namespace SlipStack.Toml

open Text

/-- How deep lists and inline tables may be nested. -/
def depthLimit : Nat := 80

/-- How many parts a dotted name may have. -/
def nameLimit : Nat := 80

/-! ## Blanks and comments -/

def isSpace (c : Char) : Bool :=
  c = ' ' || c = '\t'

/-- A control character other than the tab, which may stand nowhere but in line ends. -/
def isControl (c : Char) : Bool :=
  (c.toNat < 0x20 && c ≠ '\t') || c.toNat = 0x7F

def skip (cs : List Char) : List Char :=
  cs.dropWhile isSpace

/-- The line end at the start, and what follows it. -/
def splitLine? : List Char → Option (List Char × List Char)
  | '\n' :: rest => some (['\n'], rest)
  | '\r' :: '\n' :: rest => some (['\r', '\n'], rest)
  | _ => none

/-- What follows a line end. -/
def newLine? (cs : List Char) : Option (List Char) :=
  (splitLine? cs).map (·.2)

/-- What follows a comment, if there is one. -/
def skipComment? : List Char → Option (List Char)
  | '#' :: rest =>
    let after := rest.dropWhile fun c => !isControl c
    if after.isEmpty || (newLine? after).isSome then some after else none
  | cs => some cs

/-- What follows the end of a line that has nothing more to say. -/
def endLine? (cs : List Char) : Option (List Char) :=
  match skipComment? (skip cs) with
  | some [] => some []
  | some rest => newLine? rest
  | none => none

/-- What follows blanks, line ends and comments; `comment` tells whether a comment has begun
already. -/
def skipLinesFrom? (comment : Bool) : List Char → Option (List Char)
  | [] => some []
  | '\n' :: rest => skipLinesFrom? false rest
  | '\r' :: '\n' :: rest => skipLinesFrom? false rest
  | c :: rest =>
    if comment then
      if isControl c then none else skipLinesFrom? true rest
    else if c = '#' then skipLinesFrom? true rest
    else if isSpace c then skipLinesFrom? false rest
    else some (c :: rest)

/-- What follows any number of blanks, line ends and comments. -/
def skipLines? (cs : List Char) : Option (List Char) :=
  skipLinesFrom? false cs

/-! ## Strings -/

/-- The character with a code point written in the given number of hexadecimal digits. -/
def codePoint? (digits : Nat) (cs : List Char) : Option (Char × List Char) :=
  let written := cs.take digits
  if written.length < digits then none
  else
    match Numeral.digitsValue? 16 written with
    | none => none
    | some n =>
      if n < 0xD800 || (0xDFFF < n && n < 0x110000) then some (Char.ofNat n, cs.drop digits)
      else none

/-- The character that an escape after a backslash stands for. -/
def escape? : List Char → Option (Char × List Char)
  | c :: rest =>
    match c with
    | 'b' => some ('\x08', rest)
    | 't' => some ('\t', rest)
    | 'n' => some ('\n', rest)
    | 'f' => some ('\x0c', rest)
    | 'r' => some ('\r', rest)
    | 'e' => some ('\x1b', rest)
    | '"' => some ('"', rest)
    | '\\' => some ('\\', rest)
    | 'x' => codePoint? 2 rest
    | 'u' => codePoint? 4 rest
    | 'U' => codePoint? 8 rest
    | _ => none
  | [] => none

/-- The rest of a quoted string on one line; `read` holds what was read, reversed. -/
def basic? (read : List Char) : Nat → List Char → Option (String × List Char)
  | 0, _ => none
  | _, [] => none
  | fuel + 1, c :: rest =>
    if c = '"' then some (String.ofList read.reverse, rest)
    else if c = '\\' then
      match escape? rest with
      | some (d, rest) => basic? (d :: read) fuel rest
      | none => none
    else if isControl c then none
    else basic? (c :: read) fuel rest

/-- The rest of a string in single quotes on one line. -/
def literal? (cs : List Char) : Option (String × List Char) :=
  let body := cs.takeWhile fun c => c ≠ '\'' && !isControl c
  match cs.drop body.length with
  | '\'' :: rest => some (String.ofList body, rest)
  | _ => none

/-- What follows three quotes, where up to two more belong to the string. -/
def closing? (quote : Char) (cs : List Char) : Option (List Char × List Char) :=
  let quotes := cs.takeWhile (· = quote)
  if quotes.length < 3 then none
  else
    let inside := min (quotes.length - 3) 2
    some (List.replicate inside quote, cs.drop (inside + 3))

/-- What follows blanks and line ends. -/
def skipBlank : List Char → List Char
  | '\r' :: '\n' :: rest => skipBlank rest
  | c :: rest => if isSpace c || c = '\n' then skipBlank rest else c :: rest
  | [] => []

/-- What follows a backslash at the end of a line: the next line that is not blank. -/
def continued? (cs : List Char) : Option (List Char) :=
  (newLine? (skip cs)).map skipBlank

/-- The rest of a string over several lines, whose ends stay as they are written; `escapes`
tells whether backslashes count. -/
def lines? (quote : Char) (escapes : Bool) (read : List Char) :
    Nat → List Char → Option (String × List Char)
  | 0, _ => none
  | _, [] => none
  | fuel + 1, c :: rest =>
    match closing? quote (c :: rest) with
    | some (inside, rest) => some (String.ofList (read.reverse ++ inside), rest)
    | none =>
      match splitLine? (c :: rest) with
      | some (ending, rest) => lines? quote escapes (ending.reverse ++ read) fuel rest
      | none =>
        if c = '\\' && escapes then
          -- In front of a line end a backslash takes away what is blank up to the next text.
          match continued? rest with
          | some rest => lines? quote escapes read fuel rest
          | none =>
            match escape? rest with
            | some (d, rest) => lines? quote escapes (d :: read) fuel rest
            | none => none
        else if isControl c then none
        else lines? quote escapes (c :: read) fuel rest

/-- A line end right after the opening quotes does not belong to the string. -/
def dropFirstLine (cs : List Char) : List Char :=
  (newLine? cs).getD cs

/-- A string in any of the four notations. -/
def string? : List Char → Option (String × List Char)
  | '"' :: '"' :: '"' :: rest => lines? '"' true [] (rest.length + 1) (dropFirstLine rest)
  | '\'' :: '\'' :: '\'' :: rest => lines? '\'' false [] (rest.length + 1) (dropFirstLine rest)
  | '"' :: rest => basic? [] (rest.length + 1) rest
  | '\'' :: rest => literal? rest
  | _ => none

/-! ## Names -/

/-- Whether the character may stand in a name without quotes. -/
def isBare (c : Char) : Bool :=
  isAsciiDigit c || ('a' ≤ c && c ≤ 'z') || ('A' ≤ c && c ≤ 'Z') || c = '_' || c = '-'

/-- A single name. -/
def name? : List Char → Option (String × List Char)
  | '"' :: rest => basic? [] (rest.length + 1) rest
  | '\'' :: rest => literal? rest
  | cs =>
    let name := cs.takeWhile isBare
    if name.isEmpty then none else some (String.ofList name, cs.dropWhile isBare)

/-- At most `limit` names separated by dots, with blanks around them. -/
def namesUpTo? : Nat → List Char → Option (List String × List Char)
  | 0, _ => none
  | limit + 1, cs =>
    match name? (skip cs) with
    | none => none
    | some (name, rest) =>
      match skip rest with
      | '.' :: rest => (namesUpTo? limit rest).map fun (names, rest) => (name :: names, rest)
      | rest => some ([name], rest)

/-- A dotted name. -/
def names? (cs : List Char) : Option (List String × List Char) :=
  namesUpTo? nameLimit cs

/-! ## Scalars -/

/-- How a number is written. -/
inductive NumberForm where
  /-- Digits of a base. -/
  | whole (base : Nat)
  /-- Decimal digits with a point or an exponent. -/
  | fraction

/-- What follows digits and underscores, with one digit at least among them. Unless
`padded`, no zero may stand in front of others. -/
def afterDigits? (padded : Bool) (cs : List Char) : Option (List Char) :=
  let isPart (c : Char) : Bool := isAsciiDigit c || c = '_'
  let count := (cs.takeWhile isPart).countP isAsciiDigit
  if count = 0 || (!padded && 1 < count && cs.head? = some '0') then none
  else some (cs.dropWhile isPart)

/-- What follows the digits behind a point, if there is one. -/
def afterPlaces? : List Char → Option (List Char)
  | '.' :: rest => afterDigits? true rest
  | cs => some cs

/-- What follows an exponent, if there is one. -/
def afterExponent? : List Char → Option (List Char)
  | c :: rest =>
    if c = 'e' || c = 'E' then
      match rest with
      | '+' :: digits => afterDigits? true digits
      | '-' :: digits => afterDigits? true digits
      | digits => afterDigits? true digits
    else some (c :: rest)
  | [] => some []

/-- Whether this is a number with a fraction or an exponent or neither, apart from where
underscores stand. -/
def isFraction (cs : List Char) : Bool :=
  match ((afterDigits? false cs).bind afterPlaces?).bind afterExponent? with
  | some rest => rest.isEmpty
  | none => false

/-- How a decimal number without its sign is written, apart from where underscores stand.
What follows the first underscore of a whole number is not looked at, be it digits or not. -/
def decimalForm? (cs : List Char) : Option NumberForm :=
  let rest := cs.dropWhile isAsciiDigit
  if rest.any fun c => c = '.' || c = 'e' || c = 'E' then
    if isFraction cs then some .fraction else none
  else if rest.isEmpty || rest.head? = some '_' then
    if cs = ['0'] || (!cs.isEmpty && cs.head? ≠ some '0') then some (.whole 10) else none
  else none

/-- Whether underscores stand between digits only. `follows` tells whether there is a digit in
front. -/
def underscoresFitAfter (isDigit : Char → Bool) (follows : Bool) : List Char → Bool
  | [] => true
  | c :: rest =>
    if c = '_' then
      follows && (rest.head?.map isDigit).getD false && underscoresFitAfter isDigit false rest
    else underscoresFitAfter isDigit (isDigit c) rest

/-- Whether the underscores of a number stand between digits only. -/
def underscoresFit (isDigit : Char → Bool) (cs : List Char) : Bool :=
  underscoresFitAfter isDigit false cs

/-- Whether the character is a digit of any base up to sixteen. -/
def isAnyDigit (c : Char) : Bool :=
  (Numeral.digitValue? c).isSome

/-- The digits of a base, where underscores stand between digits. There may be none. -/
def based? (base : Nat) (cs : List Char) : Option (NumberForm × List Char) :=
  let isDigit (c : Char) : Bool := (Numeral.digitsValue? base [c]).isSome
  if cs.all (fun c => isDigit c || c = '_') && underscoresFit isAnyDigit cs then
    some (.whole base, cs)
  else none

/-- How a number is written, and its characters without what only tells its base. -/
def numberForm? (cs : List Char) : Option (NumberForm × List Char) :=
  match cs with
  | '0' :: 'x' :: rest => based? 16 rest
  | '0' :: 'o' :: rest => based? 8 rest
  | '0' :: 'b' :: rest => based? 2 rest
  | _ =>
    match decimalForm? (unsigned cs) with
    | some .fraction =>
      if underscoresFit isAsciiDigit cs then some (.fraction, cs) else none
    | some (.whole base) =>
      if underscoresFit isAnyDigit cs then some (.whole base, cs) else none
    | none => none
where
  unsigned : List Char → List Char
    | '+' :: rest => rest
    | '-' :: rest => rest
    | cs => cs

/-- The value of a whole number, if 128 bits hold it, signed or unsigned. -/
def wholeValue? (base : Nat) (cs : List Char) : Option Int :=
  let (negative, digits) := Numeral.splitSign cs
  match Numeral.digitsValue? base digits with
  | some n =>
    let n : Int := if negative then -n else n
    if -2 ^ 127 ≤ n && n < 2 ^ 128 then some n else none
  | none => none

/-- The value of a fraction, unless it is too large. -/
def fractionValue? (cs : List Char) : Option Binary64 :=
  (Numeral.decimal? cs).filter fun x => !x.isInfinite

/-- The number written by characters without underscores. -/
def numberOf (form : NumberForm) (cs : List Char) : Data :=
  match form with
  | .whole base => ((wholeValue? base cs).map Data.int).getD .unreadable
  | .fraction => ((fractionValue? cs).map Data.real).getD .unreadable

/-- A number or a special value. -/
def number? (cs : List Char) : Option Data :=
  let (negative, unsigned) := Numeral.splitSign cs
  if unsigned = ['i', 'n', 'f'] then some (.real (Binary64.infinity negative))
  else if unsigned = ['n', 'a', 'n'] then some (.real .nan)
  else (numberForm? cs).map fun (form, cs) => numberOf form (cs.filter (· ≠ '_'))

/-- A scalar without quotes. -/
def scalar? (cs : List Char) : Option Data :=
  if cs = ['t', 'r', 'u', 'e'] then some (.bool true)
  else if cs = ['f', 'a', 'l', 's', 'e'] then some (.bool false)
  else number? cs

/-- The characters that cannot belong to a scalar without quotes. All others do, even if no
scalar can have them. -/
def scalarEnds : List Char :=
  ['=', ',', '[', ']', '\x7b', '\x7d', ' ', '\t', '#', '\r', '\n']

def isScalar (c : Char) : Bool :=
  !scalarEnds.contains c

/-- Whether the character opens a string. -/
def isQuote (c : Char) : Bool :=
  c = '"' || c = '\''

/-- The scalar without quotes at the start, where `tabs` are in front of the characters.
Tabs belong to a scalar if more of it follows, but a string behind them is no part of it. -/
def takeScalar (tabs : Nat) : List Char → List Char
  | [] => []
  | c :: rest =>
    if c = '\t' then takeScalar (tabs + 1) rest
    else if isScalar c && (tabs = 0 || !isQuote c) then
      List.replicate tabs '\t' ++ c :: takeScalar 0 rest
    else []

/-! ## Tables in the making -/

/-- How a table came about. -/
inductive Origin where
  /-- On the way to the table of a header. -/
  | passed
  /-- By dotted names. -/
  | dotted
  /-- By a header of its own. -/
  | header
  deriving DecidableEq

/-- What stands under a name while a document is read. -/
inductive Entry where
  /-- A value, to which nothing can be added. -/
  | value (data : Data)
  | table (origin : Origin) (fields : List (String × Entry))
  /-- A list of tables, the latest first. -/
  | tables (items : List (List (String × Entry)))

abbrev Fields := List (String × Entry)

namespace Entry

mutual

/-- The value of an entry that is complete. -/
def toData : Entry → Data
  | .value data => data
  | .table _ fields => .table (fieldsToData fields)
  | .tables items => .list (itemsToData items).reverse

def fieldsToData : Fields → List (String × Data)
  | [] => []
  | (name, entry) :: rest => (name, entry.toData) :: fieldsToData rest

def itemsToData : List Fields → List Data
  | [] => []
  | fields :: rest => .table (fieldsToData fields) :: itemsToData rest

end

end Entry

namespace Fields

def find? (fields : Fields) (name : String) : Option Entry :=
  (List.find? (·.1 = name) fields).map (·.2)

/-- Puts an entry under a name, instead of the one that is there. -/
def put (fields : Fields) (name : String) (entry : Entry) : Fields :=
  match fields with
  | [] => [(name, entry)]
  | (other, old) :: rest =>
    if other = name then (name, entry) :: rest else (other, old) :: put rest name entry

/-- Changes the table under a path of names. Tables that are not there are made with the
given origin, and of a list of tables the latest counts. Dotted names do not lead into a
table that has a header. -/
def changeAt? (made : Origin) (change : Origin → Fields → Option Fields) :
    List String → Origin → Fields → Option Fields
  | [], origin, fields => change origin fields
  | name :: path, _, fields =>
    match fields.find? name with
    | none =>
      (changeAt? made change path made []).map fun inner =>
        fields.put name (.table made inner)
    | some (.table origin inner) =>
      -- Values of a table with a header stand below that header.
      if made = .dotted && origin = .header then none
      else
        (changeAt? made change path origin inner).map fun inner =>
          fields.put name (.table origin inner)
    | some (.tables (item :: items)) =>
      (changeAt? made change path .header item).map fun item =>
        fields.put name (.tables (item :: items))
    | some (.tables []) => none
    | some (.value _) => none

/-- Assigns a value under a path of names in a table. A table may be extended by dotted
names only if dotted names made it, and a name is assigned once. -/
def assign? (path : List String) (data : Data) (fields : Fields) : Option Fields :=
  match path.getLast? with
  | none => none
  | some name =>
    let inner := path.dropLast
    changeAt? .dotted (fun origin fields =>
      -- A single name is assigned in the table of the header itself, a longer path in a
      -- table that dotted names made.
      if decide (origin = .dotted) = inner.isEmpty then none
      else
        match fields.find? name with
        | none => some (fields.put name (.value data))
        | some _ => none) inner .header fields

/-- Opens the table of a header. A table has one header at most. -/
def openTable? (path : List String) (fields : Fields) : Option Fields :=
  match path.getLast? with
  | none => none
  | some name =>
    changeAt? .passed (fun _ fields =>
      match fields.find? name with
      | none => some (fields.put name (.table .header []))
      | some (.table .passed inner) => some (fields.put name (.table .header inner))
      | some _ => none) path.dropLast .header fields

/-- Opens another table of a list of tables. -/
def openItem? (path : List String) (fields : Fields) : Option Fields :=
  match path.getLast? with
  | none => none
  | some name =>
    changeAt? .passed (fun _ fields =>
      match fields.find? name with
      | none => some (fields.put name (.tables [[]]))
      | some (.tables items) => some (fields.put name (.tables ([] :: items)))
      | some _ => none) path.dropLast .header fields

end Fields

/-! ## Values -/

/-- What follows the equals sign of a field inside braces, where the field may spread over
lines. -/
def assigned? (cs : List Char) : Option (List Char) :=
  match skipLines? cs with
  | some ('=' :: rest) => skipLines? rest
  | _ => none

mutual

/-- One value, with at most `depth` levels inside it. -/
def value? (depth : Nat) : Nat → List Char → Option (Data × List Char)
  | 0, _ => none
  | fuel + 1, cs =>
    match cs with
    | '[' :: rest =>
      if depth = 0 then none
      else (items? (depth - 1) [] fuel rest).map fun (items, rest) => (.list items, rest)
    | '\x7b' :: rest =>
      if depth = 0 then none
      else
        (fields? (depth - 1) [] fuel rest).map fun (fields, rest) =>
          (.table (Entry.fieldsToData fields), rest)
    | '"' :: _ => (string? cs).map fun (s, rest) => (.text s, rest)
    | '\'' :: _ => (string? cs).map fun (s, rest) => (.text s, rest)
    | _ =>
      let written := takeScalar 0 cs
      (scalar? written).map (·, cs.drop written.length)

/-- The items of a list up to its closing bracket; `read` holds those before, reversed. -/
def items? (depth : Nat) (read : List Data) :
    Nat → List Char → Option (List Data × List Char)
  | 0, _ => none
  | fuel + 1, cs =>
    match skipLines? cs with
    | none => none
    | some (']' :: rest) => some (read.reverse, rest)
    | some rest =>
      match value? depth fuel rest with
      | none => none
      | some (x, rest) =>
        match skipLines? rest with
        | some (',' :: rest) => items? depth (x :: read) fuel rest
        | some (']' :: rest) => some ((x :: read).reverse, rest)
        | _ => none

/-- The fields of an inline table up to its closing brace, after those in `read`. -/
def fields? (depth : Nat) (read : Fields) :
    Nat → List Char → Option (Fields × List Char)
  | 0, _ => none
  | fuel + 1, cs =>
    match skipLines? cs with
    | none => none
    | some ('\x7d' :: rest) => some (read, rest)
    | some rest =>
      match names? rest with
      | none => none
      | some (path, rest) =>
        match assigned? rest with
        | none => none
        | some rest =>
          match value? depth fuel rest with
          | none => none
          | some (x, rest) =>
            match read.assign? path x, skipLines? rest with
            | some read, some (',' :: rest) => fields? depth read fuel rest
            | some read, some ('\x7d' :: rest) => some (read, rest)
            | _, _ => none

end

/-! ## Documents -/

/-- The names of a header and what follows its closing brackets. -/
def header? (closing : List Char) (cs : List Char) : Option (List String × List Char) :=
  match names? cs with
  | some (path, rest) =>
    if closing.isPrefixOf rest then some (path, rest.drop closing.length) else none
  | none => none

/-- The value assigned on a line, under its path of names. -/
def assignment? (cs : List Char) : Option ((List String × Data) × List Char) :=
  match names? cs with
  | some (path, '=' :: rest) =>
    let rest := skip rest
    -- Each level of nesting takes a bracket, so this much fuel always suffices.
    (value? depthLimit (2 * rest.length + 2) rest).map fun (x, rest) => ((path, x), rest)
  | _ => none

/-- Reads the lines of a document into the fields read so far; `current` is the path of the
last header. -/
def document? (current : List String) (fields : Fields) : Nat → List Char → Option Fields
  | 0, _ => none
  | fuel + 1, cs =>
    match skip cs with
    | [] => some fields
    | '[' :: '[' :: rest =>
      match header? [']', ']'] rest with
      | none => none
      | some (path, rest) =>
        match fields.openItem? path, endLine? rest with
        | some fields, some rest => document? path fields fuel rest
        | _, _ => none
    | '[' :: rest =>
      match header? [']'] rest with
      | none => none
      | some (path, rest) =>
        match fields.openTable? path, endLine? rest with
        | some fields, some rest => document? path fields fuel rest
        | _, _ => none
    | c :: rest =>
      if c = '#' || (newLine? (c :: rest)).isSome then
        match endLine? (c :: rest) with
        | some rest => document? current fields fuel rest
        | none => none
      else
        match assignment? (c :: rest) with
        | none => none
        | some ((path, x), rest) =>
          match Fields.changeAt? .passed (fun _ fields => fields.assign? path x) current .header
              fields, endLine? rest with
          | some fields, some rest => document? current fields fuel rest
          | _, _ => none

/-- The characters after a byte order mark. -/
def withoutMark : List Char → List Char
  | '\uFEFF' :: rest => rest
  | cs => cs

/-- The document that a text holds: a table. -/
def read? (text : String) : Option Data :=
  let cs := withoutMark text.toList
  (document? [] [] (cs.length + 1) cs).map fun fields => .table (Entry.fieldsToData fields)

end SlipStack.Toml
