/-!
# Tokens of plan text

A token is a kind, the characters it was read from and the line on which it ends. Of the
words that are reserved, the drive collection tags, `AP`, `C` and `nil` are case-sensitive
and the others are not; the rules are in `SlipStack.Lap.Word`.
-/

namespace SlipStack.Lap

/-- What a token is. -/
inductive Kind where
  | leftParen
  | rightParen
  /-- A text in double quotes. -/
  | comment
  /-- `AP`, which opens an action pattern. -/
  | actionPattern
  /-- `C`, which opens a competence. -/
  | competence
  /-- The tag `DC`. -/
  | dc
  /-- The tag `RDC`. -/
  | rdc
  /-- The tag `SDC`. -/
  | sdc
  /-- The tag `SRDC`. -/
  | srdc
  | nil
  | drives
  | elements
  | trigger
  | goal
  | hours
  | minutes
  | seconds
  | hz
  | pm
  /-- The unit `none`, plain milliseconds. -/
  | noUnit
  | documentation
  /-- A comparison operator. -/
  | predicate
  | float
  | int
  | name
  /-- A word that starts with a single quote. -/
  | string
  deriving DecidableEq, Repr

namespace Kind

/-- The word under which a kind is listed. -/
def label : Kind → String
  | .leftParen => "LPAREN"
  | .rightParen => "RPAREN"
  | .comment => "COMMENT"
  | .actionPattern => "AP"
  | .competence => "C"
  | .dc => "DC"
  | .rdc => "RDC"
  | .sdc => "SDC"
  | .srdc => "SRDC"
  | .nil => "NIL"
  | .drives => "DRIVES"
  | .elements => "ELEMENTS"
  | .trigger => "TRIGGER"
  | .goal => "GOAL"
  | .hours => "HOURS"
  | .minutes => "MINUTES"
  | .seconds => "SECONDS"
  | .hz => "HZ"
  | .pm => "PM"
  | .noUnit => "NONE"
  | .documentation => "DOCUMENTATION"
  | .predicate => "PREDICATE"
  | .float => "NUMFLOAT"
  | .int => "NUMINT"
  | .name => "NAME"
  | .string => "STRINGVALUE"

/-- Whether the kind is one of the four drive collection tags. -/
def isCollectionTag : Kind → Bool
  | .dc | .rdc | .sdc | .srdc => true
  | _ => false

end Kind

/-- A token. `line` counts from one and is the line on which the token ends. -/
structure Token where
  kind : Kind
  text : String
  line : Nat
  deriving DecidableEq, Repr

end SlipStack.Lap
