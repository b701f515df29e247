import SlipStack.Number.Decimal

/-!
# Sense readings

A sense reads a `Value`: a truth value, a 64-bit integer, a binary64 number or a text.
`Value.order` compares two of them, if their kinds are comparable. Integers and numbers
are: the integer is first rounded to binary64, so that distinct large integers may both
equal one number. An `Operator` judges the outcome of such a comparison.
-/

namespace SlipStack

/-- A reading of a sense, or what a reading is compared with. -/
inductive Value where
  | bool (value : Bool)
  | int (value : Int)
  | real (value : Binary64)
  | text (value : String)
  deriving DecidableEq, Repr

namespace Value

/-- Whether the value is neither false, zero nor empty. "Not a number" is truthy. -/
def truthy : Value → Bool
  | .bool b => b
  | .int n => n ≠ 0
  | .real x => !x.isZero
  | .text s => s ≠ ""

/-- The order of two values of comparable kinds. Texts are ordered by code points. -/
def order : Value → Value → Option Ordering
  | .int a, .int b => some (compare a b)
  | .int a, .real b => (Binary64.ofInt a).order b
  | .real a, .int b => a.order (Binary64.ofInt b)
  | .real a, .real b => a.order b
  | .bool a, .bool b => some (compare a b)
  | .text a, .text b => some (compare a b)
  | _, _ => none

/-- Whether the values are of one kind and equal. The two zeros are, "not a number" and itself are
not. -/
def same : Value → Value → Bool
  | .bool a, .bool b => a = b
  | .int a, .int b => a = b
  | .real a, .real b => a.order b = some .eq
  | .text a, .text b => a = b
  | _, _ => false

/-- The value written out. -/
def toText : Value → String
  | .bool true => "true"
  | .bool false => "false"
  | .int n => toString n
  | .real x => x.toText
  | .text s => s

end Value

/-- A comparison operator. -/
inductive Operator where
  | eq
  | ne
  | lt
  | gt
  | le
  | ge
  deriving DecidableEq, Repr

namespace Operator

/-- The operator that a text stands for. A single `=` stands for `==`. -/
def ofText? (text : String) : Option Operator :=
  if text = "==" || text = "=" then some .eq
  else if text = "!=" then some .ne
  else if text = "<" then some .lt
  else if text = ">" then some .gt
  else if text = "<=" then some .le
  else if text = ">=" then some .ge
  else none

/-- The operator written out. -/
def toText : Operator → String
  | .eq => "=="
  | .ne => "!="
  | .lt => "<"
  | .gt => ">"
  | .le => "<="
  | .ge => ">="

/-- Whether the operator holds of two values in the given order. Of incomparable values only `!=`
holds. -/
def holds : Operator → Option Ordering → Bool
  | .eq, order => order = some .eq
  | .ne, order => order ≠ some .eq
  | .lt, order => order = some .lt
  | .gt, order => order = some .gt
  | .le, order => order = some .lt || order = some .eq
  | .ge, order => order = some .gt || order = some .eq

/-- All operators. -/
def all : List Operator := [.eq, .ne, .lt, .gt, .le, .ge]

end Operator

/-- Whether `value operator literal` holds. -/
def Value.satisfies (value : Value) (operator : Operator) (literal : Value) : Bool :=
  operator.holds (value.order literal)

end SlipStack
