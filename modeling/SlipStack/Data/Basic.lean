import SlipStack.Number.Binary64

/-!
# Structured documents

Scripts, configurations, cases and recorded runs are documents: trees of named and listed
scalars. `Data` is the tree, whatever the notation it was written in. The fields of a table
keep the order in which they were written, and a notation that permits it may repeat a
name.

Whoever passes over a part of a document asks less of it than whoever reads it: a number
that is too large may stand where nobody looks. Such a part is `unreadable`, and
`isReadable` tells whether there is one in a tree.
-/

namespace SlipStack

/-- A document tree. -/
inductive Data where
  /-- An explicit absence. -/
  | null
  | bool (value : Bool)
  /-- A whole number, of any size. -/
  | int (value : Int)
  /-- A number written with a fraction or an exponent. -/
  | real (value : Binary64)
  | text (value : String)
  | list (items : List Data)
  | table (fields : List (String × Data))
  /-- A part that is written as the notation wants it, but that has no value. -/
  | unreadable

namespace Data

/-- Whether all of the tree has a value, and each of its whole numbers is one that `whole` admits.
-/
def isReadable (whole : Int → Bool) : Data → Bool
  | .null => true
  | .bool _ => true
  | .int n => whole n
  | .real _ => true
  | .text _ => true
  | .list items => areReadable items
  | .table fields => haveReadable fields
  | .unreadable => false
where
  areReadable : List Data → Bool
    | [] => true
    | x :: rest => isReadable whole x && areReadable rest
  haveReadable : List (String × Data) → Bool
    | [] => true
    | (_, x) :: rest => isReadable whole x && haveReadable rest

/-- A list of texts. -/
def texts (items : List String) : Data :=
  .list (items.map .text)

/-- The given value, or an explicit absence. -/
def ofOption {α : Type} (write : α → Data) : Option α → Data
  | some x => write x
  | none => .null

end Data

end SlipStack
