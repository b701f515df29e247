import SlipStack.Data.Basic
import SlipStack.Number.Numeral

/-!
# Reading values out of documents

Decoders take a document tree apart. Each answers `none` if the tree does not have the
shape it wants, or has no value where it is read. A record is read from a table by the names
of its fields, or from a list by their places; a variant is told by the text under a tag. An
optional field may be missing from a table or null, any other has to be there.

What nobody asked for is passed over, with different care: in a record of its own nothing is
asked of it, among settings it has to have a value, and beside a tag its whole numbers have
to fit 64 bits besides.
-/

namespace SlipStack.Data

def text? : Data → Option String
  | .text s => some s
  | _ => none

def bool? : Data → Option Bool
  | .bool b => some b
  | _ => none

/-- An integer that 64 bits hold in two's complement. -/
def int64? : Data → Option Int
  | .int n => if Numeral.fitsInt64 n then some n else none
  | _ => none

/-- Whether the integer is one that 64 bits hold, signed or unsigned. -/
def fits64 (n : Int) : Bool :=
  -2 ^ 63 ≤ n && n < 2 ^ 64

/-- A natural number that 64 bits hold. -/
def nat64? : Data → Option Nat
  | .int n => if 0 ≤ n && n < 2 ^ 64 then some n.toNat else none
  | _ => none

/-- A number, whole or not. -/
def real? : Data → Option Binary64
  | .int n => some (Binary64.ofInt n)
  | .real x => some x
  | _ => none

/-- A list whose items all decode. -/
def list? {α : Type} (item? : Data → Option α) : Data → Option (List α)
  | .list items => items.mapM item?
  | _ => none

/-- The word that names a variant without content: the word itself, or a table with the
word as its only field and `nothing` in it. -/
def word? (nothing : Data → Bool) : Data → Option String
  | .text s => some s
  | .table [(s, content)] => if nothing content then some s else none
  | _ => none

/-- A list or table with nothing in it. -/
def isEmpty : Data → Bool
  | .table [] => true
  | .list [] => true
  | _ => false

/-- What is stored under a name, unless it is stored twice. -/
def field? (fields : List (String × Data)) (name : String) : Option (Option Data) :=
  match fields.filter (·.1 = name) with
  | [] => some none
  | [(_, value)] => some (some value)
  | _ => none

/-- The fields of a record in a table, in the order of the given names; a missing one is
`none`. -/
def named? (names : List String) (fields : List (String × Data)) :
    Option (List (Option Data)) :=
  names.mapM (field? fields)

/-- The fields of a record: those of a table by their names, or exactly as many items of a
list by their places. -/
def record? (names : List String) : Data → Option (List (Option Data))
  | .table fields => named? names fields
  | .list items => if items.length = names.length then some (items.map some) else none
  | _ => none

/-- Whether a field among settings can stay unused. It must have a value, and a `closed` record
wants none. -/
def canIgnore (closed : Bool) (data : Data) : Bool :=
  !closed && data.isReadable fun _ => true

/-- The fields of a record among settings, where a list gives the first `least` fields at
least and nothing at all is asked of further items. -/
def settings? (names : List String) (least : Nat) (closed : Bool) :
    Data → Option (List (Option Data))
  | .table fields =>
    if fields.all fun (name, data) => names.contains name || canIgnore closed data then
      named? names fields
    else none
  | .list items =>
    if least ≤ items.length then
      some ((items.take names.length).map some ++
        List.replicate (names.length - items.length) none)
    else none
  | _ => none

/-- The tag of a variant and the rest of its fields. The tag may come last, so all of the
fields are read before it is known what they are for. -/
def tagged? (tag : String) (data : Data) : Option (String × Data) :=
  if !data.isReadable fits64 then none
  else
    match data with
    | .table fields =>
      match field? fields tag with
      | some (some (.text s)) => some (s, .table (fields.filter (·.1 ≠ tag)))
      | _ => none
    | .list (.text s :: rest) => some (s, .list rest)
    | _ => none

/-- A field that has to be there. -/
def required? {α : Type} (value? : Data → Option α) (field : Option Data) : Option α :=
  field.bind value?

/-- A field that may be missing or null. -/
def optional? {α : Type} (value? : Data → Option α) : Option Data → Option (Option α)
  | none => some none
  | some .null => some none
  | some data => (value? data).map some

/-- A field that stands for a default if it is missing. -/
def defaulted? {α : Type} (default : α) (value? : Data → Option α) : Option Data → Option α
  | none => some default
  | some data => value? data

end SlipStack.Data
