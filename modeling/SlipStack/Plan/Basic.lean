/-!
# Plans as written

A plan names its parts and refers to them by name; nothing is resolved yet. It has at most
one drive collection, which is its root, and any number of competences and action patterns.
Drive and competence elements stand in priority levels, the most urgent first.

Numbers of milliseconds and retry counts are integers of 64 bits where a plan was read from
text, and so is everything that reading produces; the types do not enforce it.
-/

namespace SlipStack

namespace Plan

/-- The three texts of a documentation block. -/
structure Docstring where
  title : String
  author : String
  memo : String
  deriving DecidableEq, Repr

/-- One condition of a goal or trigger. -/
inductive Condition where
  /-- The sense alone: its reading has to be truthy. -/
  | bare (name : String)
  /-- The sense in parentheses, possibly with a value and a comparison operator. -/
  | check (name : String) (value : Option String) (operator : Option String)
  deriving DecidableEq, Repr

/-- An element of the drive collection. `interval` is the least number of milliseconds
between two firings. -/
structure DriveElement where
  name : String
  trigger : Option (List Condition)
  target : String
  interval : Option Int
  deriving DecidableEq, Repr

/-- The drive collection. `tag` tells how it is paced. -/
structure DriveCollection where
  tag : String
  name : String
  goal : Option (List Condition)
  levels : List (List DriveElement)
  deriving DecidableEq, Repr

/-- An element of a competence. A negative `maxRetries` sets no limit. -/
structure CompetenceElement where
  name : String
  trigger : Option (List Condition)
  target : String
  maxRetries : Int
  deriving DecidableEq, Repr

/-- A competence. The engine makes no use of `time`. -/
structure Competence where
  name : String
  time : Option Int
  goal : Option (List Condition)
  levels : List (List CompetenceElement)
  deriving DecidableEq, Repr

/-- A step of an action pattern. -/
inductive Step where
  /-- A bare name: a sense, an action or, in the last place, a competence. -/
  | named (name : String)
  /-- A sense in parentheses. -/
  | sense (name : String) (value : Option String) (operator : Option String)
  deriving DecidableEq, Repr

/-- An action pattern. The engine makes no use of `time`. -/
structure ActionPattern where
  name : String
  time : Option Int
  steps : List Step
  deriving DecidableEq, Repr

end Plan

/-- A plan as written, each kind of part in the order of declaration. -/
structure Plan where
  docstring : Option Plan.Docstring
  collection : Option Plan.DriveCollection
  competences : List Plan.Competence
  patterns : List Plan.ActionPattern
  deriving DecidableEq, Repr

namespace Plan

/-- The plan without parts. -/
def empty : Plan :=
  ⟨none, none, [], []⟩

/-- The name of the part a plan starts from: its drive collection, or else its first
competence, or else its first action pattern. -/
def rootName? (plan : Plan) : Option String :=
  match plan.collection, plan.competences, plan.patterns with
  | some collection, _, _ => some collection.name
  | none, competence :: _, _ => some competence.name
  | none, [], pattern :: _ => some pattern.name
  | none, [], [] => none

-- The zero of the sum is the literal, not the one of Mathlib's hierarchy.
attribute [local instance (high + 1)] Zero.ofOfNat0

/-- The number of drive elements, over all levels. -/
def DriveCollection.size (collection : DriveCollection) : Nat :=
  (collection.levels.map List.length).sum

end Plan

end SlipStack
