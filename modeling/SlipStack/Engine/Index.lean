import SlipStack.Engine.Build

/-!
# References by index

The definitions of a plan are numbered in the order in which the plan declares them,
competences and action patterns each for themselves. `Index` has the numbers by name, and
`Index.library` is the library in which every reference is to a number. A name that has no
number is not found, which does not happen to what was built.
-/

namespace SlipStack.Engine

/-- The numbers of competences and action patterns, by name. -/
structure Index where
  competences : NameMap Nat
  patterns : NameMap Nat
  deriving DecidableEq, Repr

namespace Index

/-- Numbers names in their order, from zero. -/
def number (names : List String) : NameMap Nat :=
  .ofEntries names.zipIdx

/-- The numbers of the definitions of a plan. -/
def ofPlan (plan : Plan) : Index where
  competences := number (plan.competences.map (·.name))
  patterns := number (plan.patterns.map (·.name))

/-- The number under a name. -/
def find (numbers : NameMap Nat) (name : String) : Except BuildError Nat :=
  match numbers.get? name with
  | some number => .ok number
  | none => .error (.notFound name)

def ref (index : Index) : NodeRef → Except BuildError (NodeRef Nat)
  | .competence name => (find index.competences name).map .competence
  | .pattern name => (find index.patterns name).map .pattern

def target (index : Index) : Target → Except BuildError (Target Nat)
  | .action capability => .ok (.action capability)
  | .node ref => (index.ref ref).map .node

def element (index : Index) (element : Element) : Except BuildError (Element Nat) := do
  return ⟨element.name, element.trigger, ← index.target element.target, element.maxRetries⟩

def competence (index : Index) (competence : Competence) :
    Except BuildError (Competence Nat) := do
  let levels ← competence.levels.mapM fun level => level.mapM index.element
  return ⟨competence.name, competence.goal, levels⟩

def step (index : Index) : Step → Except BuildError (Step Nat)
  | .action capability => .ok (.action capability)
  | .sense sense => .ok (.sense sense)
  | .competence name => (find index.competences name).map .competence

def pattern (index : Index) (pattern : Pattern) : Except BuildError (Pattern Nat) := do
  return ⟨pattern.name, ← pattern.steps.mapM index.step⟩

def library (index : Index) (library : Library) : Except BuildError (Library Nat) := do
  let competences ← library.competences.mapM index.competence
  let patterns ← library.patterns.mapM index.pattern
  return ⟨competences, patterns⟩

end Index

end SlipStack.Engine
