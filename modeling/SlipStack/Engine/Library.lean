import SlipStack.Engine.Trigger

/-!
# The library of a plan

A built plan defines competences and action patterns, and its elements and steps refer to
them. A `Library` holds the definitions. They never change while an agent runs; what changes
lives in nodes, of which every reference has one of its own (`SlipStack.Engine.Node`).

What refers to a definition does so by a key: by its name, as in the plan, or by its index in
the library (`SlipStack.Engine.Index`).
-/

namespace SlipStack.Engine

/-- A reference to a competence or an action pattern. -/
inductive NodeRef (κ : Type := String) where
  | competence (key : κ)
  | pattern (key : κ)
  deriving DecidableEq, Repr

/-- What an element fires. -/
inductive Target (κ : Type := String) where
  | action (capability : Capability)
  | node (ref : NodeRef κ)
  deriving DecidableEq, Repr

/-- An element of a competence. A negative `maxRetries` sets no limit. -/
structure Element (κ : Type := String) where
  name : String
  trigger : Trigger
  target : Target κ
  maxRetries : Int
  deriving DecidableEq, Repr

/-- A competence: a goal and elements in levels of priority. -/
structure Competence (κ : Type := String) where
  name : String
  goal : Trigger
  levels : List (List (Element κ))
  deriving DecidableEq, Repr

/-- A step of an action pattern. Only the last one names a competence. -/
inductive Step (κ : Type := String) where
  | action (capability : Capability)
  | sense (sense : Sense)
  | competence (key : κ)
  deriving DecidableEq, Repr

/-- The competence that steps end in, if they do. -/
def Step.trailing? {κ : Type} (steps : List (Step κ)) : Option (NodeRef κ) :=
  match steps.getLast? with
  | some (.competence key) => some (.competence key)
  | _ => none

/-- An action pattern: steps taken one after the other. -/
structure Pattern (κ : Type := String) where
  name : String
  steps : List (Step κ)
  deriving DecidableEq, Repr

/-- The definitions of a plan, in the order of declaration. -/
structure Library (κ : Type := String) where
  competences : List (Competence κ)
  patterns : List (Pattern κ)
  deriving DecidableEq, Repr

namespace Library

def competence? (library : Library) (name : String) : Option Competence :=
  library.competences.find? (·.name = name)

def pattern? (library : Library) (name : String) : Option Pattern :=
  library.patterns.find? (·.name = name)

/-- Whether there is a definition for the reference. -/
def defines (library : Library) : NodeRef → Bool
  | .competence name => (library.competence? name).isSome
  | .pattern name => (library.pattern? name).isSome

end Library

end SlipStack.Engine
