import SlipStack.Engine.World
import SlipStack.Sense.Literal

/-!
# Triggers and goals

A `Sense` is a capability together with the test that its reading has to pass. Triggers and
goals are conjunctions of senses, read in order up to the first that does not pass. An
absent one is the empty list: as a trigger it always holds, as a goal it is never reached.
-/

namespace SlipStack.Engine

/-- What is asked of a reading. -/
inductive Test where
  | truthy
  | compare (operator : Operator) (literal : Value)
  deriving DecidableEq, Repr

namespace Test

/-- Whether a reading passes. -/
def passes : Test → Value → Bool
  | .truthy, reading => reading.truthy
  | .compare operator literal, reading => reading.satisfies operator literal

/-- The test written as a value and an operator. Without operator it asks for equality;
without value, or with an unknown operator, for a truthy reading. -/
def ofText (value operator : Option String) : Test :=
  match value with
  | none => .truthy
  | some text =>
    if text = "" then .truthy
    else
      match operator with
      | none => .compare .eq (Value.ofLiteral text)
      | some operator =>
        match Operator.ofText? operator with
        | some operator => .compare operator (Value.ofLiteral text)
        | none => .truthy

end Test

/-- A sense with its test. -/
structure Sense where
  capability : Capability
  test : Test
  deriving DecidableEq, Repr

/-- A conjunction of senses; the empty one stands for an absent trigger or goal. -/
abbrev Trigger := List Sense

variable {ω ε : Type}

/-- Whether the reading of the sense passes its test. -/
def Sense.holds (world : World ω ε) (sense : Sense) (w : ω) : Except ε Bool × ω :=
  match world.read sense.capability w with
  | (.ok reading, w) => (.ok (sense.test.passes reading), w)
  | (.error e, w) => (.error e, w)

namespace Trigger

/-- Whether all senses pass. Nothing is read after the first that does not. -/
def holds (world : World ω ε) : Trigger → ω → Except ε Bool × ω
  | [], w => (.ok true, w)
  | sense :: rest, w =>
    match sense.holds world w with
    | (.ok true, w) => holds world rest w
    | (.ok false, w) => (.ok false, w)
    | (.error e, w) => (.error e, w)

/-- Whether the goal is present, and all its senses pass. -/
def reached (world : World ω ε) (goal : Trigger) (w : ω) : Except ε Bool × ω :=
  if goal = [] then (.ok false, w) else goal.holds world w

end Trigger

end SlipStack.Engine
