import SlipStack.Engine.Clock
import SlipStack.Engine.Drive
import SlipStack.Plan.Basic

/-!
# Agents

An agent is a built plan with a clock. `Agent.step` evaluates its drive collection once at
the time that the clock shows. A failing capability ends the step before the clock is moved
on, and so does not take a place in the count of steps.
-/

namespace SlipStack.Engine

/-- A built plan and the clock that drives it. -/
structure Agent where
  /-- The name of the drive collection. -/
  name : String
  /-- The pace that the plan asks for, or that was last set. -/
  discipline : Discipline
  docstring : Option Plan.Docstring
  library : Library
  goal : Trigger
  levels : List (List Drive)
  clock : Clock
  deriving DecidableEq, Repr

namespace Agent

/-- The time that the clock of an agent shows. -/
def time (agent : Agent) : Int := agent.clock.time

/-- All counters, cursors and times as they were at first. -/
def reset (agent : Agent) : Agent :=
  { agent with
    levels := agent.levels.map fun level => level.map Drive.reset
    clock := agent.clock.reset }

/-- Another clock, which starts over. -/
def setClock (agent : Agent) (clock : Clock) : Agent :=
  { agent with clock := clock.reset }

/-- Another pace, with a clock of its own. -/
def setDiscipline (agent : Agent) (discipline : Discipline) : Agent :=
  { agent with discipline := discipline }.setClock
    (.ofDiscipline discipline Pacer.defaultWindow)

variable {ω ε : Type}

/-- Evaluates the drive collection once. -/
def step (world : World ω ε) (agent : Agent) (w : ω) : Except ε Outcome × Agent × ω :=
  let clock := agent.clock.beginStep
  match evaluate agent.library world agent.goal clock.time agent.levels w with
  -- The step stays open: its time is not counted.
  | (.error e, levels, w) => (.error e, { agent with levels, clock }, w)
  | (.ok outcome, levels, w) =>
    (.ok outcome, { agent with levels, clock := clock.endStep }, w)

end Agent

end SlipStack.Engine
