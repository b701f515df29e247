import SlipStack.Engine.Clock

/-!
# Configuration of a run

How many steps an agent is run for, whether a lost step ends the run, and how the steps are
paced. The pace is the one that the plan asks for unless the configuration says otherwise.
-/

namespace SlipStack.Engine

/-- Who decides on the pace. -/
inductive Pace where
  | plan
  | stepped
  | realTime
  deriving DecidableEq, Repr

def Pace.toText : Pace → String
  | .plan => "plan"
  | .stepped => "stepped"
  | .realTime => "real_time"

/-- The pacing of a run. -/
structure Timer where
  pace : Pace
  /-- The period of a real-time run in milliseconds; without it the period of the plan
  stays. -/
  period : Option Nat
  /-- How many step costs the average is taken over. -/
  window : Nat
  deriving DecidableEq, Repr

namespace Timer

/-- The pacing that the plan asks for. -/
def default : Timer := ⟨.plan, none, Pacer.defaultWindow⟩

/-- The discipline of a run of a plan that asks for the given one. -/
def discipline (timer : Timer) (plan : Discipline) : Discipline :=
  let base : Discipline := match timer.pace, plan with
    | .plan, plan => plan
    | .stepped, _ => .stepped
    | .realTime, .realTime period => .realTime period
    | .realTime, .stepped => .realTime Discipline.defaultPeriod
  match base, timer.period with
  | .realTime _, some period => .realTime period
  | base, _ => base

/-- The clock of a run of a plan that asks for the given discipline. -/
def clock (timer : Timer) (plan : Discipline) : Clock :=
  .ofDiscipline (timer.discipline plan) timer.window

end Timer

/-- The configuration of a run. -/
structure Config where
  maxSteps : Nat
  /-- Whether a lost step ends the run. -/
  stopOnLost : Bool
  timer : Timer
  deriving DecidableEq, Repr

/-- What a configuration must not be. -/
inductive ConfigError where
  | noSteps
  | noPeriod
  | noWindow
  deriving DecidableEq, Repr

def ConfigError.message : ConfigError → String
  | .noSteps => "max_steps must be > 0"
  | .noPeriod => "timer.period_ms must be > 0"
  | .noWindow => "timer.window must be > 0"

namespace Config

/-- The configuration that holds where none is given. -/
def default : Config := ⟨1000, false, Timer.default⟩

/-- What is wrong with a configuration. -/
def error? (config : Config) : Option ConfigError :=
  if config.maxSteps = 0 then some .noSteps
  else if config.timer.period = some 0 then some .noPeriod
  else if config.timer.window = 0 then some .noWindow
  else none

/-- The configuration with some settings replaced. -/
def override (config : Config) (maxSteps : Option Nat) (stopOnLost : Option Bool) : Config :=
  { config with
    maxSteps := maxSteps.getD config.maxSteps
    stopOnLost := stopOnLost.getD config.stopOnLost }

end Config

end SlipStack.Engine
