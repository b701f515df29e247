/-!
# Clocks

An agent reads its clock once per step, opens the step before and closes it after. A
stepped clock counts closed steps. A timetable shows given times, one after the other. A
real-time clock shows milliseconds and paces the steps: it waits before a step so that
steps start one period apart, judging by the average cost of the recent ones (`Pacer`).

Here real time passes only by waiting: `Clock` holds the nanoseconds that went by. The
operations of `Pacer` take the time as an argument and work with any.
-/

namespace SlipStack.Engine

/-- How an agent paces its steps. -/
inductive Discipline where
  /-- Time is the number of steps. -/
  | stepped
  /-- Steps start a number of milliseconds apart. -/
  | realTime (period : Nat)
  deriving DecidableEq, Repr

namespace Discipline

/-- The period of a real-time plan that does not name another, in milliseconds. -/
def defaultPeriod : Nat := 20

end Discipline

/-! ## Pacing -/

/-- The bookkeeping of a real-time clock, all in nanoseconds. -/
structure Pacer where
  period : Nat
  /-- How many step costs the average is taken over. -/
  window : Nat
  /-- When time zero was. -/
  base : Nat
  /-- When the open step was started. -/
  started : Option Nat
  /-- When the last step ended. -/
  ended : Option Nat
  /-- The costs of recent steps, the oldest first. -/
  costs : List Nat
  deriving DecidableEq, Repr

namespace Pacer

/-- The nanoseconds of a millisecond. -/
def millisecond : Nat := 1000000

/-- The number of step costs that the average is taken over by default. -/
def defaultWindow : Nat := 5

/-- A pacer without steps. The window holds one step at least. -/
def start (periodMs window now : Nat) : Pacer :=
  ⟨periodMs * millisecond, max window 1, now, none, none, []⟩

/-- The pacer without its steps, at time zero. -/
def restart (pacer : Pacer) (now : Nat) : Pacer :=
  { pacer with base := now, started := none, ended := none, costs := [] }

/-- Another period, and a fresh start. -/
def setPeriod (pacer : Pacer) (periodMs now : Nat) : Pacer :=
  { pacer with period := periodMs * millisecond }.restart now

-- The zero of the sum is the literal, not the one of Mathlib's hierarchy.
attribute [local instance (high + 1)] Zero.ofOfNat0

/-- What the sum of the costs is divided by: their number in 32 bits. -/
def divisor (pacer : Pacer) : Nat :=
  pacer.costs.length % UInt32.size

/-- The mean of the recorded costs, rounded down; zero if there is none. The program stops if the
divisor is zero though there are costs. Here the mean is zero then. -/
def averageCost (pacer : Pacer) : Nat :=
  if pacer.costs = [] then 0 else pacer.costs.sum / pacer.divisor

/-- How long the next step has to wait. -/
def pending (pacer : Pacer) (now : Nat) : Nat :=
  match pacer.ended with
  | none => 0
  | some ended => pacer.period - pacer.averageCost - (now - ended)

/-- A step starts. -/
def beginStep (pacer : Pacer) (now : Nat) : Pacer :=
  { pacer with started := some now }

/-- The costs with one more; of more than `window` the oldest are dropped. -/
def record (pacer : Pacer) (cost : Nat) : List Nat :=
  let costs := pacer.costs ++ [cost]
  costs.drop (costs.length - pacer.window)

/-- The open step ends. Without an open step only the time is noted. -/
def endStep (pacer : Pacer) (now : Nat) : Pacer :=
  match pacer.started with
  | some started =>
    { pacer with costs := pacer.record (now - started), started := none, ended := some now }
  | none => { pacer with ended := some now }

/-- Milliseconds since time zero. -/
def elapsed (pacer : Pacer) (now : Nat) : Int :=
  ((now - pacer.base) / millisecond : Nat)

/-- The period in milliseconds. -/
def periodMs (pacer : Pacer) : Nat := pacer.period / millisecond

end Pacer

/-! ## Clocks -/

/-- The clock of an agent. -/
inductive Clock where
  | stepped (steps : Int)
  /-- Given times; the last one stays. -/
  | timetable (times : List Int) (index : Nat)
  /-- A pacer, and the time that went by. -/
  | paced (pacer : Pacer) (now : Nat)
  deriving DecidableEq, Repr

namespace Clock

/-- The clock of a discipline, at time zero. -/
def ofDiscipline (discipline : Discipline) (window : Nat) : Clock :=
  match discipline with
  | .stepped => .stepped 0
  | .realTime period => .paced (.start period window 0) 0

/-- What the clock shows. -/
def time : Clock → Int
  | .stepped steps => steps
  | .timetable times index => (times[index]?.or times.getLast?).getD 0
  | .paced pacer now => pacer.elapsed now

/-- The clock at its start. -/
def reset : Clock → Clock
  | .stepped _ => .stepped 0
  | .timetable times _ => .timetable times 0
  | .paced pacer now => .paced (pacer.restart now) now

/-- Waits for the next step to be due, and opens it. -/
def beginStep : Clock → Clock
  | .paced pacer now =>
    -- Waiting is all that takes time.
    let now := now + pacer.pending now
    .paced (pacer.beginStep now) now
  | clock => clock

/-- Closes the step. -/
def endStep : Clock → Clock
  | .stepped steps => .stepped (steps + 1)
  | .timetable times index => .timetable times (index + 1)
  | .paced pacer now => .paced (pacer.endStep now) now

/-- Another period, where the clock has one. -/
def setPeriod (periodMs : Nat) : Clock → Clock
  | .paced pacer now => .paced (pacer.setPeriod periodMs now) now
  | clock => clock

end Clock

end SlipStack.Engine
