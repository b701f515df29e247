import SlipStack.Engine.Agent
import SlipStack.Engine.Config

/-!
# Runs

A run takes an agent through steps until it wins, loses (if the configuration minds) or has
made the greatest number of steps allowed. Each step made is reported. A failing capability
ends the run, and the reports up to it stay.
-/

namespace SlipStack.Engine

/-- Why a run ended. -/
inductive Stop where
  | won
  | lost
  | stepLimit
  deriving DecidableEq, Repr

namespace Stop

def toText : Stop → String
  | .won => "won"
  | .lost => "lost"
  | .stepLimit => "step_limit"

def all : List Stop := [.won, .lost, .stepLimit]

/-- The reason that a text stands for. -/
def ofText? (text : String) : Option Stop :=
  all.find? (·.toText = text)

end Stop

/-- A step made: its number from one, what the clock showed afterwards, and its outcome. -/
structure Report where
  step : Nat
  time : Int
  outcome : Outcome
  deriving DecidableEq, Repr

/-- The summary of a run that no failure ended. -/
structure Summary where
  steps : Nat
  lost : Nat
  stop : Stop
  deriving DecidableEq, Repr

/-- Why a run has no summary. -/
inductive RunError (ε : Type) where
  | config (error : ConfigError)
  | capability (error : ε)

/-- A run that has ended, in a world with states `ω`. What makes the steps is of type `α`. -/
structure Run (ω ε α : Type) where
  reports : List Report
  result : Except (RunError ε) Summary
  agent : α
  world : ω

namespace Run

/-- The reason to end a run after a step of the given outcome, if it is one. -/
def stopAfter (stopOnLost : Bool) : Outcome → Option Stop
  | .won => some .won
  | .lost => if stopOnLost then some .lost else none
  | .followed => none

/-- What a run counts: the steps made, and those among them that were lost. -/
structure Tally where
  made : Nat
  lost : Nat
  deriving DecidableEq, Repr

namespace Tally

def zero : Tally := ⟨0, 0⟩

/-- The tally with one more step, which came to the outcome. -/
def count (tally : Tally) (outcome : Outcome) : Tally :=
  ⟨tally.made + 1, if outcome = .lost then tally.lost + 1 else tally.lost⟩

@[simp]
theorem made_count (tally : Tally) (outcome : Outcome) :
    (tally.count outcome).made = tally.made + 1 :=
  rfl

def summary (tally : Tally) (stop : Stop) : Summary :=
  ⟨tally.made, tally.lost, stop⟩

end Tally

variable {ω ε α : Type}

/-- Makes up to `remaining` further steps after those counted and reported, the latest
report first. -/
def proceed (step : α → ω → Except ε Outcome × α × ω) (time : α → Int) (stopOnLost : Bool) :
    Nat → Tally → List Report → α → ω → Run ω ε α
  | 0, tally, reports, agent, w =>
    ⟨reports.reverse, .ok (tally.summary .stepLimit), agent, w⟩
  | remaining + 1, tally, reports, agent, w =>
    match step agent w with
    | (.error e, agent, w) => ⟨reports.reverse, .error (.capability e), agent, w⟩
    | (.ok outcome, agent, w) =>
      let tally := tally.count outcome
      let reports := ⟨tally.made, time agent, outcome⟩ :: reports
      -- The step that ends a run is among those counted and reported.
      match stopAfter stopOnLost outcome with
      | some stop => ⟨reports.reverse, .ok (tally.summary stop), agent, w⟩
      | none => Run.proceed step time stopOnLost remaining tally reports agent w

end Run

variable {ω ε : Type}

/-- Runs an agent. Its clock is replaced by the one that the configuration asks for. -/
def Agent.run (world : World ω ε) (config : Config) (agent : Agent) (w : ω) : Run ω ε Agent :=
  match config.error? with
  | some e => ⟨[], .error (.config e), agent, w⟩
  | none =>
    Run.proceed (Agent.step world) Agent.time config.stopOnLost config.maxSteps .zero []
      (agent.setClock (config.timer.clock agent.discipline)) w

end SlipStack.Engine
