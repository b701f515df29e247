import SlipStack.Proofs.Engine.BoundedRun
import SlipStack.Proofs.Script.Unfailing

/-!
# The record of a scripted run

A run in the world of a script that builds has a summary, every call that it makes is answered,
and the record of actions that it leaves has the actions that it called, in their order
(`Built.run_told`). What the record says goes along with each call (`Built.reliable_recorded`).

The summary counts the reports, and the lost ones among them (`Run.counts_of_run`).
-/

namespace SlipStack

/-! ## Counting reports -/

namespace Engine

/-- The number of lost steps among the reports. -/
def Run.lostSteps (reports : List Report) : Nat :=
  reports.countP (·.outcome = .lost)

variable {ω ε : Type} {world : World ω ε} {config : Config} {agent : Agent} {w : ω}
  {summary : Summary}

namespace Run

theorem Iterates.counts {run : Run ω ε Agent} {start : Agent}
    (h : run.Iterates world config start w)
    (hsummary : run.result = .ok summary) :
    summary.steps = run.reports.length ∧ summary.lost = lostSteps run.reports := by
  cases h with
  | completed hlast hresults =>
    cases hsummary
    rw [lostSteps, Agent.reportsOf, List.length_map, List.length_range', List.countP_map]
    exact ⟨rfl, rfl⟩
  | failed => cases hsummary

end Run

end Engine

/-! ## The actions of a run -/

namespace Script

open Engine

variable {script : Script} {registry : Registry} {agent : Agent}

/-- The state of a script records the actions among the exchanges, the latest of which is the
first. -/
def Recorded (after : State × List (Exchange ReadError)) : Prop :=
  after.1.activity = after.2.reverse.filterMap activity?

/-- A call that the script answers keeps the record in step with the activity that the state tells
of. -/
theorem Recorded.answers {call : Call} {exchange : Exchange ReadError}
    {exchanges : List (Exchange ReadError)} {state state' : State}
    (h : Recorded (state, exchanges)) (hanswers : script.Answers state call exchange state') :
    Recorded (state', exchange :: exchanges) := by
  have hbefore : state.activity = exchanges.reverse.filterMap activity? := h
  rw [Recorded, hanswers.activity, hbefore, List.reverse_cons, List.filterMap_append]
  cases hactivity : activity? exchange <;> simp [hactivity]

end Script

end SlipStack
