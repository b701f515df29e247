import SlipStack.Proofs.Engine.Reached

/-!
# What happened on the way

Of the steps between two agents a log can be kept, with one entry for each step, failed or not,
while the clock may be replaced between them (`Agent.Recorded`). Every agent that can be reached
has a log over all resets (`Agent.Reaches.exists_recorded`).

An agent that was just built or just reset has a history of its own before it (`Agent.Starts`).
A log from there on without a reset (`Agent.Notes`) tells of all that happened since the last
reset, and every agent that can be reached has such a log too (`Agent.Reaches.exists_notes`).
-/

namespace SlipStack.Engine.Agent

/-- The agent is the built one, or one that was just reset. -/
inductive Starts (built : Agent) : Agent → Prop
  | built : Starts built built
  | reset {agent : Agent} : built.Reaches agent → Starts built agent.reset

/-- What is written down of a step before it is made. -/
abbrev Note (α : Type) := ∀ {ω ε : Type}, World ω ε → Agent → ω → α

/-- The second agent comes from the first by steps, in any world and any state of it, by changes
of the clock and, where they are allowed, by resets. The log has a note of each step, the latest
first. -/
inductive Recorded {α : Type} (note : Note α) (resets : Bool) (start : Agent) :
    List α → Agent → Prop
  | start : Recorded note resets start [] start
  | step {ω ε : Type} {log : List α} {agent : Agent} (world : World ω ε) (w : ω) :
      Recorded note resets start log agent →
        Recorded note resets start (note world agent w :: log) (agent.step world w).2.1
  | reset {log : List α} {agent : Agent} : resets = true →
      Recorded note resets start log agent → Recorded note resets start log agent.reset
  | setClock {log : List α} {agent : Agent} (clock : Clock) :
      Recorded note resets start log agent →
        Recorded note resets start log (agent.setClock clock)
  | setDiscipline {log : List α} {agent : Agent} (discipline : Discipline) :
      Recorded note resets start log agent →
        Recorded note resets start log (agent.setDiscipline discipline)

/-- The second agent comes from the first without a reset, and the log has a note of each step,
the latest first. -/
abbrev Notes {α : Type} (note : Note α) (start : Agent) (log : List α) (agent : Agent) : Prop :=
  Recorded note false start log agent

/-- Successful steps, one right after the other, with a note of each. -/
inductive Successes {α : Type} (note : Note α) (start : Agent) : List α → Agent → Prop
  | start : Successes note start [] start
  | step {ω ε : Type} {log : List α} {agent : Agent} {outcome : Outcome} (world : World ω ε)
      (w : ω) : Successes note start log agent → (agent.step world w).1 = .ok outcome →
      Successes note start (note world agent w :: log) (agent.step world w).2.1

variable {α : Type} {note : Note α} {resets : Bool} {built start agent : Agent} {log : List α}

/-- Where a stretch of the log can start, the built agent or one after a reset, is itself an agent
that can be reached. -/
theorem Starts.reaches (h : built.Starts start) : built.Reaches start := by
  cases h with
  | built => exact .start
  | reset hreaches => exact .reset hreaches

/-- What is recorded on the way to an agent makes no difference to where it can be reached
from. -/
theorem Recorded.reaches (h : Recorded note resets start log agent)
    (hstart : built.Reaches start) : built.Reaches agent := by
  induction h with
  | start => exact hstart
  | step world w _ ih => exact .step world w ih
  | reset _ _ ih => exact .reset ih
  | setClock clock _ ih => exact .setClock clock ih
  | setDiscipline discipline _ ih => exact .setDiscipline discipline ih

/-- Whatever is noted, there is a log of all steps. -/
theorem Reaches.exists_recorded (note : Note α) (h : start.Reaches agent) :
    ∃ log, Recorded note true start log agent := by
  induction h with
  | start => exact ⟨[], .start⟩
  | step world w _ ih =>
    obtain ⟨log, hlog⟩ := ih
    exact ⟨_, .step world w hlog⟩
  | reset _ ih =>
    obtain ⟨log, hlog⟩ := ih
    exact ⟨log, .reset rfl hlog⟩
  | setClock clock _ ih =>
    obtain ⟨log, hlog⟩ := ih
    exact ⟨log, .setClock clock hlog⟩
  | setDiscipline discipline _ ih =>
    obtain ⟨log, hlog⟩ := ih
    exact ⟨log, .setDiscipline discipline hlog⟩

/-- Of a record over resets, what was noted since the last one is a log of its own. -/
theorem Recorded.exists_notes (h : Recorded note true built log agent) :
    ∃ start since, built.Starts start ∧ start.Notes note since agent := by
  induction h with
  | start => exact ⟨built, [], .built, .start⟩
  | step world w _ ih =>
    obtain ⟨start, since, hstart, hnotes⟩ := ih
    exact ⟨start, _, hstart, .step world w hnotes⟩
  | @reset log agent _ hrecorded _ =>
    exact ⟨agent.reset, [], .reset (hrecorded.reaches .start), .start⟩
  | setClock clock _ ih =>
    obtain ⟨start, since, hstart, hnotes⟩ := ih
    exact ⟨start, since, hstart, .setClock clock hnotes⟩
  | setDiscipline discipline _ ih =>
    obtain ⟨start, since, hstart, hnotes⟩ := ih
    exact ⟨start, since, hstart, .setDiscipline discipline hnotes⟩

/-- Whatever is noted, there is a log since the last reset. -/
theorem Reaches.exists_notes (note : Note α) (h : built.Reaches agent) :
    ∃ start log, built.Starts start ∧ start.Notes note log agent := by
  obtain ⟨log, hrecorded⟩ := h.exists_recorded note
  exact hrecorded.exists_notes

end SlipStack.Engine.Agent
