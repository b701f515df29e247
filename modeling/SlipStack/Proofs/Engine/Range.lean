import SlipStack.Proofs.Engine.Budget
import SlipStack.Proofs.Engine.Intervals
import SlipStack.Proofs.Sense.Literals

/-!
# Clocks and counters in 64 bits

Under stepped clocks no clock, no retry counter and no time of a last firing is beyond the number
of steps that were tried so far (`Agent.Within`): a step adds one at most to each of them, and
whatever starts over starts from zero. The time of a last firing may be ahead of a clock that
started over, but not by more than that number. So the next step stays in 64 bits as long as fewer
than `2 ^ 62` steps were tried.
-/

namespace SlipStack.Engine

open Numeral

variable {ω ε : Type}

/-- The number of steps that a run tried. A step in which a capability fails is not reported. -/
def Run.tried (run : Run ω ε Agent) : Nat :=
  match run.result with
  | .error (.capability _) => run.reports.length + 1
  | _ => run.reports.length

namespace Agent

/-- The agent comes from a built one by so many steps, all under a stepped clock, failed ones
included. It may be reset or get a new stepped clock at any time. The clock of the built agent is
the one of its plan, under which no step is made if it is another. -/
inductive Stepped (built : Agent) : Nat → Agent → Prop
  | built : Stepped built 0 built
  | step {ω ε : Type} {tried : Nat} {agent : Agent} {steps : Int} (world : World ω ε) (w : ω) :
      agent.clock = .stepped steps → Stepped built tried agent →
        Stepped built (tried + 1) (agent.step world w).2.1
  | reset {tried : Nat} {agent : Agent} :
      Stepped built tried agent → Stepped built tried agent.reset
  | setClock {tried : Nat} {agent : Agent} (steps : Int) :
      Stepped built tried agent → Stepped built tried (agent.setClock (.stepped steps))
  | setDiscipline {tried : Nat} {agent : Agent} :
      Stepped built tried agent → Stepped built tried (agent.setDiscipline .stepped)

variable {built agent : Agent} {tried : Nat} {steps : Int}

/-- An agent that comes by steps under the stepped clock, with their number noted, is among those
that can be reached. -/
theorem Stepped.reaches (h : built.Stepped tried agent) : built.Reaches agent := by
  induction h with
  | built => exact .start
  | step world w _ _ ih => exact .step world w ih
  | reset _ ih => exact .reset ih
  | setClock steps _ ih => exact .setClock _ ih
  | setDiscipline _ ih => exact .setDiscipline _ ih

/-- The clock after a step under a stepped clock, which a failed step leaves as it was. -/
theorem clock_step (hclock : agent.clock = .stepped steps) (world : World ω ε) (w : ω) :
    (agent.step world w).2.1.clock = .stepped steps ∨
      (agent.step world w).2.1.clock = .stepped (steps + 1) := by
  rcases hstep : agent.step world w with ⟨result, after, w'⟩
  cases result with
  | error e => exact .inl (by rw [clock_of_step_error hstep, hclock]; rfl)
  | ok outcome => exact .inr (by rw [clock_of_step_ok hstep, hclock]; rfl)

/-! ## Runs -/

/-- The steps of a run with a stepped clock, after those reported. -/
theorem Stepped.proceed (world : World ω ε) (stopOnLost : Bool) {remaining : Nat}
    {tally : Run.Tally} {reports : List Report} {agent : Agent} {steps : Int} {w : ω}
    (hclock : agent.clock = .stepped steps) (h : built.Stepped (tried + reports.length) agent) :
    built.Stepped
      (tried + (Run.proceed (Agent.step world) Agent.time stopOnLost remaining tally reports agent
        w).tried)
      (Run.proceed (Agent.step world) Agent.time stopOnLost remaining tally reports agent
        w).agent := by
  -- A step that succeeds is reported and one that fails is not, but both were tried.
  induction remaining generalizing tally reports agent steps w with
  | zero => simpa [Run.proceed, Run.tried] using h
  | succ remaining ih =>
    have hstep := h.step world w hclock
    have hafter := clock_step hclock world w
    rw [Run.proceed]
    rcases hresult : agent.step world w with ⟨result, after, w'⟩
    rw [hresult] at hstep hafter
    cases result with
    | error e => simpa [Run.tried, Nat.add_assoc] using hstep
    | ok outcome =>
      dsimp only at hstep hafter ⊢
      split
      · simpa [Run.tried, Nat.add_assoc] using hstep
      · rcases hafter with hsame | hnext
        · exact ih hsame (by simpa [Nat.add_assoc] using hstep)
        · exact ih hnext (by simpa [Nat.add_assoc] using hstep)

/-- A run with a stepped clock is made of a new clock and of the steps that it tried. -/
theorem Stepped.run (world : World ω ε) (config : Config) (w : ω)
    (hstepped : config.timer.discipline agent.discipline = .stepped)
    (h : built.Stepped tried agent) :
    built.Stepped (tried + (agent.run world config w).tried) (agent.run world config w).agent := by
  have hclock : config.timer.clock agent.discipline = .stepped 0 := by
    rw [Timer.clock, hstepped]
    rfl
  rw [Agent.run, hclock]
  split
  · exact h
  · exact (h.setClock 0).proceed world _ rfl

/-! ## The bound -/

/-- The clock, the times of the last firings and the retries are within a number of steps. -/
structure Within (tried : Nat) (agent : Agent) : Prop where
  clock : ∀ steps, agent.clock = .stepped steps → 0 ≤ steps ∧ steps ≤ tried
  lastFired : ∀ drive ∈ agent.levels.flatten,
    Drive.neverFired ≤ drive.lastFired ∧ drive.lastFired ≤ tried
  retries : ∀ place state, agent.elementAt? place = some state → state.retries ≤ tried

theorem Starts.steps_eq_zero {start : Agent} (hbuilt : built.AsBuilt) (h : built.Starts start)
    (hclock : start.clock = .stepped steps) : steps = 0 := by
  cases h with
  | built =>
    rw [hbuilt.clock] at hclock
    cases hdiscipline : built.discipline with
    | stepped =>
      rw [hdiscipline] at hclock
      cases hclock
      rfl
    | realTime period =>
      rw [hdiscipline] at hclock
      cases hclock
  | @reset agent =>
    rw [Agent.reset] at hclock
    cases hold : agent.clock with
    | stepped old =>
      rw [hold] at hclock
      cases hclock
      rfl
    | timetable | paced =>
      rw [hold] at hclock
      cases hclock

/-- Where a stretch starts nothing has been counted yet, so that every number is within the bounds
for no step at all. -/
theorem Starts.within {start : Agent} (hbuilt : built.AsBuilt) (h : built.Starts start) :
    start.Within 0 := by
  refine ⟨fun steps hclock => ?_, fun drive hdrive => ?_, fun place state hstate => ?_⟩
  · have hzero := h.steps_eq_zero hbuilt hclock
    omega
  · obtain ⟨position, hposition⟩ := List.mem_iff_getElem?.1 hdrive
    have hnever : drive.lastFired = Drive.neverFired :=
      (h.timed hbuilt).lastFired position drive hposition
    rw [hnever]
    decide
  · have hnone := (h.counts hbuilt).retries place state hstate
    rw [hnone]
    exact Nat.le_refl 0

/-- The bounds grow with the number of steps tried; what is within the smaller ones is within the
larger. -/
theorem Within.mono {more : Nat} (h : agent.Within tried) (hle : tried ≤ more) :
    agent.Within more := by
  refine ⟨fun steps hclock => ?_, fun drive hdrive => ?_, fun place state hstate => ?_⟩
  · have := h.clock steps hclock
    omega
  · have := h.lastFired drive hdrive
    omega
  · exact (h.retries place state hstate).trans hle

/-- Nothing grows by more than one in a step. -/
theorem Within.step (h : agent.Within tried)
    (hsound : ∀ drive ∈ agent.levels.flatten, drive.Sound agent.library)
    (hclock : agent.clock = .stepped steps) (world : World ω ε) (w : ω) :
    (agent.step world w).2.1.Within (tried + 1) := by
  have hbound := h.clock steps hclock
  refine ⟨fun later hlater => ?_, fun drive hdrive => ?_, fun place state hstate => ?_⟩
  · rcases clock_step hclock world w with hsame | hnext
    · cases hsame.symm.trans hlater
      omega
    · cases hnext.symm.trans hlater
      omega
  · obtain ⟨position, hposition⟩ := List.mem_iff_getElem?.1 hdrive
    obtain ⟨before, hbefore, -, ⟨-, hfired, -⟩ | ⟨-, hkept⟩⟩ := step_firing world w hposition
    · -- A drive element that is fired takes what the clock shows.
      have hnow : drive.lastFired = steps := by
        rw [hfired, hclock]
        rfl
      rw [hnow, Drive.neverFired]
      omega
    · have hearlier := h.lastFired before (List.mem_of_getElem? hbefore)
      rw [hkept]
      omega
  · cases hold : agent.elementAt? place with
    | none =>
      rw [retries_step hsound world w hold hstate]
      exact Nat.zero_le _
    | some old =>
      have hearlier := h.retries place old hold
      rw [elementAt?_step hsound world w hold] at hstate
      cases hstate
      split
      · exact Nat.succ_le_succ hearlier
      · omega

/-- A new clock takes nothing back from drive elements and retries. -/
theorem Within.setClock (h : agent.Within tried) (steps : Int) :
    (agent.setClock (.stepped steps)).Within tried := by
  refine ⟨fun later hlater => ?_, h.lastFired, h.retries⟩
  cases hlater
  omega

/-- The run lemma: time, last firings, retries and places stay within bounds that grow by one with
each step tried. -/
theorem Stepped.within (hbuilt : built.AsBuilt) (h : built.Stepped tried agent) :
    agent.Within tried := by
  induction h with
  | built => exact Starts.built.within hbuilt
  | step world w hclock hstepped ih => exact ih.step (hstepped.reaches.sound hbuilt) hclock world w
  | reset hstepped => exact ((Starts.reset hstepped.reaches).within hbuilt).mono (Nat.zero_le _)
  | setClock steps _ ih => exact ih.setClock steps
  | setDiscipline _ ih => exact ⟨(ih.setClock 0).clock, ih.lastFired, ih.retries⟩

/-! ## The next step -/

/-- The clock and all counters are below `2 ^ 62`, and the next step stays in 64 bits. -/
structure InRange (agent : Agent) : Prop where
  clock : ∀ steps, agent.clock = .stepped steps → 0 ≤ steps ∧ steps < 2 ^ 62
  lastFired : ∀ drive ∈ agent.levels.flatten,
    -100000 ≤ drive.lastFired ∧ drive.lastFired < 2 ^ 62
  retries : ∀ place state, agent.elementAt? place = some state → state.retries < 2 ^ 62
  /-- The count of steps that the clock comes to. -/
  counted : ∀ steps, agent.clock = .stepped steps →
    fitsInt64 agent.clock.beginStep.endStep.time
  /-- The count of retries that an element comes to. -/
  spent : ∀ place state, agent.elementAt? place = some state →
    fitsInt64 state.spend.retries
  /-- What an interval is compared with. -/
  since : ∀ steps, agent.clock = .stepped steps → ∀ drive ∈ agent.levels.flatten,
    fitsInt64 (agent.clock.beginStep.time - drive.lastFired)

/-- As long as fewer than 2^62 steps were tried, the bounds lie inside the machine integers, and
no difference of two of them overflows. -/
theorem Within.inRange (h : agent.Within tried) (htried : tried < 2 ^ 62) : agent.InRange := by
  -- Each bound is one of `Within`, with the offset of elements never fired where firings are
  -- concerned.
  refine ⟨fun steps hclock => ?_, fun drive hdrive => ?_, fun place state hstate => ?_,
    fun steps hclock => ?_, fun place state hstate => ?_, fun steps hclock drive hdrive => ?_⟩
  · have := h.clock steps hclock
    omega
  · have := h.lastFired drive hdrive
    rw [Drive.neverFired] at this
    omega
  · exact (h.retries place state hstate).trans_lt htried
  · have hsteps := h.clock steps hclock
    have htime : agent.clock.beginStep.endStep.time = steps + 1 := by
      rw [hclock]
      rfl
    rw [htime, Literal.fitsInt64_iff]
    omega
  · have hretries := h.retries place state hstate
    have hspent : state.spend.retries = state.retries + 1 := rfl
    rw [hspent, Literal.fitsInt64_iff]
    omega
  · have hsteps := h.clock steps hclock
    have hlast := h.lastFired drive hdrive
    have htime : agent.clock.beginStep.time = steps := by
      rw [hclock]
      rfl
    rw [Drive.neverFired] at hlast
    rw [htime, Literal.fitsInt64_iff]
    omega

end Agent

/-- Whatever was reset and however often the clock started over, fewer than `2 ^ 62` steps under
stepped clocks keep the clock, the retries and the times of the last firings below `2 ^ 62`, and so
the next step in 64 bits. No interval and no limit on retries matters for this. A run with a
stepped clock counts with the steps that it tried. -/
theorem stepped_in_range {registry : Registry} {plan : Plan} {built agent : Agent} {tried : Nat}
    (hbuild : plan.build registry = .ok built) (h : built.Stepped tried agent)
    (htried : tried < 2 ^ 62) :
    agent.InRange ∧ ∀ {ω ε : Type} (world : World ω ε) (config : Config) (w : ω),
      config.timer.discipline agent.discipline = .stepped →
        built.Stepped (tried + (agent.run world config w).tried)
          (agent.run world config w).agent :=
  ⟨(h.within (build_asBuilt hbuild)).inRange htried, fun world config w hstepped =>
    h.run world config w hstepped⟩

/-- In `restarted` the last firing is ahead of the clock that started over. -/
theorem stepped_in_range_restarted :
    (beatPlan 0).build drums = .ok (beater 0) ∧ (beater 0).Stepped 3 restarted ∧ 3 < 2 ^ 62 ∧
      restarted.levels.flatten.map
        (fun drive => restarted.clock.beginStep.time - drive.lastFired) = [-2] ∧
      restarted.InRange ∧ ∀ {ω ε : Type} (world : World ω ε) (config : Config) (w : ω),
        config.timer.discipline restarted.discipline = .stepped →
          (beater 0).Stepped (3 + (restarted.run world config w).tried)
            (restarted.run world config w).agent := by
  have hstepped : (beater 0).Stepped 3 restarted :=
    .setDiscipline (.step idle () rfl (.step idle () rfl (.step idle () rfl .built)))
  exact ⟨build_beatPlan 0, hstepped, by decide, rfl,
    stepped_in_range (build_beatPlan 0) hstepped (by decide)⟩

end SlipStack.Engine
