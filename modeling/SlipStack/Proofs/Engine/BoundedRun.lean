import Mathlib.Order.Nat
import SlipStack.Proofs.Engine.Intervals

/-!
# Runs are bounded iterations of steps

The steps of an agent are numbered from one, and each goes on where the one before ended
(`Agent.after`, `Agent.resultOf`). A run makes them up to the first that ends it
(`Run.EndsAt`), or up to the first that fails, and reports those that succeed: that is
`Run.Iterates`. `Run.Made` is what the loop maintains.
-/

namespace SlipStack.Engine

variable {ω ε : Type} {world : World ω ε}

/-! ## Steps by their numbers -/

namespace Agent

/-- The agent and its world after a number of steps, whatever they came to. -/
def after (world : World ω ε) (agent : Agent) (w : ω) : Nat → Agent × ω
  | 0 => (agent, w)
  | n + 1 =>
    let (agent, w) := agent.after world w n
    (agent.step world w).2

/-- What the step of a number comes to, where the first has the number one. -/
def resultOf (world : World ω ε) (agent : Agent) (w : ω) (number : Nat) : Except ε Outcome :=
  let (agent, w) := agent.after world w (number - 1)
  (agent.step world w).1

/-- The reports of the first steps, if they have the given outcomes. -/
def reportsOf (world : World ω ε) (agent : Agent) (w : ω) (outcomes : Nat → Outcome)
    (steps : Nat) : List Report :=
  (List.range' 1 steps).map fun number =>
    ⟨number, (agent.after world w number).1.time, outcomes number⟩

variable {start agent agent' : Agent} {w w₁ w₂ : ω} {made : Nat} {result : Except ε Outcome}

/-- The agent after one more step is what the step makes of the agent before it. -/
theorem after_succ (h : start.after world w made = (agent, w₁))
    (hstep : agent.step world w₁ = (result, agent', w₂)) :
    start.after world w (made + 1) = (agent', w₂) := by
  rw [after, h]
  exact congrArg Prod.snd hstep

theorem resultOf_succ (h : start.after world w made = (agent, w₁))
    (hstep : agent.step world w₁ = (result, agent', w₂)) :
    start.resultOf world w (made + 1) = result := by
  rw [resultOf, Nat.add_sub_cancel, h]
  exact congrArg Prod.fst hstep

/-- The reports of one more step are the earlier ones and that of the step, with the time that the
agent shows after it. -/
theorem reportsOf_succ (world : World ω ε) (start : Agent) (w : ω) (outcomes : Nat → Outcome)
    (steps : Nat) :
    start.reportsOf world w outcomes (steps + 1) =
      start.reportsOf world w outcomes steps ++
        [⟨steps + 1, (start.after world w (steps + 1)).1.time, outcomes (steps + 1)⟩] := by
  rw [reportsOf, reportsOf, List.range'_1_concat, List.map_append, Nat.add_comm 1 steps]
  rfl

/-- A stepped clock shows how many steps there were, as long as none fails. -/
theorem clock_after (hclock : start.clock = .stepped 0) {steps : Nat} {outcomes : Nat → Outcome}
    (h : ∀ number, 1 ≤ number → number ≤ steps →
      start.resultOf world w number = .ok (outcomes number)) :
    (start.after world w steps).1.clock = .stepped steps := by
  induction steps with
  | zero => exact hclock
  | succ steps ih =>
    have hbefore := ih fun number hfirst hlast => h number hfirst (by omega)
    rcases hafter : start.after world w steps with ⟨agent, w₁⟩
    rcases hstep : agent.step world w₁ with ⟨result, agent', w₂⟩
    have hresult := h (steps + 1) (by omega) (Nat.le_refl _)
    rw [resultOf_succ hafter hstep] at hresult
    subst hresult
    rw [hafter] at hbefore
    rw [after_succ hafter hstep, clock_of_step_ok hstep, hbefore]
    rfl

end Agent

/-! ## The last step -/

namespace Run

/-- The step of a number ends a run, where steps have the given results. -/
def EndsAt (config : Config) (results : Nat → Except ε Outcome) (number : Nat) : Prop :=
  results number = .ok .won ∨ (results number = .ok .lost ∧ config.stopOnLost) ∨
    number = config.maxSteps

/-- The number is that of the first step that ends a run. -/
def IsLast (config : Config) (results : Nat → Except ε Outcome) (last : Nat) : Prop :=
  IsLeast {number | 1 ≤ number ∧ EndsAt config results number} last

/-- The run is what comes of the steps of an agent up to the last one, or else up to the first
that fails. -/
inductive Iterates (world : World ω ε) (config : Config) (start : Agent) (w : ω) :
    Run ω ε Agent → Prop
  | completed {outcomes : Nat → Outcome} {last : Nat} :
      IsLast config (start.resultOf world w) last →
      (∀ number, 1 ≤ number → number ≤ last →
        start.resultOf world w number = .ok (outcomes number)) →
      Iterates world config start w
        { reports := start.reportsOf world w outcomes last
          result := .ok
            { steps := last
              lost := (List.range' 1 last).countP fun number => outcomes number = .lost
              stop :=
                if outcomes last = .won then .won
                else if outcomes last = .lost ∧ config.stopOnLost then .lost
                else .stepLimit }
          agent := (start.after world w last).1
          world := (start.after world w last).2 }
  | failed {outcomes : Nat → Outcome} {last failing : Nat} {e : ε} :
      IsLast config (start.resultOf world w) last → 1 ≤ failing → failing ≤ last →
      (∀ number, 1 ≤ number → number < failing →
        start.resultOf world w number = .ok (outcomes number)) →
      start.resultOf world w failing = .error e →
      Iterates world config start w
        { reports := start.reportsOf world w outcomes (failing - 1)
          result := .error (.capability e)
          agent := (start.after world w failing).1
          world := (start.after world w failing).2 }

variable {config : Config} {start agent agent' : Agent} {w w₁ w₂ : ω} {outcomes : Nat → Outcome}
  {results : Nat → Except ε Outcome} {last remaining : Nat} {tally : Tally}
  {reports : List Report}

/-- If steps are allowed at all, how many are has no part in whether a configuration is valid. -/
theorem error?_eq_none_of_le (hvalid : config.error? = none) {more : Nat}
    (hmore : config.maxSteps ≤ more) : Config.error? { config with maxSteps := more } = none := by
  have hmax : config.maxSteps ≠ 0 := by
    intro hzero
    simp [Config.error?, hzero] at hvalid
  rw [Config.error?, if_neg (by dsimp only; omega)]
  rwa [Config.error?, if_neg hmax] at hvalid

theorem endsAt_maxSteps (hvalid : config.error? = none) (results : Nat → Except ε Outcome) :
    1 ≤ config.maxSteps ∧ EndsAt config results config.maxSteps := by
  have hmax : config.maxSteps ≠ 0 := by
    intro hzero
    simp [Config.error?, hzero] at hvalid
  exact ⟨Nat.one_le_iff_ne_zero.2 hmax, .inr (.inr rfl)⟩

/-- A valid configuration ends a run: the most steps that it allows are at least one, so there is
a first step at which the run can end. -/
theorem exists_isLast (hvalid : config.error? = none) (results : Nat → Except ε Outcome) :
    ∃ last, IsLast config results last := by
  classical
  have hends : ∃ number, 1 ≤ number ∧ EndsAt config results number :=
    ⟨config.maxSteps, endsAt_maxSteps hvalid results⟩
  exact ⟨Nat.find hends, Nat.isLeast_find hends⟩

/-! ## The loop -/

/-- The reason that a last step of the given outcome is, but for the limit on steps. -/
theorem stopAfter_eq (stopOnLost : Bool) (outcome : Outcome) :
    (stopAfter stopOnLost outcome).getD .stepLimit =
      if outcome = .won then .won else if outcome = .lost ∧ stopOnLost then .lost
      else .stepLimit := by
  cases outcome <;> cases stopOnLost <;> rfl

/-- A step that ends a run does so by its outcome or by the limit. -/
theorem endsAt_iff (config : Config) {number : Nat} {outcome : Outcome}
    (h : results number = .ok outcome) :
    EndsAt config results number ↔
      (stopAfter config.stopOnLost outcome).isSome ∨ number = config.maxSteps := by
  rw [EndsAt, h]
  cases outcome <;> cases config.stopOnLost <;> simp [stopAfter]

/-- What the loop maintains: the steps that it has made, with the tally and the reports of
them. -/
structure Made (world : World ω ε) (start : Agent) (w : ω) (outcomes : Nat → Outcome)
    (tally : Tally) (reports : List Report) (agent : Agent) (w₁ : ω) : Prop where
  after : start.after world w tally.made = (agent, w₁)
  reports : reports.reverse = start.reportsOf world w outcomes tally.made
  lost : tally.lost = (List.range' 1 tally.made).countP fun number => outcomes number = .lost
  results : ∀ number, 1 ≤ number → number ≤ tally.made →
    start.resultOf world w number = .ok (outcomes number)

/-- The loop invariant of a run is kept by a step that succeeds: tally and reports grow by that
step and tell of the iterated steps as before. -/
theorem Made.step {outcome : Outcome} (h : Made world start w outcomes tally reports agent w₁)
    (hstep : agent.step world w₁ = (.ok outcome, agent', w₂))
    (houtcome : outcomes (tally.made + 1) = outcome) :
    Made world start w outcomes (tally.count outcome)
      (⟨tally.made + 1, agent'.time, outcome⟩ :: reports) agent' w₂ := by
  have hafter := Agent.after_succ h.after hstep
  refine ⟨hafter, ?_, ?_, fun number hfirst hlast => ?_⟩
  · rw [List.reverse_cons, h.reports, Tally.count, Agent.reportsOf_succ, hafter, houtcome]
  · simp only [Tally.count, List.range'_1_concat, List.countP_append, List.countP_singleton,
      Nat.add_comm 1 tally.made, houtcome, ← h.lost, decide_eq_true_eq]
    split <;> rfl
  · rcases Nat.le_succ_iff.1 hlast with hearlier | rfl
    · exact h.results number hfirst hearlier
    · rw [Agent.resultOf_succ h.after hstep, houtcome]

/-- The run ends with the last step that was made. -/
theorem Made.completed (h : Made world start w outcomes tally reports agent w₁)
    (hlast : IsLast config (start.resultOf world w) tally.made) :
    Iterates world config start w
      ⟨reports.reverse, .ok (tally.summary
        ((stopAfter config.stopOnLost (outcomes tally.made)).getD .stepLimit)), agent, w₁⟩ := by
  have hcompleted := Iterates.completed hlast h.results
  rwa [h.after, ← h.reports, ← h.lost, ← stopAfter_eq] at hcompleted

/-- The run ends because the next step fails. -/
theorem Made.failed (h : Made world start w outcomes tally reports agent w₁) {e : ε}
    (hlast : IsLast config (start.resultOf world w) last) (hmore : tally.made < last)
    (hstep : agent.step world w₁ = (.error e, agent', w₂)) :
    Iterates world config start w ⟨reports.reverse, .error (.capability e), agent', w₂⟩ := by
  have hfailed := Iterates.failed hlast (Nat.le_add_left 1 tally.made) hmore
    (fun number hfirst hearlier => h.results number hfirst (by omega))
    (Agent.resultOf_succ h.after hstep)
  rwa [Agent.after_succ h.after hstep, Nat.add_sub_cancel, ← h.reports] at hfailed

/-- The loop makes the steps that are left. -/
theorem Made.proceed (hvalid : config.error? = none)
    (houtcomes : ∀ number outcome, start.resultOf world w number = .ok outcome →
      outcomes number = outcome)
    (hlast : IsLast config (start.resultOf world w) last)
    (h : Made world start w outcomes tally reports agent w₁) (hmore : tally.made < last)
    (hremaining : tally.made + remaining = config.maxSteps) :
    Iterates world config start w
      (Run.proceed (Agent.step world) Agent.time config.stopOnLost remaining tally reports agent
        w₁) := by
  have hlimit : last ≤ config.maxSteps := hlast.2 (endsAt_maxSteps hvalid _)
  induction remaining generalizing tally reports agent w₁ with
  | zero => omega
  | succ remaining ih =>
    rw [Run.proceed]
    rcases hstep : agent.step world w₁ with ⟨result, agent', w₂⟩
    cases result with
    | error e => exact h.failed hlast hmore hstep
    | ok outcome =>
      have hresult := Agent.resultOf_succ h.after hstep
      have houtcome := houtcomes _ _ hresult
      have hmade := h.step hstep houtcome
      have hends := endsAt_iff config hresult
      dsimp only
      cases hstop : stopAfter config.stopOnLost outcome with
      | some stop =>
        rw [hstop] at hends
        have hnow : last = tally.made + 1 :=
          Nat.le_antisymm (hlast.2 ⟨by omega, hends.2 (.inl rfl)⟩) hmore
        subst hnow
        have hcompleted := hmade.completed hlast
        rwa [Tally.made_count, houtcome, hstop] at hcompleted
      | none =>
        dsimp only
        rcases Nat.lt_or_eq_of_le hmore with hmore' | hnow
        · exact ih hmade hmore' (by rw [Tally.made_count]; omega)
        · -- The last step does not end the run by its outcome, so it is the one at the limit.
          subst hnow
          rw [hstop] at hends
          have hmax : tally.made + 1 = config.maxSteps := by simpa using hends.1 hlast.1.2
          obtain rfl : remaining = 0 := by omega
          have hcompleted := hmade.completed hlast
          rwa [Tally.made_count, houtcome, hstop] at hcompleted

/-! ## More steps -/

section Prefix

variable {α : Type} (step : α → ω → Except ε Outcome × α × ω) (time : α → Int)
  (stopOnLost : Bool)

/-- A run only adds to the reports it starts with. What has been reported at any moment is the
front of what is reported in the end. -/
theorem reports_prefix (remaining : Nat) (tally : Tally) (reports : List Report) (agent : α)
    (w : ω) :
    reports.reverse <+:
      (Run.proceed step time stopOnLost remaining tally reports agent w).reports := by
  induction remaining generalizing tally reports agent w with
  | zero => exact List.prefix_rfl
  | succ remaining ih =>
    rw [Run.proceed]
    rcases step agent w with ⟨result, agent', w'⟩
    cases result with
    | error e => exact List.prefix_rfl
    | ok outcome =>
      have hone : reports.reverse <+:
          ((⟨tally.made + 1, time agent', outcome⟩ : Report) :: reports).reverse := by simp
      dsimp only
      cases stopAfter stopOnLost outcome with
      | some stop => exact hone
      | none => exact hone.trans (ih _ _ _ _)

/-- If more steps are allowed, the reports go on from those that there are. -/
theorem proceed_prefix {remaining more : Nat} (hmore : remaining ≤ more) (tally : Tally)
    (reports : List Report) (agent : α) (w : ω) :
    (Run.proceed step time stopOnLost remaining tally reports agent w).reports <+:
      (Run.proceed step time stopOnLost more tally reports agent w).reports := by
  induction remaining generalizing more tally reports agent w with
  | zero => exact reports_prefix step time stopOnLost more tally reports agent w
  | succ remaining ih =>
    obtain ⟨more, rfl⟩ := Nat.exists_eq_add_of_le' (Nat.le_trans (Nat.le_add_left 1 _) hmore)
    rw [Run.proceed, Run.proceed]
    rcases step agent w with ⟨result, agent', w'⟩
    cases result with
    | error e => exact List.prefix_rfl
    | ok outcome =>
      dsimp only
      cases stopAfter stopOnLost outcome with
      | some stop => exact List.prefix_rfl
      | none => exact ih (Nat.le_of_succ_le_succ hmore) _ _ _ _

end Prefix

/-! ## Reports under a stepped clock -/

/-- Under a stepped clock that starts at zero each report shows as its time the number of its
step, since every successful step moves the clock by one. -/
theorem time_of_mem_reportsOf (hclock : start.clock = .stepped 0) {steps : Nat}
    (h : ∀ number, 1 ≤ number → number ≤ steps →
      start.resultOf world w number = .ok (outcomes number)) {report : Report}
    (hreport : report ∈ start.reportsOf world w outcomes steps) : report.time = report.step := by
  rw [Agent.reportsOf, List.mem_map] at hreport
  obtain ⟨number, hnumber, rfl⟩ := hreport
  have hrange : 1 ≤ number ∧ number ≤ steps := by
    rw [List.mem_range'_1] at hnumber
    omega
  have hafter := Agent.clock_after hclock fun earlier hfirst hlast =>
    h earlier hfirst (Nat.le_trans hlast hrange.2)
  exact congrArg Clock.time hafter

theorem Iterates.time_eq_step {run : Run ω ε Agent} (h : run.Iterates world config start w)
    (hclock : start.clock = .stepped 0) : ∀ report ∈ run.reports, report.time = report.step := by
  intro report hreport
  cases h with
  | completed _ hresults => exact time_of_mem_reportsOf hclock hresults hreport
  | failed _ _ _ hresults =>
    exact time_of_mem_reportsOf hclock
      (fun number hfirst hlast => hresults number hfirst (by omega)) hreport

end Run

/-! ## The run of an agent -/

variable {config : Config} {agent : Agent}

/-- A configuration that is not valid stops a run before its first step, and the agent and the
world are as they were. -/
theorem Agent.run_of_error {error : ConfigError} (herror : config.error? = some error) (w : ω) :
    agent.run world config w = ⟨[], .error (.config error), agent, w⟩ := by
  rw [Agent.run, herror]

/-- With a valid configuration a run is the loop over its steps, after the clock has been replaced
by a fresh one of the discipline in force. -/
theorem Agent.run_of_valid (hvalid : config.error? = none) (w : ω) :
    agent.run world config w =
      Run.proceed (Agent.step world) Agent.time config.stopOnLost config.maxSteps .zero []
        (agent.setClock (config.timer.clock agent.discipline)) w := by
  rw [Agent.run, hvalid]

/-- What a step is taken to come to; of one that fails, anything. -/
def outcomeOf (results : Nat → Except ε Outcome) (number : Nat) : Outcome :=
  match results number with
  | .ok outcome => outcome
  | .error _ => .lost

theorem outcomeOf_eq {results : Nat → Except ε Outcome} {number : Nat} {outcome : Outcome}
    (h : results number = .ok outcome) : outcomeOf results number = outcome := by
  rw [outcomeOf, h]

/-- What a run reports, leaves and ends with is read off the iterated steps of the agent whose
clock has been replaced. -/
theorem Agent.run_iterates (hvalid : config.error? = none) (w : ω) :
    (agent.run world config w).Iterates world config
      (agent.setClock (config.timer.clock agent.discipline)) w := by
  rw [Agent.run_of_valid hvalid]
  generalize agent.setClock (config.timer.clock agent.discipline) = start
  obtain ⟨last, hlast⟩ := Run.exists_isLast hvalid (start.resultOf world w)
  have hmade : Run.Made world start w (outcomeOf (start.resultOf world w)) .zero [] start w :=
    ⟨rfl, rfl, rfl, fun number hfirst hnone => absurd (hfirst.trans hnone) (by decide)⟩
  exact hmade.proceed hvalid (fun _ _ => outcomeOf_eq) hlast hlast.1.1 (Nat.zero_add _)

/-- A run with an invalid configuration does nothing. Otherwise it makes the steps up to the first
that ends it or fails, from the agent with the clock that the configuration asks for. If more
steps are allowed, the reports go on from those that there were. -/
theorem run_iterates_steps (world : World ω ε) (config : Config) (agent : Agent) (w : ω) :
    (∀ error, config.error? = some error →
        agent.run world config w = ⟨[], .error (.config error), agent, w⟩) ∧
      (config.error? = none →
        (agent.run world config w).Iterates world config
          (agent.setClock (config.timer.clock agent.discipline)) w) ∧
      (config.timer.discipline agent.discipline = .stepped →
        ∀ report ∈ (agent.run world config w).reports, report.time = report.step) ∧
      ∀ more, config.maxSteps ≤ more →
        (agent.run world config w).reports <+:
          (agent.run world { config with maxSteps := more } w).reports := by
  refine ⟨fun error herror => Agent.run_of_error herror w,
    fun hvalid => Agent.run_iterates hvalid w, fun hstepped => ?_, fun more hmore => ?_⟩
  · cases herror : config.error? with
    | some error =>
      rw [Agent.run_of_error herror]
      exact List.forall_mem_nil _
    | none =>
      refine (Agent.run_iterates herror w).time_eq_step ?_
      rw [Agent.setClock, Timer.clock, hstepped]
      rfl
  · cases herror : config.error? with
    | some error =>
      rw [Agent.run_of_error herror]
      exact List.nil_prefix
    | none =>
      rw [Agent.run_of_valid herror, Agent.run_of_valid (Run.error?_eq_none_of_le herror hmore)]
      exact Run.proceed_prefix _ _ config.stopOnLost hmore .zero [] _ w

/-- Three steps for an agent whose element fires at every second one, ending at the first that is
lost. -/
def threeSteps : Config := ⟨3, true, .default⟩

theorem run_iterates_steps_beater :
    threeSteps.error? = none ∧
      ((beater 2).run idle threeSteps ()).result = .ok ⟨2, 1, .lost⟩ ∧
      ((beater 2).run idle threeSteps ()).Iterates idle threeSteps
        ((beater 2).setClock (.stepped 0)) () ∧
      (∀ report ∈ ((beater 2).run idle threeSteps ()).reports, report.time = report.step) ∧
      ((beater 2).run idle threeSteps ()).reports <+:
        ((beater 2).run idle { threeSteps with maxSteps := 5 } ()).reports ∧
      (beater 2).run idle { threeSteps with maxSteps := 0 } () =
        ⟨[], .error (.config .noSteps), beater 2, ()⟩ := by
  obtain ⟨-, hiterates, htimes, hmore⟩ := run_iterates_steps idle threeSteps (beater 2) ()
  obtain ⟨herror, -⟩ := run_iterates_steps idle { threeSteps with maxSteps := 0 } (beater 2) ()
  exact ⟨rfl, rfl, hiterates rfl, htimes rfl, hmore 5 (by decide), herror .noSteps rfl⟩

end SlipStack.Engine
