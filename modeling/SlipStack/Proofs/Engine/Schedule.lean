import Mathlib.Algebra.Order.Floor.Div
import Mathlib.Data.List.Forall2
import SlipStack.Proofs.Engine.Intervals

/-!
# The beat of the first drive element

Nothing comes before the first drive element of a collection without goal. If it has no trigger
either, only its interval holds it back (`Agent.Beats`), and under the stepped clock it is fired
at the multiples of the interval (`fired_at_multiples`). What it fires, and what the other drive
elements do, does not matter.
-/

namespace SlipStack

open Engine

/-- The drive collection of the plan has no goal, and a first drive element that only its interval
holds back. -/
def Plan.Beats (interval : Int) (plan : Plan) : Prop :=
  ∃ collection element others, plan.collection = some collection ∧
    collection.goal.getD [] = [] ∧ collection.levels.flatten = element :: others ∧
    element.trigger.getD [] = [] ∧ element.interval = some interval

namespace Engine

variable {ω ε : Type}

/-! ## Multiples of an interval -/

/-- The multiples of a positive interval below a number are those before the quotient that is
rounded up. -/
theorem lt_ceilDiv_iff {interval steps index : Nat} (hpos : 0 < interval) :
    index < steps ⌈/⌉ interval ↔ index * interval < steps := by
  rw [← Nat.not_le, ceilDiv_le_iff_le_mul hpos, Nat.not_le, Nat.mul_comm]

/-- One number more has one multiple more below it where the number is itself a multiple. -/
theorem succ_ceilDiv {interval steps : Nat} (hpos : 0 < interval) :
    (steps + 1) ⌈/⌉ interval =
      if steps ⌈/⌉ interval * interval = steps then steps ⌈/⌉ interval + 1
      else steps ⌈/⌉ interval := by
  have hcovers : steps ≤ steps ⌈/⌉ interval * interval :=
    Nat.not_lt.1 fun hlt => Nat.lt_irrefl _ ((lt_ceilDiv_iff hpos).2 hlt)
  refine eq_of_forall_lt_iff fun index => ?_
  rw [lt_ceilDiv_iff hpos, Nat.lt_succ_iff_lt_or_eq, ← lt_ceilDiv_iff hpos]
  split
  case isTrue hmultiple =>
    rw [Nat.lt_succ_iff_lt_or_eq]
    refine or_congr_right ⟨fun hindex => ?_, fun hindex => by rw [hindex, hmultiple]⟩
    exact Nat.eq_of_mul_eq_mul_right hpos (hindex.trans hmultiple.symm)
  case isFalse hbetween =>
    refine or_iff_left fun hindex => hbetween ?_
    -- A multiple that is not below the number is not before the quotient.
    have hlast : steps ⌈/⌉ interval ≤ index := by
      rw [← Nat.not_lt, lt_ceilDiv_iff hpos, hindex]
      exact Nat.lt_irrefl steps
    have := Nat.mul_le_mul_right interval hlast
    omega

namespace Firing

/-- The first multiples of an interval, from zero on. -/
def multiples (interval count : Nat) : List Int :=
  (List.range count).map fun index => (index * interval : Nat)

theorem multiples_succ (interval count : Nat) :
    multiples interval (count + 1) =
      multiples interval count ++ [((count * interval : Nat) : Int)] := by
  simp [multiples, List.range_succ]

@[simp]
theorem length_multiples (interval count : Nat) : (multiples interval count).length = count := by
  simp [multiples]

/-- Those before the rounded up quotient are all multiples below the number. -/
theorem mem_multiples_ceilDiv {interval steps time : Nat} (hpos : 0 < interval) :
    (time : Int) ∈ multiples interval (steps ⌈/⌉ interval) ↔ time < steps ∧ interval ∣ time := by
  rw [multiples, List.mem_map]
  constructor
  · intro h
    obtain ⟨index, hindex, htime⟩ := h
    have hequal : index * interval = time := Int.ofNat.inj htime
    rw [List.mem_range, lt_ceilDiv_iff hpos, hequal] at hindex
    exact ⟨hindex, Dvd.intro_left index hequal⟩
  · intro h
    obtain ⟨hbelow, index, rfl⟩ := h
    rw [Nat.mul_comm] at hbelow ⊢
    exact ⟨index, List.mem_range.2 ((lt_ceilDiv_iff hpos).2 hbelow), rfl⟩

end Firing

/-! ## Drive elements that nothing comes before -/

namespace Agent

/-- There is no goal, and only its interval holds the first drive element back. -/
def Beats (interval : Int) (agent : Agent) : Prop :=
  agent.goal = [] ∧ ∃ drive others, agent.levels.flatten = drive :: others ∧
    drive.trigger = [] ∧ drive.interval = some interval

variable {built agent : Agent} {interval : Int}

/-- The first drive element of an agent stays what it was built as, so nothing but its interval
ever holds it back. -/
theorem KeptBy.beats (h : built.KeptBy agent) (hbeats : built.Beats interval) :
    agent.Beats interval := by
  obtain ⟨hgoal, drive, others, hdrives, htrigger, hinterval⟩ := hbeats
  refine ⟨h.goal.trans hgoal, ?_⟩
  have hunused : agent.levels.flatten.map (Drive.unused built.library) = drive :: others := by
    rw [List.map_flatten, h.unused, hdrives]
  obtain ⟨first, rest, hfirst, rfl, -⟩ := List.map_eq_cons_iff.1 hunused
  exact ⟨first, rest, hfirst, htrigger, hinterval⟩

/-- The first drive element is fired when its interval has passed. -/
theorem firing?_of_due {drive : Drive} {others : List Drive} (hgoal : agent.goal = [])
    (hdrives : agent.levels.flatten = drive :: others) (htrigger : drive.trigger = [])
    (hdue : drive.tooEarly agent.clock.beginStep.time = false) (world : World ω ε) (w : ω) :
    agent.firing? world w = some ⟨0, agent.clock.beginStep.time⟩ := by
  have hreached : agent.goal.reached world w = (.ok false, w) := by
    rw [hgoal]
    rfl
  have hready : drive.ready world agent.clock.beginStep.time w = (.ok true, w) := by
    rw [Drive.ready, htrigger, hdue]
    rfl
  rw [firing?, fired?_of_goal hreached, hdrives, firstFired?, hready]
  rfl

end Agent

/-! ## Building -/

namespace Scope

variable {scope : Scope} {library : Library} {interval : Int}

theorem drive_beats {source : Plan.DriveElement} {drive : Drive}
    (htrigger : source.trigger.getD [] = []) (hinterval : source.interval = some interval)
    (h : scope.drive library source = .ok drive) :
    drive.trigger = [] ∧ drive.interval = some interval := by
  rw [Scope.drive, trigger, htrigger] at h
  obtain ⟨resolved, hresolved, h⟩ := bind_eq_ok.1 h
  obtain ⟨target, _, h⟩ := bind_eq_ok.1 h
  cases hresolved
  cases h
  exact ⟨rfl, hinterval⟩

theorem collection_beats {source : Plan.DriveCollection} {element : Plan.DriveElement}
    {others : List Plan.DriveElement} {agent : Agent} (hgoal : source.goal.getD [] = [])
    (helements : source.levels.flatten = element :: others)
    (htrigger : element.trigger.getD [] = []) (hinterval : element.interval = some interval)
    (h : scope.collection library source = .ok agent) : agent.Beats interval := by
  rw [collection] at h
  split at h
  case h_2 => cases h
  case h_1 =>
    obtain ⟨discipline, _, h⟩ := bind_eq_ok.1 h
    obtain ⟨goal, hresolved, h⟩ := bind_eq_ok.1 h
    obtain ⟨levels, hlevels, h⟩ := bind_eq_ok.1 h
    cases h
    rw [trigger, hgoal] at hresolved
    cases hresolved
    have hdrives := List.rel_flatten
      ((mapM_eq_ok.1 hlevels).imp fun level drives hlevel => mapM_eq_ok.1 hlevel)
    rw [helements] at hdrives
    obtain ⟨drive, drives, hdrive, -, hflatten⟩ := List.forall₂_cons_left_iff.1 hdrives
    exact ⟨rfl, drive, drives, hflatten, drive_beats htrigger hinterval hdrive⟩

end Scope

/-- A plan whose first drive element is held back by its interval only gives an agent of that
kind. -/
theorem build_beats {registry : Registry} {plan : Plan} {built : Agent} {interval : Int}
    (hplan : plan.Beats interval) (h : plan.build registry = .ok built) :
    built.Beats interval := by
  obtain ⟨collection, element, others, hcollection, hgoal, helements, htrigger, hinterval⟩ := hplan
  rw [Plan.build] at h
  split at h
  · cases h
  · obtain ⟨library, _, h⟩ := bind_eq_ok.1 h
    rw [hcollection] at h
    exact Scope.collection_beats hgoal helements htrigger hinterval h

/-! ## Steps -/

namespace Agent

variable {built start agent : Agent}

/-- A clock that was just set, or that an agent was built or reset with, is at its start. -/
theorem Notes.clock_reset {α : Type} {note : Note α} (hbuilt : built.AsBuilt)
    (hstart : built.Starts start) (h : start.Notes note [] agent) :
    agent.clock.reset = agent.clock := by
  generalize hlog : ([] : List α) = log at h
  induction h with
  | start =>
    cases hstart with
    | built =>
      rw [hbuilt.clock]
      cases built.discipline <;> rfl
    | @reset agent _ =>
      rw [Agent.reset]
      cases agent.clock <;> rfl
  | step => cases hlog
  | reset hnone => cases hnone
  | setClock clock _ _ => cases clock <;> rfl
  | setDiscipline discipline _ _ => cases discipline <;> rfl

/-- Where successful steps under the stepped clock have come to: the first drive element was
fired at the multiples of its interval below what the clock shows. -/
structure OnBeat (interval : Nat) (log : List (Option Firing)) (agent : Agent) : Prop where
  beats : agent.Beats interval
  timed : agent.Timed log
  clock : agent.clock = .stepped log.length
  times : (Firing.times 0 log).reverse = Firing.multiples interval (log.length ⌈/⌉ interval)

/-- The interval of the first drive element has passed exactly if the clock shows a multiple. -/
theorem OnBeat.tooEarly_eq_false_iff {interval : Nat} {log : List (Option Firing)} {drive : Drive}
    (h : agent.OnBeat interval log) (hpos : 0 < interval) (hle : interval ≤ 100000)
    (hdrive : agent.levels.flatten[0]? = some drive)
    (hinterval : drive.interval = some interval) :
    drive.tooEarly agent.clock.beginStep.time = false ↔
      log.length ⌈/⌉ interval * interval = log.length := by
  have hlast := h.timed.lastFired 0 drive hdrive
  have htimes := congrArg List.reverse h.times
  rw [List.reverse_reverse] at htimes
  rw [htimes] at hlast
  have hcovers : ¬ log.length ⌈/⌉ interval * interval < log.length := fun hlt =>
    Nat.lt_irrefl _ ((lt_ceilDiv_iff hpos).2 hlt)
  have htime : agent.clock.beginStep.time = log.length := by
    rw [h.clock]
    rfl
  have hwaits : drive.tooEarly agent.clock.beginStep.time = false ↔
      (interval : Int) ≤ log.length - drive.lastFired := by
    simp [Drive.tooEarly, hinterval, htime]
  rw [hwaits]
  cases hcount : log.length ⌈/⌉ interval with
  | zero =>
    -- Before the first step, the time that stands for no firing is long enough ago.
    rw [hcount] at hlast hcovers
    have hnever : drive.lastFired = -100000 := hlast
    omega
  | succ count =>
    have hbefore : count * interval < log.length :=
      (lt_ceilDiv_iff hpos).1 (by rw [hcount]; exact Nat.lt_succ_self count)
    rw [hcount, Firing.multiples_succ, List.reverse_append] at hlast
    have hlatest : drive.lastFired = (count * interval : Nat) := hlast
    rw [hcount] at hcovers
    rw [Nat.succ_mul] at hcovers ⊢
    omega

/-- A successful step of the stepped clock fires the first element if the clock is at a multiple
of the interval, and does not if it is between two. -/
theorem OnBeat.step {interval : Nat} {log : List (Option Firing)} {outcome : Outcome}
    (h : agent.OnBeat interval log) (hpos : 0 < interval) (hle : interval ≤ 100000)
    (world : World ω ε) (w : ω) (hok : (agent.step world w).1 = .ok outcome)
    (hafter : (agent.step world w).2.1.Beats interval) :
    (agent.step world w).2.1.OnBeat interval (agent.firing? world w :: log) := by
  obtain ⟨hgoal, drive, others, hdrives, htrigger, hinterval⟩ := h.beats
  have hdrive : agent.levels.flatten[0]? = some drive := by
    rw [hdrives, List.getElem?_cons_zero]
  have hdue := h.tooEarly_eq_false_iff hpos hle hdrive hinterval
  have htime : agent.clock.beginStep.time = log.length := by
    rw [h.clock]
    rfl
  refine ⟨hafter, h.timed.step world w, ?_, ?_⟩
  · rcases hstep : agent.step world w with ⟨result, after, w'⟩
    rw [hstep] at hok
    cases hok
    rw [clock_of_step_ok hstep, h.clock]
    rfl
  · rw [List.length_cons, succ_ceilDiv hpos]
    split
    case isTrue hmultiple =>
      rw [firing?_of_due hgoal hdrives htrigger (hdue.2 hmultiple), Firing.times_some_self,
        List.reverse_cons, h.times, Firing.multiples_succ, hmultiple, htime]
    case isFalse hbetween =>
      obtain ⟨-, later, rest, hlater, -, -⟩ := hafter
      have hfirst : (agent.step world w).2.1.levels.flatten[0]? = some later := by
        rw [hlater, List.getElem?_cons_zero]
      obtain ⟨before, hbefore, -, ⟨-, -, hwaited⟩ | ⟨htimes, -⟩⟩ := step_firing world w hfirst
      · -- It was not fired, as its interval has not passed.
        cases hdrive.symm.trans hbefore
        have hlong := hwaited interval hinterval (Int.natCast_nonneg interval)
        refine absurd (hdue.1 ?_) hbetween
        simpa [Drive.tooEarly, hinterval] using hlong
      · rw [htimes, h.times]

/-- The run lemma: after any number of successful steps the log holds the first element at the
multiples of its interval so far, and at no other time. -/
theorem Successes.onBeat {interval : Nat} {log : List (Option Firing)} {later : Agent}
    (hbuilt : built.AsBuilt) (hbeats : built.Beats interval) (hreaches : built.Reaches start)
    (htimed : start.Timed []) (hclock : start.clock = .stepped 0) (hpos : 0 < interval)
    (hle : interval ≤ 100000) (h : start.Successes firing? log later) :
    built.Reaches later ∧ later.OnBeat interval log := by
  induction h with
  | start =>
    refine ⟨hreaches, (hreaches.keptBy hbuilt).beats hbeats, htimed, hclock, ?_⟩
    rw [List.length_nil, zero_ceilDiv]
    rfl
  | step world w _ hok ih =>
    have hlater := ih.1.step world w
    exact ⟨hlater, ih.2.step hpos hle world w hok ((hlater.keptBy hbuilt).beats hbeats)⟩

end Agent

/-- In a plan without goal, whose first drive element has no trigger, successful steps under the
stepped clock, right after building or a reset, fire it at the multiples of its interval, from
zero on. What it fires, what the others are and what the world does in each step is open. The
log tells of firings that happen: each step does what is noted of it. -/
theorem fired_at_multiples {registry : Registry} {plan : Plan} {built fresh start later : Agent}
    {interval : Nat} (hplan : plan.Beats interval) (hpos : 1 ≤ interval)
    (hle : interval ≤ 100000) (hbuild : plan.build registry = .ok built)
    (hfresh : built.Starts fresh) (hstart : fresh.Notes Agent.firing? [] start) {steps : Int}
    (hclock : start.clock = .stepped steps) {log : List (Option Firing)}
    (hrun : start.Successes Agent.firing? log later) :
    (Firing.times 0 log).reverse = Firing.multiples interval (log.length ⌈/⌉ interval) ∧
      (∀ time : Nat, (time : Int) ∈ Firing.times 0 log ↔ time < log.length ∧ interval ∣ time) ∧
      (Firing.times 0 log).length = log.length ⌈/⌉ interval ∧
      later.clock = .stepped log.length ∧
      (∃ drive, later.levels.flatten[0]? = some drive ∧
        drive.lastFired = (Firing.times 0 log).head?.getD Drive.neverFired) ∧
      ∀ {ω ε : Type} (world : World ω ε) (agent : Agent) (w : ω),
        agent.BearsOut world w (agent.firing? world w) := by
  have hbuilt := build_asBuilt hbuild
  -- No step has been made since the reset, so the clock is at zero.
  have hzero : start.clock = .stepped 0 := by
    have hreset := hstart.clock_reset hbuilt hfresh
    rw [hclock] at hreset ⊢
    exact hreset.symm
  obtain ⟨-, hbeat⟩ := hrun.onBeat hbuilt (build_beats hplan hbuild)
    (hstart.reaches hfresh.reaches) (hstart.timed hbuilt hfresh) hzero hpos hle
  refine ⟨hbeat.times, fun time => ?_, ?_, hbeat.clock, ?_, Agent.bearsOut_firing?⟩
  · rw [← List.mem_reverse, hbeat.times, Firing.mem_multiples_ceilDiv hpos]
  · rw [← List.length_reverse, hbeat.times, Firing.length_multiples]
  · obtain ⟨-, drive, others, hdrives, -, -⟩ := hbeat.beats
    have hdrive : later.levels.flatten[0]? = some drive := by
      rw [hdrives, List.getElem?_cons_zero]
    exact ⟨drive, hdrive, hbeat.timed.lastFired 0 drive hdrive⟩

/-- With an interval of two, the first and the third of three steps beat the drum. -/
theorem fired_at_multiples_beaten :
    (beatPlan 2).Beats (2 : Nat) ∧ (beatPlan 2).build drums = .ok (beater 2) ∧
      (beater 2).clock = .stepped 0 ∧
      (beater 2).Successes Agent.firing? [some ⟨0, 2⟩, none, some ⟨0, 0⟩] (beaten 2) ∧
      (Firing.times 0 [some ⟨0, 2⟩, none, some ⟨0, 0⟩]).reverse = Firing.multiples 2 (3 ⌈/⌉ 2) ∧
      (∀ time : Nat, (time : Int) ∈ Firing.times 0 [some ⟨0, 2⟩, none, some ⟨0, 0⟩] ↔
        time < 3 ∧ 2 ∣ time) ∧
      (beaten 2).clock = .stepped 3 := by
  have hplan : (beatPlan 2).Beats (2 : Nat) := ⟨_, _, [], rfl, rfl, rfl, rfl, rfl⟩
  have hrun : (beater 2).Successes Agent.firing? [some ⟨0, 2⟩, none, some ⟨0, 0⟩] (beaten 2) :=
    .step idle () (.step idle () (.step idle () .start rfl) rfl) rfl
  obtain ⟨htimes, hmem, -, hclock, -⟩ := fired_at_multiples hplan (by decide) (by decide)
    (build_beatPlan 2) .built .start rfl hrun
  exact ⟨hplan, build_beatPlan 2, rfl, hrun, htimes, hmem, hclock⟩

end Engine

end SlipStack
