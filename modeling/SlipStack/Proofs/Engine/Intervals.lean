import SlipStack.Proofs.Engine.Fired
import SlipStack.Proofs.Engine.History

/-!
# Intervals between firings

The time of the last firing of a drive element is what its latest firing since the last reset
left, whatever was done with the clock (`Agent.Timed`). As a drive element is fired only if its
interval has passed since then, its firings keep that distance (`Spaced`).

A clock that is replaced starts over, but the times of the last firings do not. So they are
bounded by the times that clocks showed when they were replaced (`Agent.Restarted`), not by the
time that the clock shows.
-/

namespace SlipStack.Engine

variable {ω ε : Type} {world : World ω ε} {w : ω}

/-! ## Firings -/

/-- A firing of a drive element. -/
structure Firing where
  /-- The position of the drive element, counted through all levels. -/
  drive : Nat
  /-- What the clock showed for the step. -/
  time : Int
  deriving DecidableEq, Repr

namespace Firing

/-- The time of the firing, if it is one of the drive element at the position. -/
def timeOf? (position : Nat) (firing : Firing) : Option Int :=
  if firing.drive = position then some firing.time else none

/-- The times of the firings of a drive element, the latest first, in a log of steps. -/
def times (position : Nat) (log : List (Option Firing)) : List Int :=
  log.filterMap fun entry => entry.bind (timeOf? position)

@[simp]
theorem times_none (position : Nat) (log : List (Option Firing)) :
    times position (none :: log) = times position log := rfl

@[simp]
theorem times_some_self (position : Nat) (time : Int) (log : List (Option Firing)) :
    times position (some ⟨position, time⟩ :: log) = time :: times position log := by
  simp [times, timeOf?]

theorem times_some_ne {position fired : Nat} (h : fired ≠ position) (time : Int)
    (log : List (Option Firing)) :
    times position (some ⟨fired, time⟩ :: log) = times position log := by
  simp [times, timeOf?, h]

end Firing

/-- All times, the latest first, are at least the interval apart, and the first of them is at
least the interval after the time that stands for no firing. -/
def Spaced (interval : Int) : List Int → Prop
  | [] => True
  | [first] => interval ≤ first - Drive.neverFired
  | later :: time :: earlier => interval ≤ later - time ∧ Spaced interval (time :: earlier)

/-- A firing that keeps the interval from the latest one, or from the assumed time of an element
never fired, may follow firings that keep it. -/
theorem Spaced.cons {interval time : Int} {earlier : List Int} (h : Spaced interval earlier)
    (htime : interval ≤ time - earlier.head?.getD Drive.neverFired) :
    Spaced interval (time :: earlier) := by
  cases earlier with
  | nil => exact htime
  | cons last earlier => exact ⟨htime, h⟩

namespace Drive

variable {drive : Drive} {now interval : Int}

/-- What is ready has waited for its interval. -/
theorem interval_le_of_ready (hinterval : drive.interval = some interval) (hpos : 0 ≤ interval)
    {w₁ : ω} (h : drive.ready world now w = (.ok true, w₁)) : interval ≤ now - drive.lastFired := by
  have hdue := (ready_eq_true.1 h).2
  simp only [tooEarly, hinterval, hpos, decide_true, Bool.true_and, decide_eq_false_iff_not] at hdue
  omega

@[simp]
theorem lastFired_follow (library : Library) (drive : Drive) (move : Move) :
    (drive.follow library move).lastFired = drive.lastFired := by
  cases move <;> rfl

@[simp]
theorem interval_follow (library : Library) (drive : Drive) (move : Move) :
    (drive.follow library move).interval = drive.interval := by
  cases move <;> rfl

end Drive

namespace Agent

/-- The drive element, if any, that a step of the agent fires. -/
def firing? (world : World ω ε) (agent : Agent) (w : ω) : Option Firing :=
  (agent.fired? world w).map fun (position, _, _) => ⟨position, agent.clock.beginStep.time⟩

/-- What a step has done, by what was noted of it: without a note it has read senses and nothing
else. With one it has fired the node of that drive element, which was ready, has left the other
drive elements as they were, and has come to what the node did. -/
inductive BearsOut (world : World ω ε) (agent : Agent) (w : ω) : Option Firing → Prop
  | idle : (agent.step world w).1 ≠ .ok .followed →
      (agent.step world w).2.1.levels.flatten = agent.levels.flatten →
      Looks world w (agent.step world w).2.2 → BearsOut world agent w none
  | fired {position : Nat} {drive : Drive} {senses : List Capability} {moved : Except ε Move}
      {node' : Node} {w₀ w₁ : ω} : agent.levels.flatten[position]? = some drive →
      Reads world w senses w₁ →
      drive.ready world agent.clock.beginStep.time w₀ = (.ok true, w₁) →
      (drive.node agent.library).Enacted world w₁ moved node' (agent.step world w).2.2 →
      (agent.step world w).1 = moved.map (fun _ => .followed) →
      (agent.step world w).2.1.levels.flatten = agent.levels.flatten.set position
        ((drive.store agent.clock.beginStep.time node').follow agent.library (.ofResult moved)) →
      BearsOut world agent w (some ⟨position, agent.clock.beginStep.time⟩)

/-- Whatever the world, each step bears out what is noted of it before it is made. -/
theorem bearsOut_firing? (world : World ω ε) (agent : Agent) (w : ω) :
    agent.BearsOut world w (agent.firing? world w) := by
  have hcomes := agent.step_comesTo world w
  unfold firing?
  generalize agent.fired? world w = fired at hcomes ⊢
  generalize hresult : (agent.step world w).1 = result at hcomes
  generalize hdrives : (agent.step world w).2.1.levels.flatten = drives at hcomes
  generalize hworld : (agent.step world w).2.2 = w' at hcomes
  cases hcomes with
  | idle hunfollowed hlooks => exact .idle (hresult ▸ hunfollowed) hdrives (hworld ▸ hlooks)
  | fired hdrive hreads hready hfire =>
    subst hworld
    exact .fired hdrive hreads hready (Node.fire_enacted hfire) hresult hdrives

variable {agent : Agent} {position : Nat} {drive : Drive}

/-- What a step does to the drive element at a position. Only the one that is fired changes, and
it keeps its interval. -/
theorem step_firing (world : World ω ε) (w : ω)
    (h : (agent.step world w).2.1.levels.flatten[position]? = some drive) :
    ∃ before, agent.levels.flatten[position]? = some before ∧ drive.interval = before.interval ∧
      (agent.firing? world w = some ⟨position, agent.clock.beginStep.time⟩ ∧
          drive.lastFired = agent.clock.beginStep.time ∧
          (∀ interval, before.interval = some interval → 0 ≤ interval →
            interval ≤ agent.clock.beginStep.time - before.lastFired) ∨
        (∀ log, Firing.times position (agent.firing? world w :: log) =
            Firing.times position log) ∧
          drive.lastFired = before.lastFired) := by
  cases hfired : agent.fired? world w with
  | none =>
    rw [(step_of_fired?_eq_none hfired).1] at h
    refine ⟨drive, h, rfl, .inr ⟨fun log => ?_, rfl⟩⟩
    rw [firing?, hfired, Option.map_none, Firing.times_none]
  | some fired =>
    obtain ⟨found, before, w₁⟩ := fired
    obtain ⟨hbefore, ⟨w₀, hready⟩, moved, node', w', -, -, hlevels, -⟩ :=
      step_of_fired?_node hfired
    have hfiring : agent.firing? world w = some ⟨found, agent.clock.beginStep.time⟩ := by
      rw [firing?, hfired, Option.map_some]
    rw [hlevels] at h
    -- Of two elements fired at the same time only one is noted, so the log changes for one.
    by_cases hposition : found = position
    · subst hposition
      rw [List.getElem?_set_self (List.getElem?_eq_some_iff.1 hbefore).1] at h
      cases h
      refine ⟨before, hbefore, by simp [Drive.store], .inl ⟨hfiring, by simp [Drive.store], ?_⟩⟩
      exact fun interval hinterval hpos => Drive.interval_le_of_ready hinterval hpos hready
    · rw [List.getElem?_set_ne hposition] at h
      refine ⟨drive, h, rfl, .inr ⟨fun log => ?_, rfl⟩⟩
      rw [hfiring, Firing.times_some_ne hposition]

/-! ## Distance -/

/-- The log, which tells of all steps since the last reset, tells of the last firing of each drive
element, and of firings that are apart. -/
structure Timed (log : List (Option Firing)) (agent : Agent) : Prop where
  lastFired : ∀ position drive, agent.levels.flatten[position]? = some drive →
    drive.lastFired = (Firing.times position log).head?.getD Drive.neverFired
  spaced : ∀ position drive interval, agent.levels.flatten[position]? = some drive →
    drive.interval = some interval → 0 ≤ interval → Spaced interval (Firing.times position log)

/-- Where a stretch of the log starts, no element has been fired: their last firings are the
assumed ones, as the empty log says. -/
theorem Starts.timed {built start : Agent} (hbuilt : built.AsBuilt) (h : built.Starts start) :
    start.Timed [] := by
  refine ⟨fun position drive hdrive => ?_, fun _ _ _ _ _ _ => trivial⟩
  have hmem := List.mem_of_getElem? hdrive
  cases h with
  | built =>
    have hunused := List.forall_mem_flatten.2 hbuilt.unused drive hmem
    rw [← hunused]
    rfl
  | reset =>
    rw [Agent.reset, ← List.map_flatten] at hmem
    obtain ⟨old, _, rfl⟩ := List.mem_map.1 hmem
    rfl

/-- A step keeps the log in time: it notes the firing of one element at most, which has waited for
its interval, and leaves the last firings of the others. -/
theorem Timed.step {log : List (Option Firing)} (h : agent.Timed log) (world : World ω ε)
    (w : ω) : (agent.step world w).2.1.Timed (agent.firing? world w :: log) := by
  refine ⟨fun position drive hdrive => ?_, fun position drive interval hdrive hinterval hpos => ?_⟩
  · obtain ⟨before, hbefore, -, ⟨hfiring, hlast, -⟩ | ⟨htimes, hlast⟩⟩ := step_firing world w hdrive
    · rw [hlast, hfiring, Firing.times_some_self]
      rfl
    · rw [hlast, htimes, h.lastFired position before hbefore]
  · obtain ⟨before, hbefore, hsame, ⟨hfiring, -, hwaited⟩ | ⟨htimes, -⟩⟩ :=
      step_firing world w hdrive
    · rw [hsame] at hinterval
      rw [hfiring, Firing.times_some_self]
      refine (h.spaced position before interval hbefore hinterval hpos).cons ?_
      rw [← h.lastFired position before hbefore]
      exact hwaited interval hinterval hpos
    · rw [htimes]
      exact h.spaced position before interval hbefore (hsame ▸ hinterval) hpos

/-- Since the start of the log, each drive element has as its last firing the latest one noted of
it, and its firings keep its interval. -/
theorem Notes.timed {built start : Agent} {log : List (Option Firing)} (hbuilt : built.AsBuilt)
    (hstart : built.Starts start) (h : start.Notes firing? log agent) : agent.Timed log := by
  induction h with
  | start => exact hstart.timed hbuilt
  | step world w _ ih => exact ih.step world w
  | reset hnone => cases hnone
  | setClock clock _ ih => exact ⟨ih.lastFired, ih.spaced⟩
  | setDiscipline discipline _ ih => exact ⟨ih.lastFired, ih.spaced⟩

/-- A step neither adds nor removes drive elements. -/
theorem length_step (world : World ω ε) (w : ω) :
    (agent.step world w).2.1.levels.flatten.length = agent.levels.flatten.length := by
  cases hfired : agent.fired? world w with
  | none => rw [(step_of_fired?_eq_none hfired).1]
  | some fired =>
    obtain ⟨-, -, _, _, _, -, -, hlevels, -⟩ := step_of_fired?_node hfired
    rw [hlevels, List.length_set]

/-- Where a row of successful steps has come to that started at a time of the stepped clock: the
clock counts its steps, and a firing in it is the last one of its drive element. -/
structure FiresOnceSince (started interval : Int) (position : Nat) (log : List (Option Firing))
    (agent : Agent) : Prop where
  clock : agent.clock = .stepped (started + log.length)
  there : position < agent.levels.flatten.length
  drive : ∀ drive, agent.levels.flatten[position]? = some drive →
    drive.interval = some interval ∧ (Firing.times position log = [] ∨
      (Firing.times position log).length = 1 ∧ started ≤ drive.lastFired)

/-- Under the stepped clock a successful step takes one unit of time, so that within the interval
no second firing of the element can come up. -/
theorem FiresOnceSince.step {started interval : Int} {log : List (Option Firing)}
    (h : agent.FiresOnceSince started interval position log) {outcome : Outcome}
    (world : World ω ε) (w : ω)
    (hok : (agent.step world w).1 = .ok outcome) (hlength : (log.length : Int) < interval) :
    (agent.step world w).2.1.FiresOnceSince started interval position
      (agent.firing? world w :: log) := by
  have hnow : agent.clock.beginStep.time = started + log.length := by
    rw [h.clock]
    rfl
  refine ⟨?_, by rw [length_step]; exact h.there, fun drive hdrive => ?_⟩
  · rcases hstep : agent.step world w with ⟨result, after, w'⟩
    rw [hstep] at hok
    cases hok
    rw [clock_of_step_ok hstep, h.clock, List.length_cons, Int.natCast_add, ← Int.add_assoc]
    rfl
  · obtain ⟨before, hbefore, hsame, ⟨hfiring, hlast, hwaited⟩ | ⟨htimes, hlast⟩⟩ :=
      step_firing world w hdrive
    · obtain ⟨hinterval, hearlier⟩ := h.drive before hbefore
      have hwait := hwaited interval hinterval (by omega)
      rw [hnow] at hwait
      rw [hfiring, Firing.times_some_self, hsame, hlast, hnow]
      rcases hearlier with hnone | ⟨-, hstarted⟩
      · exact ⟨hinterval, .inr ⟨by rw [hnone]; rfl, by omega⟩⟩
      · -- A firing before this one would be less than the interval ago.
        omega
    · obtain ⟨hinterval, hearlier⟩ := h.drive before hbefore
      rw [htimes, hsame, hlast]
      exact ⟨hinterval, hearlier⟩

/-- The run lemma: over successful steps from a given time, no more of them than the interval, the
element has fired once at most. -/
theorem Successes.firesOnceSince {start later : Agent} {started interval : Int}
    (hclock : start.clock = .stepped started)
    (hdrive : start.levels.flatten[position]? = some drive)
    (hinterval : drive.interval = some interval) {log : List (Option Firing)}
    (h : start.Successes firing? log later) (hlength : (log.length : Int) ≤ interval) :
    later.FiresOnceSince started interval position log := by
  induction h with
  | start =>
    refine ⟨by simpa using hclock, (List.getElem?_eq_some_iff.1 hdrive).1, fun found hfound => ?_⟩
    cases hdrive.symm.trans hfound
    exact ⟨hinterval, .inl rfl⟩
  | step world w _ hok ih =>
    rw [List.length_cons, Int.natCast_add] at hlength
    exact (ih (by omega)).step world w hok (by omega)

/-- What the invariant is for: the number of firings is bounded, whatever else it remembers of the
last one. -/
theorem FiresOnceSince.length_times_le_one {started interval : Int} {log : List (Option Firing)}
    (h : agent.FiresOnceSince started interval position log) :
    (Firing.times position log).length ≤ 1 := by
  rcases (h.drive _ (List.getElem?_eq_getElem h.there)).2 with hnone | ⟨hone, -⟩
  · rw [hnone]
    exact Nat.zero_le 1
  · exact Nat.le_of_eq hone

/-- The firings in the log, which tells of all steps since the last reset, keep the intervals of
the drive elements, and so do those of later steps. -/
structure Throttled (agent : Agent) (log : List (Option Firing)) : Prop where
  spaced : ∀ position drive interval, agent.levels.flatten[position]? = some drive →
    drive.interval = some interval → 0 ≤ interval → Spaced interval (Firing.times position log)
  /-- In steps that succeed one after the other under the stepped clock, no more of them than
  the interval, there is one firing at most. -/
  once : ∀ position drive interval steps, agent.levels.flatten[position]? = some drive →
    drive.interval = some interval → agent.clock = .stepped steps →
      ∀ row later, agent.Successes firing? row later → (row.length : Int) ≤ interval →
        (Firing.times position row).length ≤ 1
  /-- What is noted of a step is what it does. -/
  noted : ∀ {ω ε : Type} (world : World ω ε) (later : Agent) (w : ω),
    later.BearsOut world w (later.firing? world w)

end Agent

/-- In every agent that comes from a built one, the firings of each drive element since the last
reset keep its interval from each other, whatever clocks there were. -/
theorem firing_rate_limited {registry : Registry} {plan : Plan} {built agent : Agent}
    (hbuild : plan.build registry = .ok built) (hreaches : built.Reaches agent) :
    (∃ start log, built.Starts start ∧ start.Notes Agent.firing? log agent) ∧
      ∀ start log, built.Starts start → start.Notes Agent.firing? log agent →
        agent.Throttled log := by
  have hbuilt := build_asBuilt hbuild
  refine ⟨hreaches.exists_notes _, fun start log hstart hnotes => ?_⟩
  refine ⟨(hnotes.timed hbuilt hstart).spaced, ?_, Agent.bearsOut_firing?⟩
  intro position drive interval steps hdrive hinterval hclock row later hrow hlength
  exact (hrow.firesOnceSince hclock hdrive hinterval hlength).length_times_le_one

/-! ## Clocks that start over -/

namespace Agent

/-- The agent comes, under stepped clocks only, by steps, resets and new clocks. The index is the
latest time that a clock showed when it was replaced since the last reset. -/
inductive Restarted (start : Agent) : Int → Agent → Prop
  | start : Restarted start 0 start
  | step {ω ε : Type} {latest : Int} {agent : Agent} (world : World ω ε) (w : ω) :
      Restarted start latest agent → Restarted start latest (agent.step world w).2.1
  | reset {latest : Int} {agent : Agent} :
      Restarted start latest agent → Restarted start 0 agent.reset
  | setClock {latest : Int} {agent : Agent} (steps : Int) : Restarted start latest agent →
      Restarted start (max latest agent.time) (agent.setClock (.stepped steps))
  | setDiscipline {latest : Int} {agent : Agent} : Restarted start latest agent →
      Restarted start (max latest agent.time) (agent.setDiscipline .stepped)

variable {built start agent : Agent} {latest : Int}

/-- A run with a stepped clock replaces the clock once. -/
theorem Restarted.run (world : World ω ε) (config : Config) (w : ω)
    (hvalid : config.error? = none) (hstepped : config.timer.discipline agent.discipline = .stepped)
    (h : start.Restarted latest agent) :
    start.Restarted (max latest agent.time) (agent.run world config w).agent := by
  have hclock : config.timer.clock agent.discipline = .stepped 0 := by
    rw [Timer.clock, hstepped]
    rfl
  rw [Agent.run, hvalid, hclock]
  exact Run.proceed_invariant (fun _ w hagent => hagent.step world w) (h.setClock 0)

/-- The times of the last firings are no later than the clock or the clocks before it. -/
structure Dated (latest : Int) (agent : Agent) : Prop where
  clock : ∃ steps, agent.clock = .stepped steps ∧ 0 ≤ steps
  nonneg : 0 ≤ latest
  lastFired : ∀ drive ∈ agent.levels.flatten, drive.lastFired ≤ max latest agent.time

/-- A step dates its firing by the clock, which is not ahead of the later of its own time and the
latest time of a replaced clock. -/
theorem Dated.step (h : agent.Dated latest) (world : World ω ε) (w : ω) :
    (agent.step world w).2.1.Dated latest := by
  obtain ⟨⟨steps, hclock, hpos⟩, hlatest, hlast⟩ := h
  have htime : agent.time = steps := by
    rw [Agent.time, hclock]
    rfl
  have hopened : agent.clock.beginStep.time = steps := by
    rw [hclock]
    rfl
  -- A step moves the clock on, if at all.
  have hafter : ∃ steps', (agent.step world w).2.1.clock = .stepped steps' ∧ steps ≤ steps' := by
    rcases hstep : agent.step world w with ⟨result, after, w'⟩
    cases result with
    | error e => exact ⟨steps, by rw [clock_of_step_error hstep, hclock]; rfl, Int.le_refl _⟩
    | ok outcome =>
      exact ⟨steps + 1, by rw [clock_of_step_ok hstep, hclock]; rfl, by omega⟩
  obtain ⟨steps', hclock', hle⟩ := hafter
  have htime' : (agent.step world w).2.1.time = steps' := by
    rw [Agent.time, hclock']
    rfl
  refine ⟨⟨steps', hclock', by omega⟩, hlatest, fun drive hdrive => ?_⟩
  obtain ⟨position, hposition⟩ := List.mem_iff_getElem?.1 hdrive
  obtain ⟨before, hbefore, -, ⟨-, hfired, -⟩ | ⟨-, hkept⟩⟩ := step_firing world w hposition
  · rw [hfired, hopened, htime']
    omega
  · have hearlier := hlast before (List.mem_of_getElem? hbefore)
    rw [hkept, htime']
    omega

/-- When a clock is replaced, the time that it showed joins the bound, so that no firing is ahead
of the bound although the new clock starts over. -/
theorem Dated.setClock (h : agent.Dated latest) (steps : Int) :
    (agent.setClock (.stepped steps)).Dated (max latest agent.time) := by
  obtain ⟨-, hlatest, hlast⟩ := h
  refine ⟨⟨0, rfl, Int.le_refl 0⟩, by omega, fun drive hdrive => ?_⟩
  have hearlier := hlast drive hdrive
  omega

/-- A reset forgets all firings, and with them the times of clocks that have been replaced. -/
theorem Dated.reset (h : agent.Dated latest) : agent.reset.Dated 0 := by
  obtain ⟨⟨steps, hclock, -⟩, -, -⟩ := h
  have hreset : agent.reset.clock = .stepped 0 := by
    rw [Agent.reset, hclock]
    rfl
  have htime : agent.reset.time = 0 := by
    rw [Agent.time, hreset]
    rfl
  refine ⟨⟨0, hreset, Int.le_refl 0⟩, Int.le_refl 0, fun drive hdrive => ?_⟩
  rw [Agent.reset, ← List.map_flatten] at hdrive
  obtain ⟨old, _, rfl⟩ := List.mem_map.1 hdrive
  have hnever : old.reset.lastFired = Drive.neverFired := rfl
  rw [htime, hnever]
  decide

/-- Under stepped clocks that start over, the last firing of an element is never later than the
clock or the latest time of a replaced one. -/
theorem Restarted.dated (hstart : start.Dated 0) (h : start.Restarted latest agent) :
    agent.Dated latest := by
  induction h with
  | start => exact hstart
  | step world w _ ih => exact ih.step world w
  | reset _ ih => exact ih.reset
  | setClock steps _ ih => exact ih.setClock steps
  | setDiscipline _ ih =>
    have hclock := ih.setClock 0
    exact ⟨⟨0, rfl, Int.le_refl 0⟩, hclock.nonneg, hclock.lastFired⟩

theorem AsBuilt.dated (hbuilt : built.AsBuilt) : (built.setDiscipline .stepped).Dated 0 := by
  refine ⟨⟨0, rfl, Int.le_refl 0⟩, Int.le_refl 0, fun drive hdrive => ?_⟩
  have hnever : drive.lastFired = Drive.neverFired := by
    rw [← List.forall_mem_flatten.2 hbuilt.unused drive hdrive]
    rfl
  have htime : (built.setDiscipline .stepped).time = 0 := rfl
  rw [htime, hnever]
  decide

end Agent

/-- Under stepped clocks no drive element was fired after the time that the clock shows, or that
a clock showed when it was replaced since the last reset. So an interval does not hold a drive
element back for longer than it takes from there. A run replaces the clock once. -/
theorem lastFired_le_latest {registry : Registry} {plan : Plan} {built agent : Agent}
    (hbuild : plan.build registry = .ok built) {latest : Int}
    (h : (built.setDiscipline .stepped).Restarted latest agent) :
    (∀ drive ∈ agent.levels.flatten,
      drive.lastFired ≤ max latest agent.time ∧
        (latest = 0 → drive.lastFired ≤ agent.time) ∧
        ∀ interval now, drive.interval = some interval →
          max latest agent.time + interval ≤ now → drive.tooEarly now = false) ∧
      ∀ {ω ε : Type} (world : World ω ε) (config : Config) (w : ω), config.error? = none →
        config.timer.discipline agent.discipline = .stepped →
          (built.setDiscipline .stepped).Restarted (max latest agent.time)
            (agent.run world config w).agent := by
  refine ⟨fun drive hdrive => ?_, fun world config w hvalid hstepped =>
    h.run world config w hvalid hstepped⟩
  obtain ⟨⟨steps, hclock, hpos⟩, -, hlast⟩ := h.dated (build_asBuilt hbuild).dated
  have hfired := hlast drive hdrive
  have htime : agent.time = steps := by
    rw [Agent.time, hclock]
    rfl
  refine ⟨hfired, fun hlatest => by omega, fun interval now hinterval hnow => ?_⟩
  simp only [Drive.tooEarly, hinterval, Bool.and_eq_false_iff, decide_eq_false_iff_not]
  omega

/-! ## A drum -/

def drums : Registry :=
  ⟨["drum"], ⟨[("hit", ⟨"drum", ⟨"drum", "hit"⟩⟩)]⟩, .empty⟩

/-- One drive element that is always ready, but for its interval. -/
def beatPlan (interval : Int) : Plan where
  docstring := none
  collection := some
    { tag := "SDC", name := "rhythm", goal := none
      levels := [[⟨"beat", none, "hit", some interval⟩]] }
  competences := []
  patterns := []

/-- The agent of `beatPlan`. -/
def beater (interval : Int) : Agent where
  name := "rhythm"
  discipline := .stepped
  docstring := none
  library := ⟨[], []⟩
  goal := []
  levels := [[.fresh ⟨[], []⟩ "beat" [] (.action ⟨"drum", "hit"⟩) (some interval)]]
  clock := .stepped 0

theorem build_beatPlan (interval : Int) :
    (beatPlan interval).build drums = .ok (beater interval) := by
  rfl

/-- `beater` after three steps. -/
def beaten (interval : Int) : Agent :=
  let after (agent : Agent) := (agent.step idle ()).2.1
  after (after (after (beater interval)))

/-- With an interval of two, the second of three steps fires nothing. -/
theorem firing_rate_limited_beaten :
    (beatPlan 2).build drums = .ok (beater 2) ∧ (beater 2).Reaches (beaten 2) ∧
      (beater 2).Notes Agent.firing? [some ⟨0, 2⟩, none, some ⟨0, 0⟩] (beaten 2) ∧
      (beaten 2).Throttled [some ⟨0, 2⟩, none, some ⟨0, 0⟩] := by
  have hnotes : (beater 2).Notes Agent.firing? [some ⟨0, 2⟩, none, some ⟨0, 0⟩] (beaten 2) :=
    .step idle () (.step idle () (.step idle () .start))
  have hreaches : (beater 2).Reaches (beaten 2) := hnotes.reaches .start
  exact ⟨build_beatPlan 2, hreaches, hnotes,
    (firing_rate_limited (build_beatPlan 2) hreaches).2 _ _ .built hnotes⟩

/-- The agent of `beatPlan` with an interval of zero, whose clock started over after three
steps. -/
def restarted : Agent :=
  (beaten 0).setDiscipline .stepped

theorem restarted_beaten : ((beater 0).setDiscipline .stepped).Restarted 3 restarted :=
  .setDiscipline (.step idle () (.step idle () (.step idle () .start)))

theorem lastFired_le_latest_restarted :
    (beatPlan 0).build drums = .ok (beater 0) ∧
      ((beater 0).setDiscipline .stepped).Restarted 3 restarted ∧
      (∀ drive ∈ restarted.levels.flatten,
        drive.lastFired ≤ max 3 restarted.time ∧
          ((3 : Int) = 0 → drive.lastFired ≤ restarted.time) ∧
          ∀ interval now, drive.interval = some interval →
            max 3 restarted.time + interval ≤ now → drive.tooEarly now = false) ∧
      ∀ {ω ε : Type} (world : World ω ε) (config : Config) (w : ω), config.error? = none →
        config.timer.discipline restarted.discipline = .stepped →
          ((beater 0).setDiscipline .stepped).Restarted (max 3 restarted.time)
            (restarted.run world config w).agent :=
  ⟨build_beatPlan 0, restarted_beaten, lastFired_le_latest (build_beatPlan 0) restarted_beaten⟩

/-- A drive element may have been fired later than a clock that was replaced tells. Then not even
an interval of zero lets it be fired, although its trigger holds. -/
theorem lastFired_later_than_time :
    (beatPlan 0).build drums = .ok (beater 0) ∧
      ((beater 0).setDiscipline .stepped).Restarted 3 restarted ∧ restarted.time = 0 ∧
      restarted.levels.flatten.map
        (fun drive => (drive.trigger, drive.interval, drive.lastFired)) = [([], some 0, 2)] ∧
      (restarted.step idle ()).1 = .ok .lost :=
  ⟨build_beatPlan 0, restarted_beaten, rfl, rfl, rfl⟩

end SlipStack.Engine
