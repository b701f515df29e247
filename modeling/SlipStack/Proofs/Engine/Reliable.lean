import SlipStack.Proofs.Engine.OneAction
import SlipStack.Proofs.Engine.Reached

/-!
# Worlds that can be relied on

A step fails only if a capability does. Where the world answers all calls that an agent may make
(`World.Reliable`), and what makes it do so is still there after each answer, every step and
every run has a result. The calls that an agent may make are told by the definitions that it was
built from (`Agent.Keeps`): the nodes it enters are uses of those.

There is one lemma for each function of the engine, from the sense to the run: it succeeds, and
the property of the world is kept.
-/

namespace SlipStack.Engine

variable {ω ε α β : Type} {allowed : Call → Prop} {p : ω → Prop} {world : World ω ε} {w : ω}

/-! ## The calls that there may be -/

def Trigger.calls (trigger : Trigger) : List Call :=
  trigger.map fun sense => .read sense.capability

def Target.calls : Target → List Call
  | .action capability => [.act capability]
  | .node _ => []

def Element.calls (element : Element) : List Call :=
  Trigger.calls element.trigger ++ element.target.calls

def Step.calls : Step → List Call
  | .action capability => [.act capability]
  | .sense tested => [.read tested.capability]
  | .competence _ => []

/-- The calls that firing a node may make. -/
def Node.calls : Node → List Call
  | .action capability => [.act capability]
  | .competence _ goal levels => Trigger.calls goal ++ levels.flatten.flatMap (·.element.calls)
  | .pattern _ steps _ => steps.flatMap Step.calls

theorem Node.calls_reset (node : Node) : node.reset.calls = node.calls := by
  cases node with
  | action | pattern => rfl
  | competence name goal levels =>
    rw [reset, calls, calls, ← List.map_flatten, List.flatMap_map]
    rfl

/-- Every call that the definitions of a library make is an allowed one. -/
def Library.Keeps (allowed : Call → Prop) (library : Library) : Prop :=
  ∀ ref, ∀ call ∈ (library.fresh ref).calls, allowed call

/-- Every call that the agent may make is an allowed one. -/
structure Agent.Keeps (allowed : Call → Prop) (agent : Agent) : Prop where
  library : agent.library.Keeps allowed
  goal : ∀ call ∈ Trigger.calls agent.goal, allowed call
  triggers : ∀ level ∈ agent.levels, ∀ drive ∈ level, ∀ call ∈ Trigger.calls drive.trigger,
    allowed call
  targets : ∀ level ∈ agent.levels, ∀ drive ∈ level, ∀ call ∈ drive.target.calls, allowed call

/-- Following a path through unused nodes only meets nodes of the library, whose calls are
allowed. -/
theorem Library.Keeps.unused? {library : Library} (h : library.Keeps allowed) {target : Target}
    (htarget : ∀ call ∈ target.calls, allowed call) {path : Path} {node : Node}
    (hnode : library.unused? target path = some node) : ∀ call ∈ node.calls, allowed call := by
  rcases library.unused?_cases hnode with rfl | ⟨ref, rfl⟩
  · cases target with
    | action capability => exact htarget
    | node ref => exact h ref
  · exact h ref

/-- The node that is fired next makes allowed calls only. -/
theorem Drive.Sound.calls_node {library : Library} (hlibrary : library.Keeps allowed)
    {drive : Drive} (h : drive.Sound library)
    (htarget : ∀ call ∈ drive.target.calls, allowed call) :
    ∀ call ∈ (drive.node library).calls, allowed call := by
  rw [← Node.calls_reset]
  exact hlibrary.unused? htarget h.unused?_cursor

/-! ## Worlds -/

/-- There is a result, and the property holds afterwards. -/
def Succeeds (p : α → Prop) (outcome : Except ε β × α) : Prop :=
  ∃ result after, outcome = (.ok result, after) ∧ p after

/-- Every allowed call is answered where the property holds, and the property is kept. -/
structure World.Reliable (world : World ω ε) (allowed : Call → Prop) (p : ω → Prop) : Prop where
  act : ∀ {capability : Capability} {w : ω}, allowed (.act capability) → p w →
    Succeeds p (world.act capability w)
  read : ∀ {capability : Capability} {w : ω}, allowed (.read capability) → p w →
    Succeeds p (world.read capability w)

/-- A world can be relied on if no allowed call makes an exchange with a failure. -/
theorem World.reliable_iff :
    world.Reliable allowed p ↔ ∀ call w, allowed call → p w →
      (world.answer call w).1.error? = none ∧ p (world.answer call w).2 := by
  constructor
  · intro h call w hallowed hw
    cases call with
    | act capability =>
      obtain ⟨succeeded, w', hact, hw'⟩ := h.act hallowed hw
      simp only [answer, hact]
      exact ⟨rfl, hw'⟩
    | read capability =>
      obtain ⟨reading, w', hread, hw'⟩ := h.read hallowed hw
      simp only [answer, hread]
      exact ⟨rfl, hw'⟩
  · intro h
    constructor
    · intro capability w hallowed hw
      obtain ⟨herror, hw'⟩ := h (.act capability) w hallowed hw
      rcases hact : world.act capability w with ⟨result, w'⟩
      simp only [answer, hact] at herror hw'
      cases result with
      | error e => cases herror
      | ok succeeded => exact ⟨succeeded, w', rfl, hw'⟩
    · intro capability w hallowed hw
      obtain ⟨herror, hw'⟩ := h (.read capability) w hallowed hw
      rcases hread : world.read capability w with ⟨result, w'⟩
      simp only [answer, hread] at herror hw'
      cases result with
      | error e => cases herror
      | ok reading => exact ⟨reading, w', rfl, hw'⟩

/-- On the record of a reliable world there are no failures. -/
theorem World.Reliable.recorded (h : world.Reliable allowed p) :
    world.recorded.Reliable allowed fun after =>
      p after.1 ∧ ∀ exchange ∈ after.2, exchange.error? = none := by
  refine World.reliable_iff.2 fun call after hallowed hafter => ?_
  obtain ⟨herror, hw⟩ := World.reliable_iff.1 h call after.1 hallowed hafter.1
  rw [World.answer_recorded]
  exact ⟨herror, hw, List.forall_mem_cons.2 ⟨herror, hafter.2⟩⟩

/-! ## Searches -/

/-- A search over elements whose attempts all succeed succeeds, and the property of the world is
handed from attempt to attempt. -/
theorem firstReady_succeeds {attempt : Attempt ω ε α β} {xs : List α}
    (h : ∀ x ∈ xs, ∀ w, p w → Succeeds (fun after => p after.2) (attempt x w))
    (position : Nat) (hw : p w) :
    Succeeds (fun after => p after.2) (firstReady attempt position xs w) := by
  induction xs generalizing position w with
  | nil => exact ⟨_, _, rfl, hw⟩
  | cons x xs ih =>
    obtain ⟨hx, hxs⟩ := List.forall_mem_cons.1 h
    obtain ⟨found, ⟨x', w₁⟩, hattempt, hw₁⟩ := hx w hw
    rw [firstReady, hattempt]
    cases found with
    | some found => exact ⟨_, _, rfl, hw₁⟩
    | none =>
      obtain ⟨result, ⟨xs', w₂⟩, hrest, hw₂⟩ := ih hxs (position + 1) hw₁
      dsimp only
      rw [hrest]
      exact ⟨_, _, rfl, hw₂⟩

theorem firstReadyByLevel_succeeds {attempt : Attempt ω ε α β} {levels : List (List α)}
    (h : ∀ level ∈ levels, ∀ x ∈ level, ∀ w, p w →
      Succeeds (fun after => p after.2) (attempt x w)) (position : Nat) (hw : p w) :
    Succeeds (fun after => p after.2) (firstReadyByLevel attempt position levels w) := by
  induction levels generalizing position w with
  | nil => exact ⟨_, _, rfl, hw⟩
  | cons level levels ih =>
    obtain ⟨hlevel, hlevels⟩ := List.forall_mem_cons.1 h
    obtain ⟨found, ⟨level', w₁⟩, hsearch, hw₁⟩ := firstReady_succeeds hlevel position hw
    rw [firstReadyByLevel, hsearch]
    cases found with
    | some found => exact ⟨_, _, rfl, hw₁⟩
    | none =>
      obtain ⟨result, ⟨levels', w₂⟩, hrest, hw₂⟩ :=
        ih hlevels (position + level.length) hw₁
      dsimp only
      rw [hrest]
      exact ⟨_, _, rfl, hw₂⟩

/-! ## What is evaluated -/

section Evaluation

variable (h : world.Reliable allowed p)
include h

/-- A sense that may be read has an answer, by what is assumed of the world. -/
theorem Sense.holds_succeeds {sense : Sense} (hsense : allowed (.read sense.capability))
    (hw : p w) : Succeeds p (sense.holds world w) := by
  obtain ⟨reading, w₁, hread, hw₁⟩ := h.read hsense hw
  rw [holds, hread]
  exact ⟨_, _, rfl, hw₁⟩

namespace Trigger

/-- A trigger whose senses may all be read has an answer; the senses it does not get to are not
needed for that. -/
theorem holds_succeeds {trigger : Trigger} (htrigger : ∀ call ∈ calls trigger, allowed call)
    (hw : p w) : Succeeds p (trigger.holds world w) := by
  induction trigger generalizing w with
  | nil => exact ⟨_, _, rfl, hw⟩
  | cons sense rest ih =>
    rw [calls, List.map_cons] at htrigger
    obtain ⟨hsense, hrest⟩ := List.forall_mem_cons.1 htrigger
    obtain ⟨passed, w₁, hfirst, hw₁⟩ := Sense.holds_succeeds h hsense hw
    rw [holds, hfirst]
    cases passed with
    | false => exact ⟨_, _, rfl, hw₁⟩
    | true => exact ih hrest hw₁

theorem reached_succeeds {goal : Trigger} (hgoal : ∀ call ∈ calls goal, allowed call)
    (hw : p w) : Succeeds p (goal.reached world w) := by
  rw [reached]
  split
  · exact ⟨_, _, rfl, hw⟩
  · exact holds_succeeds h hgoal hw

end Trigger

/-- An element of a competence succeeds if its trigger and its action are among the calls that the
world answers. -/
theorem ElementState.attempt_succeeds {state : ElementState}
    (hcalls : ∀ call ∈ state.element.calls, allowed call) (hw : p w) :
    Succeeds (fun after => p after.2) (state.attempt world w) := by
  obtain ⟨htrigger, htarget⟩ := List.forall_mem_append.1 hcalls
  obtain ⟨passed, w₁, hholds, hw₁⟩ := Trigger.holds_succeeds h htrigger hw
  rw [attempt, hholds]
  cases passed with
  | false => exact ⟨_, _, rfl, hw₁⟩
  | true =>
    dsimp only
    split
    · exact ⟨_, _, rfl, hw₁⟩
    · cases hnode : state.element.target with
      | node ref => exact ⟨_, _, rfl, hw₁⟩
      | action capability =>
        rw [hnode, Target.calls] at htarget
        obtain ⟨succeeded, w₂, hact, hw₂⟩ := h.act (htarget _ List.mem_cons_self) hw₁
        dsimp only
        rw [hact]
        exact ⟨_, _, rfl, hw₂⟩

namespace Node

/-- A competence whose calls are all allowed comes to a move in a reliable world. -/
theorem fireCompetence_succeeds {name : String} {goal : Trigger}
    {levels : List (List ElementState)}
    (hcalls : ∀ call ∈ (competence name goal levels).calls, allowed call) (hw : p w) :
    Succeeds (fun after => p after.2) (fireCompetence world goal levels w) := by
  obtain ⟨hgoal, helements⟩ := List.forall_mem_append.1 hcalls
  obtain ⟨reached, w₁, hreached, hw₁⟩ := Trigger.reached_succeeds h hgoal hw
  rw [fireCompetence, hreached]
  cases reached with
  | true => exact ⟨_, _, rfl, hw₁⟩
  | false =>
    have hattempts : ∀ level ∈ levels, ∀ state ∈ level, ∀ w, p w →
        Succeeds (fun after => p after.2) (state.attempt world w) := by
      intro level hlevel state hstate w hw
      refine ElementState.attempt_succeeds h (fun call hcall => helements call ?_) hw
      exact List.mem_flatMap_of_mem (List.mem_flatten_of_mem hlevel hstate) hcall
    obtain ⟨ready, ⟨levels', w₂⟩, hsearch, hw₂⟩ := firstReadyByLevel_succeeds hattempts 0 hw₁
    dsimp only
    rw [hsearch]
    exact ⟨_, _, rfl, hw₂⟩

/-- A pattern whose calls are all allowed comes to a move in a reliable world, at whichever step
it stands. -/
theorem firePattern_succeeds {name : String} {steps : List Step} {cursor : Nat}
    (hcalls : ∀ call ∈ (pattern name steps cursor).calls, allowed call) (hw : p w) :
    Succeeds p (firePattern world steps cursor w) := by
  have hstep : ∀ step, steps[cursor]? = some step → ∀ call ∈ step.calls, allowed call :=
    fun step hstep call hcall =>
      hcalls call (List.mem_flatMap_of_mem (List.mem_of_getElem? hstep) hcall)
  rw [firePattern]
  split
  · exact ⟨_, _, rfl, hw⟩
  · exact ⟨_, _, rfl, hw⟩
  · rename_i capability hfound
    obtain ⟨succeeded, w₁, hact, hw₁⟩ :=
      h.act (hstep _ hfound (.act capability) List.mem_cons_self) hw
    rw [hact]
    exact ⟨_, _, rfl, hw₁⟩
  · rename_i sense hfound
    obtain ⟨passed, w₁, hholds, hw₁⟩ :=
      Sense.holds_succeeds h (hstep _ hfound (.read sense.capability) List.mem_cons_self) hw
    rw [hholds]
    exact ⟨_, _, rfl, hw₁⟩

/-- A node whose calls are all allowed comes to a move in a reliable world. -/
theorem fire_succeeds {node : Node} (hcalls : ∀ call ∈ node.calls, allowed call) (hw : p w) :
    Succeeds (fun after => p after.2) (node.fire world w) := by
  cases node with
  | action capability =>
    obtain ⟨succeeded, w₁, hact, hw₁⟩ := h.act (hcalls _ List.mem_cons_self) hw
    rw [fire, hact]
    exact ⟨_, _, rfl, hw₁⟩
  | competence name goal levels =>
    obtain ⟨move, ⟨levels', w₁⟩, hfire, hw₁⟩ := fireCompetence_succeeds h hcalls hw
    rw [fire, hfire]
    exact ⟨_, _, rfl, hw₁⟩
  | pattern name steps cursor =>
    obtain ⟨⟨move, cursor'⟩, w₁, hfire, hw₁⟩ := firePattern_succeeds h hcalls hw
    rw [fire, hfire]
    exact ⟨_, _, rfl, hw₁⟩

end Node

/-- A sound drive element of a library with allowed calls succeeds, as the node at its cursor is
one of that library, in some state of use. -/
theorem Drive.attempt_succeeds {library : Library} (hlibrary : library.Keeps allowed)
    {drive : Drive} (hsound : drive.Sound library)
    (htrigger : ∀ call ∈ Trigger.calls drive.trigger, allowed call)
    (htarget : ∀ call ∈ drive.target.calls, allowed call) (now : Int) (hw : p w) :
    Succeeds (fun after => p after.2) (drive.attempt library world now w) := by
  obtain ⟨passed, w₁, hholds, hw₁⟩ := Trigger.holds_succeeds h htrigger hw
  rw [attempt, hholds]
  cases passed with
  | false => exact ⟨_, _, rfl, hw₁⟩
  | true =>
    dsimp only
    split
    · exact ⟨_, _, rfl, hw₁⟩
    · obtain ⟨move, ⟨node, w₂⟩, hfire, hw₂⟩ :=
        Node.fire_succeeds h (hsound.calls_node hlibrary htarget) hw₁
      rw [fire_eq, hfire]
      exact ⟨_, _, rfl, hw₂⟩

theorem evaluate_succeeds {library : Library} (hlibrary : library.Keeps allowed) {goal : Trigger}
    (hgoal : ∀ call ∈ Trigger.calls goal, allowed call) {levels : List (List Drive)}
    (hlevels : ∀ level ∈ levels, ∀ drive ∈ level, drive.Sound library ∧
      (∀ call ∈ Trigger.calls drive.trigger, allowed call) ∧
      ∀ call ∈ drive.target.calls, allowed call) (now : Int) (hw : p w) :
    Succeeds (fun after => p after.2) (evaluate library world goal now levels w) := by
  obtain ⟨reached, w₁, hreached, hw₁⟩ := Trigger.reached_succeeds h hgoal hw
  rw [evaluate, hreached]
  cases reached with
  | true => exact ⟨_, _, rfl, hw₁⟩
  | false =>
    have hattempts : ∀ level ∈ levels, ∀ drive ∈ level, ∀ w, p w →
        Succeeds (fun after => p after.2) (drive.attempt library world now w) := by
      intro level hlevel drive hdrive w hw
      obtain ⟨hsound, htrigger, htarget⟩ := hlevels level hlevel drive hdrive
      exact Drive.attempt_succeeds h hlibrary hsound htrigger htarget now hw
    obtain ⟨ready, ⟨levels', w₂⟩, hsearch, hw₂⟩ := firstReadyByLevel_succeeds hattempts 0 hw₁
    dsimp only
    rw [hsearch]
    cases ready <;> exact ⟨_, _, rfl, hw₂⟩

end Evaluation

/-! ## Steps and runs -/

namespace Agent

variable {built agent : Agent}

/-- What an agent stems from has drive elements of the same triggers and targets. -/
theorem KeptBy.keeps (hkept : built.KeptBy agent) (hkeeps : built.Keeps allowed)
    {level : List Drive}
    (hlevel : level ∈ agent.levels) {drive : Drive} (hdrive : drive ∈ level) :
    (∀ call ∈ Trigger.calls drive.trigger, allowed call) ∧
      ∀ call ∈ drive.target.calls, allowed call := by
  have hlevel' : level.map (Drive.unused built.library) ∈ built.levels := by
    rw [← hkept.unused]
    exact List.mem_map_of_mem hlevel
  have hdrive' : drive.unused built.library ∈ level.map (Drive.unused built.library) :=
    List.mem_map_of_mem hdrive
  exact ⟨hkeeps.triggers _ hlevel' (drive.unused built.library) hdrive',
    hkeeps.targets _ hlevel' (drive.unused built.library) hdrive'⟩

/-- A step has an outcome in a reliable world, and leaves the world one in which the next step has
one too. -/
theorem KeptBy.step_succeeds (hkept : built.KeptBy agent) (hkeeps : built.Keeps allowed)
    (h : world.Reliable allowed p) (hw : p w) :
    Succeeds (fun after => p after.2) (agent.step world w) := by
  have hgoal : ∀ call ∈ Trigger.calls agent.goal, allowed call := by
    rw [hkept.goal]
    exact hkeeps.goal
  have hlevels : ∀ level ∈ agent.levels, ∀ drive ∈ level, drive.Sound built.library ∧
      (∀ call ∈ Trigger.calls drive.trigger, allowed call) ∧
      ∀ call ∈ drive.target.calls, allowed call :=
    fun level hlevel drive hdrive =>
      ⟨hkept.sound level hlevel drive hdrive, hkept.keeps hkeeps hlevel hdrive⟩
  obtain ⟨outcome, ⟨levels, w₁⟩, hevaluate, hw₁⟩ :=
    evaluate_succeeds h hkeeps.library hgoal hlevels agent.clock.beginStep.time hw
  rw [Agent.step, hkept.library, hevaluate]
  exact ⟨_, _, rfl, hw₁⟩

theorem KeptBy.proceed_succeeds (hlast : built.library.CompetencesLast)
    (hkeeps : built.Keeps allowed) (h : world.Reliable allowed p) (stopOnLost : Bool)
    (remaining : Nat) (tally : Run.Tally) (reports : List Report) (hkept : built.KeptBy agent)
    (hw : p w) :
    (∃ summary,
        (Run.proceed (Agent.step world) Agent.time stopOnLost remaining tally reports agent
          w).result =
          .ok summary) ∧
      p (Run.proceed (Agent.step world) Agent.time stopOnLost remaining tally reports agent
        w).world := by
  induction remaining generalizing tally reports agent w with
  | zero => exact ⟨⟨_, rfl⟩, hw⟩
  | succ remaining ih =>
    -- The agent behind a step stems from the built one still, and so the next step succeeds too.
    obtain ⟨outcome, ⟨agent', w₁⟩, hstep, hw₁⟩ := hkept.step_succeeds hkeeps h hw
    rw [Run.proceed, hstep]
    dsimp only
    split
    · exact ⟨⟨_, rfl⟩, hw₁⟩
    · exact ih _ _ (hkept.step hlast hstep) hw₁

/-- A run in a reliable world has a summary, unless the configuration is refused. -/
theorem KeptBy.run_succeeds (hlast : built.library.CompetencesLast) (hkeeps : built.Keeps allowed)
    (h : world.Reliable allowed p) (hkept : built.KeptBy agent) (config : Config) (hw : p w) :
    (config.error? = none → ∃ summary, (agent.run world config w).result = .ok summary) ∧
      p (agent.run world config w).world := by
  rw [Agent.run]
  cases hvalid : config.error? with
  | some error => exact ⟨fun hnone => absurd hnone (Option.some_ne_none error), hw⟩
  | none =>
    obtain ⟨hsummary, hworld⟩ :=
      KeptBy.proceed_succeeds hlast hkeeps h config.stopOnLost config.maxSteps .zero []
        (hkept.setClock _) hw
    exact ⟨fun _ => hsummary, hworld⟩

end Agent

end SlipStack.Engine
