import SlipStack.Proofs.Engine.Reset

/-!
# Names of definitions make no difference

What an agent does depends on its definitions, not on their names. `Agent.Renames` relates two
agents whose drive elements are the same once the names of nodes are replaced, as are the nodes
that their libraries make for a reference. Two names may be replaced by the same one, so that
the first agent can have one definition under several names where the second has it under one.

Firing commutes with replacing names (`Node.fire_rename`, `Drive.attempt_rename`), and so do
steps and resets. So whatever is done with the two agents (`Agent.replay`), the same is seen of
them (`Agent.Renames.replay_eq`).
-/

namespace SlipStack.Engine

variable {ω ε : Type}

/-! ## Replacing names -/

section Rename

variable (f : String → String)

def NodeRef.rename : NodeRef → NodeRef
  | .competence name => .competence (f name)
  | .pattern name => .pattern (f name)

def Target.rename : Target → Target
  | .action capability => .action capability
  | .node ref => .node (ref.rename f)

def Element.rename (element : Element) : Element :=
  { element with target := element.target.rename f }

def Competence.rename (competence : Competence) : Competence where
  name := f competence.name
  goal := competence.goal
  levels := competence.levels.map fun level => level.map (Element.rename f)

def Step.rename : Step → Step
  | .competence name => .competence (f name)
  | step => step

def Pattern.rename (pattern : Pattern) : Pattern :=
  ⟨f pattern.name, pattern.steps.map (Step.rename f)⟩

def ElementState.rename (state : ElementState) : ElementState :=
  { state with element := state.element.rename f }

def Node.rename : Node → Node
  | .action capability => .action capability
  | .competence name goal levels =>
    .competence (f name) goal (levels.map fun level => level.map (ElementState.rename f))
  | .pattern name steps cursor => .pattern (f name) (steps.map (Step.rename f)) cursor

def Move.rename : Move → Move
  | .enter site ref => .enter site (ref.rename f)
  | move => move

/-- The drive element with other names for all nodes that it refers to or has entered. -/
def Drive.rename (drive : Drive) : Drive :=
  { drive with
    target := drive.target.rename f
    instances := drive.instances.map (Node.rename f) }

end Rename

variable {f : String → String}

theorem Competence.fresh_rename (competence : Competence) :
    (competence.rename f).fresh = competence.fresh.rename f := by
  rw [fresh, fresh, rename, Node.rename, map_levels_map, map_levels_map]
  rfl

theorem Pattern.fresh_rename (pattern : Pattern) :
    (pattern.rename f).fresh = pattern.fresh.rename f := rfl

/-- Resetting and renaming a node may be done in either order, since names play no part in the
state of use. -/
theorem Node.reset_rename (node : Node) : (node.rename f).reset = node.reset.rename f := by
  cases node with
  | action | pattern => rfl
  | competence name goal levels =>
    rw [rename, reset, reset, rename, map_levels_map, map_levels_map]
    rfl

/-! ## Firing -/

/-- An attempt on an element goes as before, and leads to where the other name does. -/
theorem ElementState.attempt_rename (world : World ω ε) (state : ElementState) (w : ω) :
    (state.rename f).attempt world w =
      let (result, state, w) := state.attempt world w
      (result.map (Option.map (Option.map (NodeRef.rename f))), state.rename f, w) := by
  have htrigger : (state.rename f).element.trigger = state.element.trigger := rfl
  have htarget : (state.rename f).element.target = state.element.target.rename f := rfl
  have hexhausted : (state.rename f).exhausted = state.exhausted := rfl
  rw [attempt, attempt, htrigger, htarget, hexhausted]
  rcases state.element.trigger.holds world w with ⟨passed, w₁⟩
  cases passed with
  | error e => rfl
  | ok passed => cases passed with
  | false => rfl
  | true =>
    dsimp only
    cases state.exhausted with
    | true => rfl
    | false =>
      cases state.element.target with
      | node ref => rfl
      | action capability =>
        simp only [Target.rename]
        rcases world.act capability w₁ with ⟨result, w₂⟩
        cases result <;> rfl

theorem Move.ofReady_rename (ready : Option (Nat × Option NodeRef)) :
    Move.ofReady (ready.map (Prod.map id (Option.map (NodeRef.rename f)))) =
      (Move.ofReady ready).rename f := by
  match ready with
  | none | some (_, none) | some (_, some _) => rfl

/-- A renamed competence does what the competence does: its elements call the same capabilities,
and the move it comes to is renamed. -/
theorem fireCompetence_rename (world : World ω ε) (goal : Trigger)
    (levels : List (List ElementState)) (w : ω) :
    fireCompetence world goal (levels.map fun level => level.map (ElementState.rename f)) w =
      let (result, levels, w) := fireCompetence world goal levels w
      (result.map (Move.rename f),
        levels.map fun level => level.map (ElementState.rename f), w) := by
  rw [fireCompetence, fireCompetence]
  rcases goal.reached world w with ⟨reached, w₁⟩
  cases reached with
  | error e => rfl
  | ok reached => cases reached with
  | true => rfl
  | false =>
    dsimp only
    rw [firstReadyByLevel_map (ElementState.attempt world) (ElementState.attempt_rename world)]
    rcases firstReadyByLevel (ElementState.attempt world) 0 levels w₁ with ⟨result, levels', w₂⟩
    cases result with
    | error e => rfl
    | ok ready =>
      dsimp only [Except.map]
      rw [Move.ofReady_rename]

/-- Where a pattern goes after a step does not depend on names; only the competence that it enters
at the end is renamed. -/
theorem afterStep_rename (steps : List Step) (cursor : Nat) (succeeded : Bool) :
    afterStep (steps.map (Step.rename f)) cursor succeeded =
      Prod.map (Move.rename f) id (afterStep steps cursor succeeded) := by
  rw [afterStep, afterStep, List.length_map]
  split <;> rfl

/-- A renamed pattern does what the pattern does, with the competence that it enters renamed. -/
theorem firePattern_rename (world : World ω ε) (steps : List Step) (cursor : Nat) (w : ω) :
    firePattern world (steps.map (Step.rename f)) cursor w =
      let (result, w) := firePattern world steps cursor w
      (result.map (Prod.map (Move.rename f) id), w) := by
  rw [firePattern, firePattern, List.getElem?_map]
  cases steps[cursor]? with
  | none => rfl
  | some step =>
    cases step with
    | competence name => rfl
    | action capability =>
      simp only [Option.map_some, Step.rename, afterStep_rename]
      rcases world.act capability w with ⟨result, w₁⟩
      cases result <;> rfl
    | sense sense =>
      simp only [Option.map_some, Step.rename, afterStep_rename]
      rcases sense.holds world w with ⟨result, w₁⟩
      cases result <;> rfl

/-- A node under another name fires as before, and leads to where the other name does. -/
theorem Node.fire_rename (world : World ω ε) (node : Node) (w : ω) :
    (node.rename f).fire world w =
      let (result, node, w) := node.fire world w
      (result.map (Move.rename f), node.rename f, w) := by
  cases node with
  | action capability =>
    rw [rename, fire]
    rcases world.act capability w with ⟨result, w₁⟩
    cases result <;> rfl
  | competence name goal levels =>
    rw [rename, fire, fire, fireCompetence_rename]
    rfl
  | pattern name steps cursor =>
    rw [rename, fire, fire, firePattern_rename]
    rcases firePattern world steps cursor w with ⟨result, w₁⟩
    cases result <;> rfl

/-! ## Drive elements -/

namespace Instances

theorem map_set (change : Node → Node) (instances : Instances) (path : Path) (node : Node) :
    (instances.set path node).map change = (instances.map change).set path (change node) := by
  induction instances generalizing path with
  | empty =>
    match path with
    | [] | [_] | _ :: _ :: _ => rfl
  | slot site old inner others ihInner ihOthers =>
    cases path with
    | nil => rfl
    | cons first rest =>
      simp only [set, map]
      by_cases hsite : first = site
      · by_cases hrest : rest = []
        · simp [hsite, hrest, map]
        · simp [hsite, hrest, map, ihInner]
      · simp [hsite, map, ihOthers]

theorem map_enter (change : Node → Node) (instances : Instances) (path : Path) (node : Node) :
    (instances.enter path node).map change = (instances.map change).enter path (change node) := by
  rw [enter, enter, get?_map]
  cases instances.get? path with
  | some old => rfl
  | none => exact map_set change instances path node

theorem map_map (first second : Node → Node) (instances : Instances) :
    (instances.map first).map second = instances.map (second ∘ first) := by
  induction instances with
  | empty => rfl
  | slot site node inner others ihInner ihOthers => simp [map, ihInner, ihOthers]

end Instances

/-- Both libraries make the same nodes, once names are replaced. -/
def Library.Renames (f : String → String) (library library' : Library) : Prop :=
  ∀ ref, library'.fresh (ref.rename f) = (library.fresh ref).rename f

namespace Drive

variable {library library' : Library}

/-- With libraries that correspond, the node that a renamed target starts from is the renamed one.
-/
theorem freshTarget_rename (hlibrary : library.Renames f library') (target : Target) :
    library'.freshTarget (target.rename f) = (library.freshTarget target).rename f := by
  cases target with
  | action capability => rfl
  | node ref => exact hlibrary ref

/-- Moves of the cursor go alike in both: paths are made of sites, which have no names, and a node
entered first is made from the corresponding library. -/
theorem follow_rename (hlibrary : library.Renames f library') (drive : Drive) (move : Move) :
    (drive.rename f).follow library' (move.rename f) = (drive.follow library move).rename f := by
  cases move with
  | stay | home => rfl
  | enter site ref =>
    simp only [Move.rename, follow, rename, Instances.map_enter, hlibrary ref]

theorem node_rename (hlibrary : library.Renames f library') (drive : Drive) :
    (drive.rename f).node library' = (drive.node library).rename f := by
  have hcurrent : (drive.rename f).current? = drive.current?.map (Node.rename f) :=
    Instances.get?_map _ _ _
  have htarget : (drive.rename f).target = drive.target.rename f := rfl
  rw [node, node, hcurrent, htarget, freshTarget_rename hlibrary]
  cases drive.current? <;> rfl

theorem store_rename (drive : Drive) (now : Int) (node : Node) :
    (drive.rename f).store now (node.rename f) = (drive.store now node).rename f := by
  simp only [store, rename, Instances.map_set]

/-- The attempt on a renamed drive element gives the same result, makes the same calls and leaves
the renamed drive element. -/
theorem attempt_rename (hlibrary : library.Renames f library') (world : World ω ε) (now : Int)
    (drive : Drive) (w : ω) :
    attempt library' world now (drive.rename f) w =
      let (result, drive, w) := attempt library world now drive w
      (result.map (Option.map id), drive.rename f, w) := by
  have htrigger : (drive.rename f).trigger.holds world w = drive.trigger.holds world w := rfl
  have htooEarly : (drive.rename f).tooEarly now = drive.tooEarly now := rfl
  rw [attempt, attempt, htrigger, htooEarly]
  rcases drive.trigger.holds world w with ⟨passed, w₁⟩
  cases passed with
  | error e => rfl
  | ok passed => cases passed with
  | false => rfl
  | true =>
    dsimp only
    split
    · rfl
    · -- Only the firing involves names, in the move that it comes to.
      rw [fire_eq, fire_eq, node_rename hlibrary, Node.fire_rename]
      rcases (drive.node library).fire world w₁ with ⟨result, node, w₂⟩
      cases result with
      | error e =>
        dsimp only [Except.map]
        rw [store_rename]
      | ok move =>
        dsimp only [Except.map]
        rw [store_rename, follow_rename hlibrary]
        rfl

theorem reset_rename (drive : Drive) : (drive.rename f).reset = drive.reset.rename f := by
  have hreset : Node.reset ∘ Node.rename f = Node.rename f ∘ Node.reset :=
    funext fun node => node.reset_rename
  simp only [reset, rename, Instances.map_map, hreset]

end Drive

/-! ## Agents -/

/-- Evaluations of levels that correspond give the same outcome and leave levels that correspond.
The induction is that of the search. -/
theorem evaluate_rename {library library' : Library} (hlibrary : library.Renames f library')
    (world : World ω ε) (goal : Trigger) (now : Int) (levels : List (List Drive)) (w : ω) :
    evaluate library' world goal now (levels.map fun level => level.map (Drive.rename f)) w =
      let (result, levels, w) := evaluate library world goal now levels w
      (result, levels.map fun level => level.map (Drive.rename f), w) := by
  rw [evaluate, evaluate]
  rcases goal.reached world w with ⟨reached, w₁⟩
  cases reached with
  | error e => rfl
  | ok reached => cases reached with
  | true => rfl
  | false =>
    dsimp only
    rw [firstReadyByLevel_map (Drive.attempt library world now)
      (Drive.attempt_rename hlibrary world now)]
    rcases firstReadyByLevel (Drive.attempt library world now) 0 levels w₁ with
      ⟨result, levels', w₂⟩
    rcases result with e | _ | _ <;> rfl

/-- What can be done with an agent. -/
inductive Control where
  | step
  | reset
  | setClock (clock : Clock)
  | setDiscipline (discipline : Discipline)

namespace Agent

/-- What is seen of an agent when all this is done with it, one after the other, and the world
that it leaves. -/
def replay (world : World ω ε) :
    List Control → Agent → ω → List (Observation ε) × ω
  | [], _, w => ([], w)
  | .step :: controls, agent, w =>
    let (result, after, w, calls) := agent.step world.traced (w, [])
    let (observations, w) := replay world controls after w
    (⟨result, calls.reverse, agent.clock.beginStep.time, after.time⟩ :: observations, w)
  | .reset :: controls, agent, w => replay world controls agent.reset w
  | .setClock clock :: controls, agent, w => replay world controls (agent.setClock clock) w
  | .setDiscipline discipline :: controls, agent, w =>
    replay world controls (agent.setDiscipline discipline) w

/-- The second agent is the first with its names replaced. -/
structure Renames (f : String → String) (agent agent' : Agent) : Prop where
  library : agent.library.Renames f agent'.library
  goal : agent'.goal = agent.goal
  clock : agent'.clock = agent.clock
  levels : agent'.levels = agent.levels.map fun level => level.map (Drive.rename f)

variable {agent agent' : Agent}

namespace Renames

theorem step (h : agent.Renames f agent') (world : World ω ε) (w : ω) :
    Agree (Renames f) (agent.step world w) (agent'.step world w) := by
  rw [Agent.step, Agent.step, h.goal, h.clock, h.levels, evaluate_rename h.library]
  rcases evaluate agent.library world agent.goal agent.clock.beginStep.time agent.levels w with
    ⟨result, levels, w₁⟩
  cases result with
  | error e => exact ⟨rfl, ⟨h.library, rfl, rfl, rfl⟩, rfl⟩
  | ok outcome => exact ⟨rfl, ⟨h.library, rfl, rfl, rfl⟩, rfl⟩

theorem reset (h : agent.Renames f agent') : agent.reset.Renames f agent'.reset := by
  refine ⟨h.library, h.goal, congrArg Clock.reset h.clock, ?_⟩
  have hreset : Drive.reset ∘ Drive.rename f = Drive.rename f ∘ Drive.reset :=
    funext fun drive => drive.reset_rename
  simp only [Agent.reset]
  rw [h.levels, map_levels_map, map_levels_map, hreset]

theorem setClock (h : agent.Renames f agent') (clock : Clock) :
    (agent.setClock clock).Renames f (agent'.setClock clock) :=
  ⟨h.library, h.goal, rfl, h.levels⟩

theorem setDiscipline (h : agent.Renames f agent') (discipline : Discipline) :
    (agent.setDiscipline discipline).Renames f (agent'.setDiscipline discipline) :=
  ⟨h.library, h.goal, rfl, h.levels⟩

/-- The two agents cannot be told apart by what is seen of them. -/
theorem replay_eq (h : agent.Renames f agent') (world : World ω ε) (controls : List Control)
    (w : ω) : agent.replay world controls w = agent'.replay world controls w := by
  induction controls generalizing agent agent' w with
  | nil => rfl
  | cons control controls ih =>
    cases control with
    | reset => exact ih h.reset w
    | setClock clock => exact ih (h.setClock clock) w
    | setDiscipline discipline => exact ih (h.setDiscipline discipline) w
    | step =>
      obtain ⟨result, after, after', ⟨w₁, calls⟩, hleft, hright, hstate⟩ :=
        (h.step world.traced (w, [])).exists_eq
      have htime : after.time = after'.time := congrArg Clock.time hstate.clock.symm
      rw [replay, replay, h.clock, hleft, hright]
      dsimp only
      rw [ih hstate, htime]

end Renames

end Agent

end SlipStack.Engine
