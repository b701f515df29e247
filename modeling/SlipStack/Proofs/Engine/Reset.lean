import SlipStack.Proofs.Engine.Reached

/-!
# Reset is complete

A reset agent keeps the nodes that were entered, and one that was just built has none but
the roots. The difference cannot be seen. `Drive.nodeAt?` gives the node at a path, or the
one that would be made there, and drive elements that agree in it are alike
(`Drive.Alike`). Agents that are alike stay so, step by step, and make the same
observations (`Agent.Alike.observe_eq`): the same results, calls and times.

Resetting makes alike what has the same definitions (`Drive.alike_reset`).
-/

namespace SlipStack.Engine

variable {ω ε : Type} {library : Library} {now : Int}

/-! ## Observations -/

/-- What is seen of a step. -/
structure Observation (ε : Type) where
  result : Except ε Outcome
  /-- The actions called and senses read, in order. -/
  calls : List Call
  /-- The time that the clock showed for the step. -/
  opened : Int
  /-- The time that the clock showed afterwards. -/
  closed : Int

/-- What is seen of a number of steps, and the world that they leave. A step that fails is
not the last one. -/
def Agent.observe (world : World ω ε) : Nat → Agent → ω → List (Observation ε) × ω
  | 0, _, w => ([], w)
  | n + 1, agent, w =>
    let (result, after, w, calls) := agent.step world.traced (w, [])
    let (observations, w) := Agent.observe world n after w
    (⟨result, calls.reverse, agent.clock.beginStep.time, after.time⟩ :: observations, w)

/-! ## Drive elements -/

namespace Drive

variable {drive drive' : Drive}

/-- The node at a path, or the one that entering would make there. -/
def nodeAt? (library : Library) (drive : Drive) (path : Path) : Option Node :=
  (drive.instances.get? path).or (library.unused? drive.target path)

theorem nodeAt?_of_get? {path : Path} {node : Node} (h : drive.instances.get? path = some node) :
    drive.nodeAt? library path = some node := by
  rw [nodeAt?, h, Option.some_or]

/-- The node at the cursor is there already, so both ways of looking at the path, stored or made
anew, give it. -/
theorem Sound.nodeAt?_cursor (h : drive.Sound library) :
    drive.nodeAt? library drive.cursor = some (drive.node library) :=
  nodeAt?_of_get? h.current?_eq

/-- Storing a node changes what the path of the cursor leads to and nothing else, also for paths
where nothing has been entered yet. -/
theorem Sound.nodeAt?_store (h : drive.Sound library) (node : Node) (path : Path) :
    (drive.store now node).nodeAt? library path =
      if path = drive.cursor then some node else drive.nodeAt? library path := by
  split
  · rename_i hpath
    subst hpath
    exact nodeAt?_of_get? (Instances.get?_set_self node h.cursor)
  · rename_i hpath
    rw [nodeAt?, nodeAt?, Drive.store, Instances.get?_set_ne _ _ hpath]

/-- To enter a node adds nothing to what stands where. -/
theorem Sound.nodeAt?_follow (h : drive.Sound library) {move : Move}
    (hmove : ∀ site ref, move = .enter site ref → (drive.node library).site? site = some ref)
    (path : Path) : (drive.follow library move).nodeAt? library path =
      drive.nodeAt? library path := by
  cases move with
  | stay | home => rfl
  | enter site ref =>
    have hunused := h.unused?_site (hmove site ref rfl)
    rw [nodeAt?, nodeAt?, Drive.follow]
    by_cases hpath : path = drive.cursor ++ [site]
    · subst hpath
      rw [Instances.get?_enter_append site _ h.cursor, hunused]
      cases drive.instances.get? (drive.cursor ++ [site]) <;> rfl
    · rw [Instances.get?_enter_ne _ _ hpath]

/-- After a reset every path leads to what it would lead to in a drive element that was never
used, be the node stored or not. -/
theorem Sound.nodeAt?_reset (h : drive.Sound library) (path : Path) :
    drive.reset.nodeAt? library path = library.unused? drive.target path := by
  rw [nodeAt?, Drive.reset, Instances.get?_map]
  cases hnode : drive.instances.get? path with
  | none => rfl
  | some node =>
    rw [h.uses hnode]
    rfl

/-- What is the same before the first use has the same definition. -/
theorem of_unused_eq (h : drive.unused library = drive'.unused library) :
    drive.trigger = drive'.trigger ∧ drive.target = drive'.target ∧
      drive.interval = drive'.interval := by
  rw [unused, unused, fresh, fresh, Drive.mk.injEq] at h
  obtain ⟨-, htrigger, htarget, hinterval, -⟩ := h
  exact ⟨htrigger, htarget, hinterval⟩

/-- Two drive elements differ in nothing but the nodes that were entered. -/
structure Alike (library : Library) (drive drive' : Drive) : Prop where
  sound : drive.Sound library
  sound' : drive'.Sound library
  unused : drive.unused library = drive'.unused library
  cursor : drive.cursor = drive'.cursor
  lastFired : drive.lastFired = drive'.lastFired
  nodeAt : ∀ path, drive.nodeAt? library path = drive'.nodeAt? library path

namespace Alike

/-- Drive elements that are alike fire the same node, although one may have it in its tree and the
other may still have to make it. -/
theorem node_eq (h : drive.Alike library drive') : drive.node library = drive'.node library := by
  have hnode := h.nodeAt drive.cursor
  rw [h.sound.nodeAt?_cursor, h.cursor, h.sound'.nodeAt?_cursor] at hnode
  exact Option.some.inj hnode

theorem tooEarly_eq (h : drive.Alike library drive') (now : Int) :
    drive.tooEarly now = drive'.tooEarly now := by
  obtain ⟨-, -, hinterval⟩ := of_unused_eq h.unused
  rw [tooEarly, tooEarly, hinterval, h.lastFired]

/-- Drive elements that are alike stay so if both store the same node at their common cursor. -/
theorem store (h : drive.Alike library drive') {node : Node}
    (hnode : node.reset = (drive.node library).reset) :
    (drive.store now node).Alike library (drive'.store now node) := by
  have hnode' : node.reset = (drive'.node library).reset := by rw [hnode, h.node_eq]
  refine ⟨h.sound.store hnode, h.sound'.store hnode', h.unused, h.cursor, rfl, ?_⟩
  intro path
  rw [h.sound.nodeAt?_store, h.sound'.nodeAt?_store, h.cursor, h.nodeAt]

/-- Drive elements that are alike stay so if both make the same move; entering makes a node in the
one where the other has it at rest. -/
theorem follow (h : drive.Alike library drive') {move : Move}
    (hmove : ∀ site ref, move = .enter site ref → (drive.node library).site? site = some ref) :
    (drive.follow library move).Alike library (drive'.follow library move) := by
  have hmove' := hmove
  rw [h.node_eq] at hmove'
  refine ⟨h.sound.follow hmove, h.sound'.follow hmove', ?_, ?_, ?_, ?_⟩
  · cases move <;> exact h.unused
  · cases move with
    | stay => exact h.cursor
    | home => rfl
    | enter site ref => exact congrArg (· ++ [site]) h.cursor
  · cases move <;> exact h.lastFired
  · intro path
    rw [h.sound.nodeAt?_follow hmove, h.sound'.nodeAt?_follow hmove', h.nodeAt]

/-- Attempts on drive elements that are alike take the same course. -/
theorem attempt_agree (hlast : library.CompetencesLast) (world : World ω ε) (now : Int)
    (drive drive' : Drive) (w : ω) (h : drive.Alike library drive') :
    Agree (Alike library) (attempt library world now drive w)
      (attempt library world now drive' w) := by
  have htrigger : drive'.trigger.holds world w = drive.trigger.holds world w := by
    rw [(of_unused_eq h.unused).1]
  rw [attempt, attempt, htrigger, h.tooEarly_eq]
  rcases drive.trigger.holds world w with ⟨passed, w₁⟩
  cases passed with
  | error e => exact ⟨rfl, h, rfl⟩
  | ok passed =>
    cases passed with
    | false => exact ⟨rfl, h, rfl⟩
    | true =>
      dsimp only
      split
      · exact ⟨rfl, h, rfl⟩
      · rw [fire_eq, fire_eq, ← h.node_eq]
        rcases hfire : (drive.node library).fire world w₁ with ⟨result, node, w₂⟩
        have hfired := Node.fire_fired hfire
        have hstored : (drive.store now node).Alike library (drive'.store now node) :=
          h.store hfired.reset_eq
        cases result with
        | error e => exact ⟨rfl, hstored, rfl⟩
        | ok move =>
          -- Both make the same move; a site that is entered is one of the common node.
          refine ⟨rfl, hstored.follow fun site ref hmove => ?_, rfl⟩
          subst hmove
          rw [h.sound.node_store, Node.site?_congr hfired.reset_eq]
          exact hfired.site?_eq (h.sound.competenceLast hlast)

end Alike

/-- Drive elements with the same definitions are alike after a reset. -/
theorem alike_reset (h : drive.Sound library) (h' : drive'.Sound library)
    (hunused : drive.unused library = drive'.unused library) :
    drive.reset.Alike library drive'.reset := by
  obtain ⟨-, htarget, -⟩ := of_unused_eq hunused
  refine ⟨h.reset, h'.reset, hunused, rfl, rfl, ?_⟩
  intro path
  rw [h.nodeAt?_reset, h'.nodeAt?_reset, htarget]

/-- Resetting does nothing to a drive element that was just built. -/
theorem reset_unused (library : Library) (drive : Drive) :
    (drive.unused library).reset = drive.unused library := by
  rw [unused, fresh, reset]
  simp [Instances.set, Instances.map, home]

/-- After a reset a drive element is like the one that was built. -/
theorem Sound.alike_unused (h : drive.Sound library) :
    drive.reset.Alike library (drive.unused library) := by
  rw [← reset_unused]
  exact alike_reset h (fresh_sound ..) rfl

end Drive

/-- Levels that are alike are evaluated alike: same outcome, same calls, and levels that are alike
again. -/
theorem evaluate_agree (hlast : library.CompetencesLast) (world : World ω ε) (goal : Trigger)
    (now : Int) {levels levels' : List (List Drive)}
    (h : List.Forall₂ (List.Forall₂ (Drive.Alike library)) levels levels') (w : ω) :
    Agree (List.Forall₂ (List.Forall₂ (Drive.Alike library)))
      (evaluate library world goal now levels w) (evaluate library world goal now levels' w) := by
  rw [evaluate, evaluate]
  rcases goal.reached world w with ⟨reached, w₁⟩
  cases reached with
  | error e => exact ⟨rfl, h, rfl⟩
  | ok reached =>
    cases reached with
    | true => exact ⟨rfl, h, rfl⟩
    | false =>
      obtain ⟨found, after, after', w₂, hleft, hright, hstate⟩ :=
        (firstReadyByLevel_agree (Drive.Alike.attempt_agree hlast world now) h 0 w₁).exists_eq
      dsimp only
      rw [hleft, hright]
      rcases found with e | _ | _ <;> exact ⟨rfl, hstate, rfl⟩

/-! ## Agents -/

namespace Agent

variable {agent agent' built : Agent}

/-- Two agents differ in nothing but the nodes that were entered. -/
structure Alike (agent agent' : Agent) : Prop where
  library : agent.library = agent'.library
  goal : agent.goal = agent'.goal
  clock : agent.clock = agent'.clock
  levels : List.Forall₂ (List.Forall₂ (Drive.Alike agent.library)) agent.levels agent'.levels

/-- Steps of agents that are alike take the same course. -/
theorem Alike.step_agree (hlast : agent.library.CompetencesLast) (h : agent.Alike agent')
    (world : World ω ε) (w : ω) : Agree Alike (agent.step world w) (agent'.step world w) := by
  obtain ⟨result, levels, levels', w₁, hleft, hright, hstate⟩ :=
    (evaluate_agree hlast world agent.goal agent.clock.beginStep.time h.levels w).exists_eq
  rw [step, step, ← h.library, ← h.goal, ← h.clock, hleft, hright]
  cases result with
  | error e => exact ⟨rfl, ⟨rfl, rfl, rfl, hstate⟩, rfl⟩
  | ok outcome => exact ⟨rfl, ⟨rfl, rfl, rfl, hstate⟩, rfl⟩

/-- Agents that are alike cannot be told apart by what is seen of them. -/
theorem Alike.observe_eq (hlast : agent.library.CompetencesLast) (h : agent.Alike agent')
    (world : World ω ε) (n : Nat) (w : ω) : agent.observe world n w = agent'.observe world n w := by
  induction n generalizing agent agent' w with
  | zero => rfl
  | succ n ih =>
    obtain ⟨result, after, after', ⟨w₁, calls⟩, hleft, hright, hstate⟩ :=
      (h.step_agree hlast world.traced (w, [])).exists_eq
    have hlibrary : after.library = agent.library := by rw [step_eq hleft]
    have htime : after.time = after'.time := congrArg Clock.time hstate.clock
    rw [← hlibrary] at hlast
    rw [observe, observe, ← h.clock, hleft, hright]
    dsimp only
    rw [ih hlast hstate, htime]

/-- A reset agent is like the one that was built, with the same clock. -/
theorem KeptBy.alike_reset (h : built.KeptBy agent) :
    agent.reset.Alike (built.setClock agent.clock) := by
  refine ⟨h.library, h.goal, rfl, ?_⟩
  rw [Agent.reset, Agent.setClock, ← h.unused, List.forall₂_map_left_iff,
    List.forall₂_map_right_iff, List.forall₂_same]
  intro level hlevel
  rw [List.forall₂_map_left_iff, List.forall₂_map_right_iff, List.forall₂_same]
  intro drive hdrive
  rw [h.library]
  exact (h.sound level hlevel drive hdrive).alike_unused

/-- Under the stepped clock it is like the one that was built and set to that clock. -/
theorem KeptBy.alike_reset_stepped (h : built.KeptBy agent) {steps : Int}
    (hclock : agent.clock = .stepped steps) :
    agent.reset.Alike (built.setDiscipline .stepped) := by
  obtain ⟨hlibrary, hgoal, -, hlevels⟩ := h.alike_reset
  refine ⟨hlibrary, hgoal, ?_, hlevels⟩
  rw [Agent.reset, hclock]
  rfl

end Agent

/-- An agent built to be stepped has the stepped clock from the start. -/
theorem Agent.AsBuilt.setDiscipline_stepped {built : Agent} (h : built.AsBuilt)
    (hdiscipline : built.discipline = .stepped) : built.setDiscipline .stepped = built := by
  have hclock : built.clock = .stepped 0 := by
    rw [h.clock, hdiscipline]
    rfl
  cases built
  cases hclock
  cases hdiscipline
  rfl

/-- After a reset under the stepped clock, nothing that is seen of an agent tells it from
one that was just built and has the stepped clock. -/
theorem reset_observe {registry : Registry} {plan : Plan} {built agent : Agent}
    (hbuild : plan.build registry = .ok built) (hreaches : built.Reaches agent) {steps : Int}
    (hclock : agent.clock = .stepped steps) (world : World ω ε) (n : Nat) (w : ω) :
    agent.reset.observe world n w = (built.setDiscipline .stepped).observe world n w ∧
      (built.discipline = .stepped → built.setDiscipline .stepped = built) := by
  have hbuilt := build_asBuilt hbuild
  have hkept := hreaches.keptBy hbuilt
  have halike := hkept.alike_reset_stepped hclock
  have hlast : agent.reset.library.CompetencesLast := by
    rw [Agent.reset, hkept.library]
    exact hbuilt.competencesLast
  exact ⟨halike.observe_eq hlast world n w, hbuilt.setDiscipline_stepped⟩

/-- A reset of `wanderer` after its first step, which made a second node. -/
theorem reset_observe_wanderer :
    wandering.clock = .stepped 1 ∧
      wandering.reset.observe idle 3 () = (wanderer.setDiscipline .stepped).observe idle 3 () ∧
      (wanderer.discipline = .stepped → wanderer.setDiscipline .stepped = wanderer) := by
  have hclock : wandering.clock = .stepped 1 := rfl
  exact ⟨hclock, reset_observe build_wanderPlan (.step idle () .start) hclock idle 3 ()⟩

end SlipStack.Engine
