import SlipStack.Proofs.Engine.Budget
import SlipStack.Proofs.Engine.Tracing

/-!
# What a failed step leaves behind

A step fails by its last call, and only reads come before it. What it leaves is told by place:
a sense of the goal or of a trigger of a drive element leaves the agent as it was, and what
fails in the node that is fired leaves this node, all others and the cursor as they were, but
for the time of the firing and the retry of the element whose action was called
(`Agent.Interrupted`). So the agent can be stepped again from where it stands.
-/

namespace SlipStack.Engine

variable {ω ε : Type} {library : Library} {world : World ω ε} {w w' : ω} {e : ε}

/-! ## Nodes -/

/-- What a failing call leaves of the node that is fired in the world `w`. -/
inductive Node.Interrupted (world : World ω ε) (w : ω) : Node → Call → Node → Prop
  | action (capability : Capability) :
      Interrupted world w (.action capability) (.act capability) (.action capability)
  | goal {name : String} {goal : Trigger} {levels : List (List ElementState)} {sense : Sense} :
      (competence name goal levels).ready? world w = none → sense ∈ goal →
      Interrupted world w (.competence name goal levels) (.read sense.capability)
        (.competence name goal levels)
  | trigger {name : String} {goal : Trigger} {levels : List (List ElementState)}
      {state : ElementState} {sense : Sense} :
      (competence name goal levels).ready? world w = none → state ∈ levels.flatten →
      sense ∈ state.element.trigger →
      Interrupted world w (.competence name goal levels) (.read sense.capability)
        (.competence name goal levels)
  /-- The retry of the element that was ready is spent. -/
  | called {name : String} {goal : Trigger} {above below : List (List ElementState)}
      {before after : List ElementState} {state : ElementState} {capability : Capability}
      {w₁ : ω} :
      (competence name goal (above ++ (before ++ state :: after) :: below)).ready? world w =
        some (above.flatten.length + before.length, state, w₁) →
      state.element.target = .action capability →
      Interrupted world w (.competence name goal (above ++ (before ++ state :: after) :: below))
        (.act capability)
        (.competence name goal (above ++ (before ++ state.spend :: after) :: below))
  | stepAction {name : String} {steps : List Step} {cursor : Nat} {capability : Capability} :
      steps[cursor]? = some (.action capability) →
      Interrupted world w (.pattern name steps cursor) (.act capability)
        (.pattern name steps cursor)
  | stepSense {name : String} {steps : List Step} {cursor : Nat} {sense : Sense} :
      steps[cursor]? = some (.sense sense) →
      Interrupted world w (.pattern name steps cursor) (.read sense.capability)
        (.pattern name steps cursor)

namespace Node

/-- A competence that gives an error was interrupted at the call of the goal, of a trigger or of
the action of the element found ready, and keeps what it has spent. -/
theorem competence_interrupted (name : String) {goal : Trigger}
    {levels levels' : List (List ElementState)} {result : Except ε Move}
    (h : Competed world goal w levels result levels' w') (hresult : result = .error e) :
    ∃ call, Interrupted world w (.competence name goal levels) call
      (.competence name goal levels') ∧ Fails world w call e w' := by
  cases h with
  | reached | unready => cases hresult
  | goalFailed hgoal =>
    cases hresult
    obtain ⟨sense, hsense, hfails⟩ := Trigger.fails_of_reached hgoal
    exact ⟨_, .goal (by rw [ready?, hgoal]) hsense, hfails⟩
  | triggerFailed hgoal hpassed hready =>
    cases hresult
    obtain ⟨senses, hreads⟩ := ElementState.reads_before hgoal hpassed
    obtain ⟨sense, hsense, hfails⟩ :=
      Trigger.fails_of_holds (ElementState.ready_eq_error.1 hready)
    refine ⟨_, .trigger (ready?_of_triggerFailed name hgoal hpassed hready) ?_ hsense,
      hfails.after hreads⟩
    simp
  | fired hgoal hpassed hready hfire =>
    obtain ⟨senses, hreads⟩ := ElementState.reads_before hgoal hpassed
    obtain ⟨last, hlast⟩ := ElementState.reads_of_ready hready
    -- Only an action can fail here, as entering a node calls nothing.
    rw [ElementState.fire] at hfire
    split at hfire
    · cases hfire
      cases hresult
    · rename_i capability htarget
      split at hfire
      · cases hfire
        cases hresult
      · rename_i hact
        cases hfire
        cases hresult
        exact ⟨_, .called (ready?_of_ready name hgoal hpassed hready) htarget,
          (Fails.of_perform (Call.perform_act hact)).after (hreads.trans hlast)⟩

/-- A node fails by its last call. -/
theorem fire_interrupted {node node' : Node} (h : node.fire world w = (.error e, node', w')) :
    ∃ call, node.Interrupted world w call node' ∧ Fails world w call e w' := by
  generalize hresult : Except.error e = result at h
  cases fire_enacted h with
  | @called capability answer _ hact =>
    cases answer with
    | ok succeeded => cases hresult
    | error e =>
      cases hresult
      exact ⟨_, .action capability, .of_perform (Call.perform_act hact)⟩
  | competed name hcompeted => exact competence_interrupted name hcompeted hresult.symm
  | ended | handedOff | stepped => cases hresult
  | stepFailed name hstep htaken =>
    cases hresult
    cases htaken with
    | acted hact => exact ⟨_, .stepAction hstep, .of_perform (Call.perform_act hact)⟩
    | sensed hholds => exact ⟨_, .stepSense hstep, Sense.fails_of_holds hholds⟩

end Node

/-! ## Drive elements -/

/-- What a failing call leaves of the drive element that is fired at the time `now`, its node
in the world `w`. -/
structure Drive.Interrupted (world : World ω ε) (w : ω) (now : Int) (call : Call)
    (drive drive' : Drive) : Prop where
  definition : drive'.name = drive.name ∧ drive'.trigger = drive.trigger ∧
    drive'.target = drive.target ∧ drive'.interval = drive.interval
  lastFired : drive'.lastFired = now
  cursor : drive'.cursor = drive.cursor
  node : ∃ node node', drive.instances.get? drive.cursor = some node ∧
    drive'.instances.get? drive.cursor = some node' ∧ node.Interrupted world w call node'
  /-- No node comes into being, and none goes. -/
  others : drive.instances.SameExcept drive'.instances [drive.cursor]

/-- A drive element whose node is interrupted keeps its cursor; the firing is marked, and the node
keeps what it has spent. -/
theorem Drive.Sound.interrupted {drive : Drive} (h : drive.Sound library) (now : Int)
    {call : Call} {node' : Node} (hnode : (drive.node library).Interrupted world w call node') :
    drive.Interrupted world w now call (drive.store now node') where
  definition := ⟨rfl, rfl, rfl, rfl⟩
  lastFired := rfl
  cursor := rfl
  node := ⟨drive.node library, node', h.current?_eq, Instances.get?_set_self node' h.cursor, hnode⟩
  others := drive.store_sameExcept now node'

/-! ## Agents -/

namespace Agent

/-- What a failing call leaves of the agent that is stepped in the world `w`. -/
inductive Interrupted (world : World ω ε) (w : ω) (agent : Agent) : Call → Agent → Prop
  | goal {sense : Sense} : agent.fired? world w = none → sense ∈ agent.goal →
      Interrupted world w agent (.read sense.capability) agent
  | trigger {drive : Drive} {sense : Sense} : agent.fired? world w = none →
      drive ∈ agent.levels.flatten → sense ∈ drive.trigger →
      Interrupted world w agent (.read sense.capability) agent
  /-- The drive element that was fired has failed, and no other is changed. -/
  | fired {above below : List (List Drive)} {before after : List Drive} {drive drive' : Drive}
      {call : Call} {w₁ : ω} :
      agent.levels = above ++ (before ++ drive :: after) :: below →
      agent.fired? world w = some (above.flatten.length + before.length, drive, w₁) →
      drive.Interrupted world w₁ agent.time call drive' →
      Interrupted world w agent call
        { agent with levels := above ++ (before ++ drive' :: after) :: below }

variable {agent agent' : Agent}

/-- Under the stepped clock a failed step changes drive elements only. -/
theorem step_error_eq {steps : Int} (hclock : agent.clock = .stepped steps)
    (h : agent.step world w = (.error e, agent', w')) :
    agent' = { agent with levels := agent'.levels } := by
  have hclock' : agent'.clock = agent.clock := by
    rw [clock_of_step_error h, hclock]
    rfl
  have hstep := step_eq h
  rwa [hclock'] at hstep

/-- A step fails by its last call. -/
theorem step_interrupted (hsound : ∀ drive ∈ agent.levels.flatten, drive.Sound agent.library)
    {steps : Int} (hclock : agent.clock = .stepped steps)
    (h : agent.step world w = (.error e, agent', w')) :
    ∃ call, agent.Interrupted world w call agent' ∧ Fails world w call e w' := by
  have hnow : agent.clock.beginStep.time = agent.time := by
    rw [time, hclock]
    rfl
  have hafter := step_error_eq hclock h
  -- The clock is the same after a failed step, so the agent is, if its levels are.
  have hsame : agent'.levels = agent.levels → agent' = agent := by
    intro hlevels
    rwa [hlevels] at hafter
  have hsettled := step_settled h
  generalize hresult : (Except.error e : Except ε Outcome) = result at hsettled
  generalize hlevels : agent.levels = levels at hsettled
  generalize hlevels' : agent'.levels = levels' at hsettled
  cases hsettled with
  | won | lost => cases hresult
  | goalFailed hgoal =>
    cases hresult
    obtain rfl := hsame (hlevels'.trans hlevels.symm)
    obtain ⟨sense, hsense, hfails⟩ := Trigger.fails_of_reached hgoal
    exact ⟨_, .goal (by rw [fired?, hgoal]) hsense, hfails⟩
  | triggerFailed hgoal hpassed hready =>
    cases hresult
    obtain rfl := hsame (hlevels'.trans hlevels.symm)
    obtain ⟨senses, hreads⟩ := Drive.reads_before hgoal hpassed
    obtain ⟨sense, hsense, hfails⟩ := Trigger.fails_of_holds (Drive.ready_eq_error.1 hready)
    refine ⟨_, .trigger (fired?_of_triggerFailed hlevels hgoal hpassed hready) ?_ hsense,
      hfails.after hreads⟩
    simp [hlevels]
  | @fired above below before after drive moved node' _ _ _ _ hgoal hpassed hready hfire =>
    cases moved with
    | ok move => cases hresult
    | error e =>
      cases hresult
      obtain ⟨senses, hreads⟩ := Drive.reads_before hgoal hpassed
      obtain ⟨last, hlast⟩ := Drive.reads_of_ready hready
      obtain ⟨call, hnode, hfails⟩ := Node.fire_interrupted hfire
      have hdrive : drive.Sound agent.library := hsound drive (by simp [hlevels])
      rw [hafter, hlevels', hnow]
      exact ⟨call, .fired hlevels (fired?_of_ready hlevels hgoal hpassed hready)
          (hdrive.interrupted agent.time hnode),
        hfails.after (hreads.trans hlast)⟩

end Agent

/-! ## On record -/

section Shows

variable {ω' : Type} {see : ω → ω'} {world' : World ω' ε}

theorem Node.Interrupted.shown (h : World.Shows see world world') {node node' : Node} {call : Call}
    (hnode : node.Interrupted world w call node') : node.Interrupted world' (see w) call node' := by
  cases hnode with
  | action => exact .action _
  | goal hready hsense => exact .goal (by rw [Node.ready?_shown h, hready]; rfl) hsense
  | trigger hready hstate hsense =>
    exact .trigger (by rw [Node.ready?_shown h, hready]; rfl) hstate hsense
  | called hready htarget => exact .called (by rw [Node.ready?_shown h, hready]; rfl) htarget
  | stepAction hstep => exact .stepAction hstep
  | stepSense hstep => exact .stepSense hstep

theorem Drive.Interrupted.shown (h : World.Shows see world world') {now : Int} {call : Call}
    {drive drive' : Drive} (hdrive : drive.Interrupted world w now call drive') :
    drive.Interrupted world' (see w) now call drive' := by
  obtain ⟨node, node', hcurrent, hafter, hnode⟩ := hdrive.node
  exact { hdrive with node := ⟨node, node', hcurrent, hafter, hnode.shown h⟩ }

/-- An interruption in the world on record is one in the world itself: the record is not seen by
the agent. -/
theorem Agent.Interrupted.shown (h : World.Shows see world world') {agent agent' : Agent}
    {call : Call} (hagent : agent.Interrupted world w call agent') :
    agent.Interrupted world' (see w) call agent' := by
  cases hagent with
  | goal hfired hsense => exact .goal (by rw [Agent.fired?_shown h, hfired]; rfl) hsense
  | trigger hfired hdrive hsense =>
    exact .trigger (by rw [Agent.fired?_shown h, hfired]; rfl) hdrive hsense
  | fired hlevels hfired hdrive =>
    exact .fired hlevels (by rw [Agent.fired?_shown h, hfired]; rfl) (hdrive.shown h)

end Shows

/-- A failed step of an agent that comes from a built one does not move the clock, leaves the
agent but for what its last call tells, and fails as that call does, with reads before it. -/
theorem failed_step_resumable {registry : Registry} {plan : Plan} {built agent agent' : Agent}
    (hbuild : plan.build registry = .ok built) (hreaches : built.Reaches agent) {steps : Int}
    (hclock : agent.clock = .stepped steps)
    (hstep : agent.step world w = (.error e, agent', w')) :
    agent'.time = agent.time ∧ ∃ call senses w₁,
      Reads world w senses w₁ ∧ call.perform world w₁ = (.error e, w') ∧
      agent.step world.traced (w, []) = (.error e, agent', w', call :: senses.map .read) ∧
      agent.Interrupted world w call agent' := by
  have hsound := hreaches.sound (build_asBuilt hbuild)
  have htime : agent'.time = agent.time := by
    rw [Agent.step_error_eq hclock hstep]
    rfl
  -- The step on record is the same, and has the same last call.
  rcases htraced : agent.step world.traced (w, []) with ⟨result, after, w₂, calls⟩
  have hsame := agent.step_traced world w []
  rw [hstep, htraced] at hsame
  cases hsame
  obtain ⟨call, hinterrupted, senses, ⟨w₁, earlier⟩, hreads, hcall⟩ :=
    Agent.step_interrupted hsound hclock htraced
  obtain ⟨hread, rfl⟩ := hreads.of_traced
  obtain ⟨hperform, rfl⟩ := Call.perform_traced hcall
  rw [List.append_nil]
  exact ⟨htime, call, senses, w₁, hread, hperform, rfl, hinterrupted.shown world.traced_shows⟩

/-- A world in which every action fails. -/
def broken : World Unit Unit where
  act := fun _ w => (.error (), w)
  read := fun _ w => (.ok (.bool true), w)

/-- The only action of `greeter` fails in its first step, and that costs a retry. -/
theorem failed_step_resumable_greeter :
    greetPlan.build crowd = .ok greeter ∧ greeter.Reaches greeter ∧ greeter.clock = .stepped 0 ∧
      greeter.step broken () = (.error (), (greeter.step broken ()).2.1, ()) ∧
      (greeter.step broken ()).2.1.elementAt? helloPlace = some ⟨hello, 1⟩ ∧
      (greeter.step broken ()).2.1.time = greeter.time ∧ ∃ call senses w₁,
        Reads broken () senses w₁ ∧ call.perform broken w₁ = (.error (), ()) ∧
        greeter.step broken.traced ((), []) =
          (.error (), (greeter.step broken ()).2.1, (), call :: senses.map .read) ∧
        greeter.Interrupted broken () call (greeter.step broken ()).2.1 := by
  have hstep : greeter.step broken () = (.error (), (greeter.step broken ()).2.1, ()) := rfl
  exact ⟨build_greetPlan, .start, rfl, hstep, rfl,
    failed_step_resumable build_greetPlan .start rfl hstep⟩

end SlipStack.Engine
