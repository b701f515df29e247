import SlipStack.Proofs.Engine.Attempts
import SlipStack.Proofs.Engine.Calls

/-!
# Which drive element is fired

A step fires one drive element at most. `Agent.fired?` tells which, with its position and the
world as it was then, and `Agent.ComesTo` what the step comes to by it: if there is none, senses
are read and all drive elements stay as they are; otherwise the step comes to what the firing of
the node at the cursor does, to that drive element, to the world and as a result.
-/

namespace SlipStack.Engine

variable {ω ε : Type}

namespace Agent

/-- The drive element that a step of the agent fires, with its position counted through all
levels and the world in which its node is fired. -/
def fired? (world : World ω ε) (agent : Agent) (w : ω) : Option (Nat × Drive × ω) :=
  match agent.goal.reached world w with
  | (.ok false, w) =>
    firstFired? (Drive.ready world agent.clock.beginStep.time) 0 agent.levels.flatten w
  | _ => none

variable {world : World ω ε} {agent : Agent} {w w' : ω}

/-- After a goal that is not reached the first ready drive element is fired. -/
theorem fired?_of_goal {w₁ : ω} (h : agent.goal.reached world w = (.ok false, w₁)) :
    agent.fired? world w =
      firstFired? (Drive.ready world agent.clock.beginStep.time) 0 agent.levels.flatten w₁ := by
  rw [fired?, h]

/-- If the goal is not reached and every drive element is passed over, no element is fired. -/
theorem fired?_of_passed {w₁ : ω} (hgoal : agent.goal.reached world w = (.ok false, w₁))
    (hpassed : Passed (Drive.attempt agent.library world agent.clock.beginStep.time)
      agent.levels.flatten w₁ w') : agent.fired? world w = none := by
  rw [Drive.attempt_eq_guarded] at hpassed
  rw [fired?_of_goal hgoal, firstFired?_eq_none hpassed]

section Position

variable {above below : List (List Drive)} {before after : List Drive} {drive : Drive}
  {w₁ w₂ w₃ : ω}

/-- If the trigger of an element fails after those before it were passed over, no element is
fired, although later ones might be ready. -/
theorem fired?_of_triggerFailed {e : ε}
    (hlevels : agent.levels = above ++ (before ++ drive :: after) :: below)
    (hgoal : agent.goal.reached world w = (.ok false, w₁))
    (hpassed : Passed (Drive.attempt agent.library world agent.clock.beginStep.time)
      (above.flatten ++ before) w₁ w₂)
    (hready : drive.ready world agent.clock.beginStep.time w₂ = (.error e, w₃)) :
    agent.fired? world w = none := by
  rw [Drive.attempt_eq_guarded] at hpassed
  rw [fired?_of_goal hgoal, hlevels, firstFired?_of_error hpassed hready]

/-- The first element that is ready, after all before it were passed over, is the one that is
fired, in the world that its trigger leaves. -/
theorem fired?_of_ready
    (hlevels : agent.levels = above ++ (before ++ drive :: after) :: below)
    (hgoal : agent.goal.reached world w = (.ok false, w₁))
    (hpassed : Passed (Drive.attempt agent.library world agent.clock.beginStep.time)
      (above.flatten ++ before) w₁ w₂)
    (hready : drive.ready world agent.clock.beginStep.time w₂ = (.ok true, w₃)) :
    agent.fired? world w = some (above.flatten.length + before.length, drive, w₃) := by
  rw [Drive.attempt_eq_guarded] at hpassed
  rw [fired?_of_goal hgoal, hlevels, firstFired?_of_ready hpassed hready]

end Position

/-- What a step of the agent comes to, by the drive element that it fires. -/
inductive ComesTo (world : World ω ε) (agent : Agent) (w : ω) :
    Option (Nat × Drive × ω) → Except ε Outcome → List Drive → ω → Prop
  | idle {result : Except ε Outcome} {w' : ω} : result ≠ .ok .followed → Looks world w w' →
      ComesTo world agent w none result agent.levels.flatten w'
  | fired {position : Nat} {drive : Drive} {senses : List Capability} {moved : Except ε Move}
      {node' : Node} {w₀ w₁ w' : ω} : agent.levels.flatten[position]? = some drive →
      Reads world w senses w₁ →
      drive.ready world agent.clock.beginStep.time w₀ = (.ok true, w₁) →
      (drive.node agent.library).fire world w₁ = (moved, node', w') →
      ComesTo world agent w (some (position, drive, w₁)) (moved.map fun _ => .followed)
        (agent.levels.flatten.set position
          ((drive.store agent.clock.beginStep.time node').follow agent.library (.ofResult moved)))
        w'

/-- The drive element that is told to be fired is the one that a step fires. -/
theorem step_comesTo (world : World ω ε) (agent : Agent) (w : ω) :
    agent.ComesTo world w (agent.fired? world w) (agent.step world w).1
      (agent.step world w).2.1.levels.flatten (agent.step world w).2.2 := by
  rcases hstep : agent.step world w with ⟨result, agent', w'⟩
  have hsettled := step_settled hstep
  generalize hfired : agent.fired? world w = fired
  generalize hlevels : agent.levels = levels at hsettled
  generalize hlevels' : agent'.levels = levels' at hsettled
  dsimp only
  -- The log is a search of its own; in each case it is matched with what the step did.
  cases hsettled with
  | goalFailed hgoal =>
    obtain ⟨sense, -, hfails⟩ := Trigger.fails_of_reached hgoal
    rw [fired?, hgoal] at hfired
    rw [← hfired, ← hlevels]
    exact .idle (by simp) (.failed hfails)
  | won hgoal =>
    obtain ⟨senses, hreads⟩ := Trigger.reads_of_reached hgoal
    rw [fired?, hgoal] at hfired
    rw [← hfired, ← hlevels]
    exact .idle (by simp) (.reads hreads)
  | lost hgoal hpassed =>
    obtain ⟨senses, hreads⟩ := Drive.reads_before hgoal hpassed
    rw [fired?_of_passed hgoal (hlevels ▸ hpassed)] at hfired
    rw [← hfired, ← hlevels]
    exact .idle (by simp) (.reads hreads)
  | triggerFailed hgoal hpassed hready =>
    obtain ⟨senses, hreads⟩ := Drive.reads_before hgoal hpassed
    obtain ⟨sense, -, hfails⟩ := Trigger.fails_of_holds (Drive.ready_eq_error.1 hready)
    rw [fired?_of_triggerFailed hlevels hgoal hpassed hready] at hfired
    rw [← hfired, ← hlevels]
    exact .idle (by simp) (.failed (hfails.after hreads))
  | @fired above below before after drive moved node' _ _ _ _ hgoal hpassed hready hfire =>
    obtain ⟨senses, hreads⟩ := Drive.reads_before hgoal hpassed
    obtain ⟨last, hlast⟩ := Drive.reads_of_ready hready
    rw [fired?_of_ready hlevels hgoal hpassed hready] at hfired
    have hdrive : agent.levels.flatten[above.flatten.length + before.length]? = some drive := by
      simp [hlevels]
    have hcomes := ComesTo.fired hdrive (hreads.trans hlast) hready hfire
    rw [← hfired]
    simpa [hlevels] using hcomes

/-- A step that fires no drive element leaves all of them as they are. -/
theorem step_of_fired?_eq_none (h : agent.fired? world w = none) :
    (agent.step world w).2.1.levels.flatten = agent.levels.flatten ∧
      (agent.step world w).1 ≠ .ok .followed := by
  have hcomes := agent.step_comesTo world w
  rw [h] at hcomes
  generalize (agent.step world w).2.1.levels.flatten = drives at hcomes ⊢
  cases hcomes with
  | idle hresult => exact ⟨rfl, hresult⟩

/-- A step that fires a drive element comes to what firing its node does, once it is ready. -/
theorem step_of_fired?_node {position : Nat} {drive : Drive} {w₁ : ω}
    (h : agent.fired? world w = some (position, drive, w₁)) :
    agent.levels.flatten[position]? = some drive ∧
      (∃ w₀, drive.ready world agent.clock.beginStep.time w₀ = (.ok true, w₁)) ∧
      ∃ moved node' w',
        (drive.node agent.library).fire world w₁ = (moved, node', w') ∧
        (agent.step world w).1 = moved.map (fun _ => .followed) ∧
        (agent.step world w).2.1.levels.flatten = agent.levels.flatten.set position
          ((drive.store agent.clock.beginStep.time node').follow agent.library (.ofResult moved)) ∧
        (agent.step world w).2.2 = w' := by
  have hcomes := agent.step_comesTo world w
  rw [h] at hcomes
  generalize (agent.step world w).1 = result at hcomes ⊢
  generalize (agent.step world w).2.1.levels.flatten = drives at hcomes ⊢
  cases hcomes with
  | fired hdrive _ hready hfire => exact ⟨hdrive, ⟨_, hready⟩, _, _, _, hfire, rfl, rfl, rfl⟩

end Agent

end SlipStack.Engine
