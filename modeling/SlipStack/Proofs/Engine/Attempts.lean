import SlipStack.Engine.Agent
import SlipStack.Proofs.Engine.Firing

/-!
# All that a step can do

`Settled` says all that the evaluation of a drive collection comes to, with the states that the
world goes through. `Drive.Tried` lists what an attempt on a drive element comes to, and
`Evaluated` what an evaluation does, without regard to the world. A step of an agent is an
evaluation, after which the clock is moved on (`Agent.step_settled`, `Agent.step_evaluated`,
`Agent.step_eq`).
-/

namespace SlipStack.Engine

variable {ω ε : Type}

namespace Drive

/-- The node that the next firing evaluates, which is there in every state that can be
reached. -/
def node (library : Library) (drive : Drive) : Node :=
  drive.current?.getD (library.freshTarget drive.target)

/-- The drive element after the node at its cursor was fired. -/
def store (drive : Drive) (now : Int) (node : Node) : Drive :=
  { drive with lastFired := now, instances := drive.instances.set drive.cursor node }

/-- What an attempt at the time `now` comes to. -/
inductive Tried (library : Library) (now : Int) (drive : Drive) :
    Except ε (Option Unit) → Drive → Prop
  | unready : Tried library now drive (.ok none) drive
  | triggerFailed (e : ε) : Tried library now drive (.error e) drive
  | fired {move : Move} {node' : Node} : drive.tooEarly now = false →
      (drive.node library).Fired (ε := ε) (.ok move) node' →
      Tried library now drive (.ok (some ())) ((drive.store now node').follow library move)
  | fireFailed {e : ε} {node' : Node} : drive.tooEarly now = false →
      (drive.node library).Fired (.error e) node' →
      Tried library now drive (.error e) (drive.store now node')

/-- A firing by the node at the cursor: its time plays no part in what the node does. -/
theorem fire_eq (library : Library) (world : World ω ε) (now : Int) (drive : Drive) (w : ω) :
    ({ drive with lastFired := now } : Drive).fire library world w =
      match (drive.node library).fire world w with
      | (.ok move, node, w) => (.ok (), (drive.store now node).follow library move, w)
      | (.error e, node, w) => (.error e, drive.store now node, w) := by
  have hnode : ({ drive with lastFired := now } : Drive).node library = drive.node library := rfl
  rw [fire, ← node, hnode]
  rcases (drive.node library).fire world w with ⟨result, node, w⟩
  cases result <;> rfl

end Drive

/-! ## Evaluation -/

/-- The move after a firing: a node at which a capability failed is fired again. -/
def Move.ofResult : Except ε Move → Move
  | .ok move => move
  | .error _ => .stay

/-- What an evaluation of a drive collection comes to, from one state of the world to another. -/
inductive Settled (library : Library) (world : World ω ε) (goal : Trigger) (now : Int) (w : ω) :
    List (List Drive) → Except ε Outcome → List (List Drive) → ω → Prop
  | goalFailed {levels : List (List Drive)} {e : ε} {w' : ω} :
      goal.reached world w = (.error e, w') →
      Settled library world goal now w levels (.error e) levels w'
  | won {levels : List (List Drive)} {w' : ω} : goal.reached world w = (.ok true, w') →
      Settled library world goal now w levels (.ok .won) levels w'
  /-- No drive element was ready. -/
  | lost {levels : List (List Drive)} {w₁ w' : ω} : goal.reached world w = (.ok false, w₁) →
      Passed (Drive.attempt library world now) levels.flatten w₁ w' →
      Settled library world goal now w levels (.ok .lost) levels w'
  | triggerFailed {above below : List (List Drive)} {before after : List Drive} {drive : Drive}
      {e : ε} {w₁ w₂ w' : ω} : goal.reached world w = (.ok false, w₁) →
      Passed (Drive.attempt library world now) (above.flatten ++ before) w₁ w₂ →
      drive.ready world now w₂ = (.error e, w') →
      Settled library world goal now w (above ++ (before ++ drive :: after) :: below) (.error e)
        (above ++ (before ++ drive :: after) :: below) w'
  /-- The first ready drive element was fired. -/
  | fired {above below : List (List Drive)} {before after : List Drive} {drive : Drive}
      {moved : Except ε Move} {node' : Node} {w₁ w₂ w₃ w' : ω} :
      goal.reached world w = (.ok false, w₁) →
      Passed (Drive.attempt library world now) (above.flatten ++ before) w₁ w₂ →
      drive.ready world now w₂ = (.ok true, w₃) →
      (drive.node library).fire world w₃ = (moved, node', w') →
      Settled library world goal now w (above ++ (before ++ drive :: after) :: below)
        (moved.map fun _ => .followed)
        (above ++ (before ++ (drive.store now node').follow library (.ofResult moved) :: after) ::
          below) w'

/-- What is fired comes to what firing its node does. -/
theorem Drive.fire_node {library : Library} {world : World ω ε} {now : Int} {drive drive' : Drive}
    {result : Except ε Unit} {w w' : ω}
    (h : ({ drive with lastFired := now } : Drive).fire library world w = (result, drive', w')) :
    ∃ moved node', (drive.node library).fire world w = (moved, node', w') ∧
      result = moved.map (fun _ => ()) ∧
      drive' = (drive.store now node').follow library (.ofResult moved) := by
  rw [fire_eq] at h
  rcases hnode : (drive.node library).fire world w with ⟨moved, node', w₁⟩
  rw [hnode] at h
  cases moved <;> cases h <;> exact ⟨_, _, rfl, rfl, rfl⟩

/-- Whatever an evaluation of the levels gives is one of the cases of `Settled`: the goal decides,
a trigger fails, nothing is ready, or one element is fired. -/
theorem evaluate_settled {library : Library} {world : World ω ε} {goal : Trigger} {now : Int}
    {levels levels' : List (List Drive)} {w w' : ω} {result : Except ε Outcome}
    (h : evaluate library world goal now levels w = (result, levels', w')) :
    Settled library world goal now w levels result levels' w' := by
  rw [evaluate] at h
  split at h
  · rename_i hgoal
    cases h
    exact .goalFailed hgoal
  · rename_i hgoal
    cases h
    exact .won hgoal
  · rename_i w₁ hgoal
    rcases hsearch : firstReadyByLevel (Drive.attempt library world now) 0 levels w₁ with
      ⟨found, after, w₂⟩
    have hquiet : Quiet (Drive.attempt library world now) := by
      rw [Drive.attempt_eq_guarded]
      exact guarded_quiet
    rw [hsearch] at h
    cases firstReadyByLevel_searched hquiet hsearch with
    | none hpassed =>
      cases h
      exact .lost hgoal hpassed
    | @ready above below before after drive drive' _ w₂ _ hpassed hattempt =>
      cases h
      rw [Drive.attempt_eq_guarded] at hattempt
      obtain ⟨w₃, hready, hfire⟩ := guarded_eq_some.1 hattempt
      obtain ⟨moved, node', hnode, hresult, rfl⟩ := Drive.fire_node hfire
      cases moved with
      | error e => cases hresult
      | ok move => exact .fired hgoal hpassed hready hnode
    | @failed above below before after drive drive' e w₂ _ hpassed hattempt =>
      cases h
      rw [Drive.attempt_eq_guarded] at hattempt
      rcases guarded_eq_error.1 hattempt with ⟨hready, rfl⟩ | ⟨w₃, hready, hfire⟩
      · exact .triggerFailed hgoal hpassed hready
      · obtain ⟨moved, node', hnode, hresult, rfl⟩ := Drive.fire_node hfire
        cases moved with
        | ok move => cases hresult
        | error e =>
          cases hresult
          exact .fired hgoal hpassed hready hnode

/-- What an evaluation of a drive collection at the time `now` comes to. -/
inductive Evaluated (library : Library) (now : Int) :
    List (List Drive) → Except ε Outcome → List (List Drive) → Prop
  | goalFailed (levels : List (List Drive)) (e : ε) :
      Evaluated library now levels (.error e) levels
  | won (levels : List (List Drive)) : Evaluated library now levels (.ok .won) levels
  | lost (levels : List (List Drive)) : Evaluated library now levels (.ok .lost) levels
  | followed {above below : List (List Drive)} {before after : List Drive}
      {drive drive' : Drive} : drive.Tried (ε := ε) library now (.ok (some ())) drive' →
      Evaluated library now (above ++ (before ++ drive :: after) :: below) (.ok .followed)
        (above ++ (before ++ drive' :: after) :: below)
  | failed {above below : List (List Drive)} {before after : List Drive}
      {drive drive' : Drive} {e : ε} : drive.Tried library now (.error e) drive' →
      Evaluated library now (above ++ (before ++ drive :: after) :: below) (.error e)
        (above ++ (before ++ drive' :: after) :: below)

/-- The cases in full, with what was read, say more than `Evaluated`, which has only what became
of the levels. -/
theorem Settled.evaluated {library : Library} {world : World ω ε} {goal : Trigger} {now : Int}
    {levels levels' : List (List Drive)} {w w' : ω} {result : Except ε Outcome}
    (h : Settled library world goal now w levels result levels' w') :
    Evaluated library now levels result levels' := by
  cases h with
  | goalFailed => exact .goalFailed _ _
  | won => exact .won _
  | lost => exact .lost _
  | triggerFailed => exact .failed (.triggerFailed _)
  | @fired above below before after drive moved node' _ _ _ _ _ _ hready hfire =>
    have hdue := (Drive.ready_eq_true.1 hready).2
    cases moved with
    | ok move => exact .followed (.fired hdue (Node.fire_fired hfire))
    | error e => exact .failed (.fireFailed hdue (Node.fire_fired hfire))

namespace Agent

variable {world : World ω ε} {agent agent' : Agent} {w w' : ω} {result : Except ε Outcome}

/-- A step evaluates the levels at the time that the clock shows once the step has begun, and ends
in one of the cases of `Settled`. -/
theorem step_settled (h : agent.step world w = (result, agent', w')) :
    Settled agent.library world agent.goal agent.clock.beginStep.time w agent.levels result
      agent'.levels w' := by
  rw [step] at h
  split at h
  · rename_i hevaluate
    cases h
    exact evaluate_settled hevaluate
  · rename_i hevaluate
    cases h
    exact evaluate_settled hevaluate

theorem step_evaluated (h : agent.step world w = (result, agent', w')) :
    Evaluated agent.library agent.clock.beginStep.time agent.levels result agent'.levels :=
  (step_settled h).evaluated

/-- A step changes nothing but drive elements and the clock. -/
theorem step_eq (h : agent.step world w = (result, agent', w')) :
    agent' = { agent with levels := agent'.levels, clock := agent'.clock } := by
  rw [step] at h
  split at h <;> cases h <;> rfl

/-- A step that ends with an outcome is closed. -/
theorem clock_of_step_ok {outcome : Outcome} (h : agent.step world w = (.ok outcome, agent', w')) :
    agent'.clock = agent.clock.beginStep.endStep := by
  rw [step] at h
  split at h <;> cases h
  rfl

/-- A step in which a capability fails stays open. -/
theorem clock_of_step_error {e : ε} (h : agent.step world w = (.error e, agent', w')) :
    agent'.clock = agent.clock.beginStep := by
  rw [step] at h
  split at h <;> cases h
  rfl

end Agent

end SlipStack.Engine
