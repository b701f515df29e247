import SlipStack.Engine.Run
import SlipStack.Proofs.Engine.Calls
import SlipStack.Proofs.Engine.Fired

/-!
# Calls on record

One world may tell more than another, whose states are seen through a function
(`World.Shows`). What an agent does in it is what it does in the other one, as far as can be
seen (`Agent.step_shown`, `Agent.run_shown`). So a record of all calls makes no difference to an
agent (`Agent.step_traced`), and tells which calls there were (`Reads.of_traced`,
`Call.perform_traced`).
-/

namespace SlipStack.Engine

variable {ω ω' ε α β : Type} {see : ω → ω'} {world : World ω ε} {world' : World ω' ε}

/-- The second world does what the first one does, as far as can be seen. -/
structure World.Shows (see : ω → ω') (world : World ω ε) (world' : World ω' ε) : Prop where
  act : ∀ capability w, world'.act capability (see w) = Prod.map id see (world.act capability w)
  read : ∀ capability w, world'.read capability (see w) = Prod.map id see (world.read capability w)

/-- A run as it is seen. -/
def Run.seen (see : ω → ω') (run : Run ω ε Agent) : Run ω' ε Agent :=
  ⟨run.reports, run.result, run.agent, see run.world⟩

/-! ## What is done in both worlds -/

section Shows

variable (h : World.Shows see world world')

include h

theorem Sense.holds_shown (sense : Sense) (w : ω) :
    sense.holds world' (see w) = Prod.map id see (sense.holds world w) := by
  rw [holds, holds, h.read]
  rcases world.read sense.capability w with ⟨answer, w₁⟩
  cases answer <;> rfl

/-- A trigger asks the larger world as it asks the world that it shows, and gets the same answers.
-/
theorem Trigger.holds_shown (trigger : Trigger) (w : ω) :
    trigger.holds world' (see w) = Prod.map id see (trigger.holds world w) := by
  induction trigger generalizing w with
  | nil => rfl
  | cons sense rest ih =>
    rw [holds, holds, Sense.holds_shown h]
    rcases sense.holds world w with ⟨answer, w₁⟩
    rcases answer with e | _ | _
    · rfl
    · rfl
    · exact ih w₁

theorem Trigger.reached_shown (goal : Trigger) (w : ω) :
    goal.reached world' (see w) = Prod.map id see (goal.reached world w) := by
  rw [reached, reached, Trigger.holds_shown h]
  split <;> rfl

omit h in
/-- A search whose attempts do not see the difference between the two worlds does not see it
either. -/
theorem firstReadyByLevel_shown {attempt : Attempt ω ε α β} {attempt' : Attempt ω' ε α β}
    (hattempt : ∀ x w, attempt' x (see w) = Prod.map id (Prod.map id see) (attempt x w))
    (position : Nat) (levels : List (List α)) (w : ω) :
    firstReadyByLevel attempt' position levels (see w) =
      Prod.map id (Prod.map id see) (firstReadyByLevel attempt position levels w) := by
  have hsame : ∀ x w, attempt' (id x) (see w) =
      ((attempt x w).1.map (Option.map id), id (attempt x w).2.1, see (attempt x w).2.2) := by
    intro x w
    rw [id, hattempt, Option.map_id, Except.map_id]
    rfl
  simpa [Except.map_id, Prod.map] using firstReadyByLevel_map attempt hsame position levels w

section Guarded

variable {ready : α → ω → Except ε Bool × ω} {ready' : α → ω' → Except ε Bool × ω'}
  (hready : ∀ x w, ready' x (see w) = Prod.map id see (ready x w))

include hready

omit h in
theorem guarded_shown {fire : α → ω → Except ε β × α × ω} {fire' : α → ω' → Except ε β × α × ω'}
    (hfire : ∀ x w, fire' x (see w) = Prod.map id (Prod.map id see) (fire x w)) (x : α) (w : ω) :
    guarded ready' fire' x (see w) = Prod.map id (Prod.map id see) (guarded ready fire x w) := by
  rw [guarded, guarded, hready]
  rcases ready x w with ⟨answer, w₁⟩
  rcases answer with e | _ | _
  · rfl
  · rfl
  · dsimp only [Prod.map, id]
    rw [hfire]
    rfl

omit h in
theorem firstFired?_shown (position : Nat) (xs : List α) (w : ω) :
    firstFired? ready' position xs (see w) =
      (firstFired? ready position xs w).map (Prod.map id (Prod.map id see)) := by
  induction xs generalizing position w with
  | nil => rfl
  | cons x xs ih =>
    rw [firstFired?, firstFired?, hready]
    rcases ready x w with ⟨answer, w₁⟩
    rcases answer with e | _ | _
    · rfl
    · exact ih (position + 1) w₁
    · rfl

end Guarded

theorem ElementState.ready_shown (state : ElementState) (w : ω) :
    state.ready world' (see w) = Prod.map id see (state.ready world w) := by
  rw [ready, ready, Trigger.holds_shown h]
  rcases state.element.trigger.holds world w with ⟨answer, w₁⟩
  rcases answer with e | _ | _ <;> rfl

theorem ElementState.fire_shown (state : ElementState) (w : ω) :
    state.fire world' (see w) = Prod.map id (Prod.map id see) (state.fire world w) := by
  rw [fire, fire]
  cases state.element.target with
  | node ref => rfl
  | action capability =>
    dsimp only
    rw [h.act]
    rcases world.act capability w with ⟨result, w₁⟩
    cases result <;> rfl

theorem ElementState.attempt_shown (state : ElementState) (w : ω) :
    state.attempt world' (see w) = Prod.map id (Prod.map id see) (state.attempt world w) := by
  rw [attempt_eq_guarded, attempt_eq_guarded]
  exact guarded_shown (ready_shown h) (fire_shown h) state w

/-- A competence does in the larger world what it does in the world that is shown. -/
theorem fireCompetence_shown (goal : Trigger) (levels : List (List ElementState)) (w : ω) :
    fireCompetence world' goal levels (see w) =
      Prod.map id (Prod.map id see) (fireCompetence world goal levels w) := by
  rw [fireCompetence, fireCompetence, Trigger.reached_shown h]
  rcases goal.reached world w with ⟨answer, w₁⟩
  rcases answer with e | _ | _
  · rfl
  · dsimp only [Prod.map, id]
    rw [firstReadyByLevel_shown (ElementState.attempt_shown h)]
    rcases firstReadyByLevel (ElementState.attempt world) 0 levels w₁ with ⟨result, levels', w₂⟩
    cases result <;> rfl
  · rfl

/-- A pattern does in the larger world what it does in the world that is shown. -/
theorem firePattern_shown (steps : List Step) (cursor : Nat) (w : ω) :
    firePattern world' steps cursor (see w) =
      Prod.map id see (firePattern world steps cursor w) := by
  rw [firePattern, firePattern]
  cases steps[cursor]? with
  | none => rfl
  | some step =>
    cases step with
    | competence name => rfl
    | action capability =>
      dsimp only
      rw [h.act]
      rcases world.act capability w with ⟨result, w₁⟩
      cases result <;> rfl
    | sense sense =>
      dsimp only
      rw [Sense.holds_shown h]
      rcases sense.holds world w with ⟨result, w₁⟩
      cases result <;> rfl

/-- A node does in the larger world what it does in the world that is shown. -/
theorem Node.fire_shown (node : Node) (w : ω) :
    node.fire world' (see w) = Prod.map id (Prod.map id see) (node.fire world w) := by
  cases node with
  | action capability =>
    rw [fire, fire, h.act]
    rcases world.act capability w with ⟨result, w₁⟩
    cases result <;> rfl
  | competence name goal levels =>
    rw [fire, fire, fireCompetence_shown h]
    rfl
  | pattern name steps cursor =>
    rw [fire, fire, firePattern_shown h]
    rcases firePattern world steps cursor w with ⟨result, w₁⟩
    cases result <;> rfl

/-- The element that is ready is the same in both. -/
theorem Node.ready?_shown (node : Node) (w : ω) :
    node.ready? world' (see w) = (node.ready? world w).map (Prod.map id (Prod.map id see)) := by
  cases node with
  | action | pattern => rfl
  | competence name goal levels =>
    rw [ready?, ready?, Trigger.reached_shown h]
    rcases goal.reached world w with ⟨answer, w₁⟩
    rcases answer with e | _ | _
    · rfl
    · exact firstFired?_shown (ElementState.ready_shown h) 0 levels.flatten w₁
    · rfl

theorem Drive.ready_shown (now : Int) (drive : Drive) (w : ω) :
    drive.ready world' now (see w) = Prod.map id see (drive.ready world now w) := by
  rw [ready, ready, Trigger.holds_shown h]
  rcases drive.trigger.holds world w with ⟨answer, w₁⟩
  rcases answer with e | _ | _ <;> rfl

theorem Drive.attempt_shown (library : Library) (now : Int) (drive : Drive) (w : ω) :
    drive.attempt library world' now (see w) =
      Prod.map id (Prod.map id see) (drive.attempt library world now w) := by
  rw [attempt_eq_guarded, attempt_eq_guarded]
  refine guarded_shown (ready_shown h now) (fun drive w => ?_) drive w
  rw [fire_eq, fire_eq, Node.fire_shown h]
  rcases (drive.node library).fire world w with ⟨result, node, w₁⟩
  cases result <;> rfl

/-- The evaluation of a drive collection does not see the difference between the two worlds. -/
theorem evaluate_shown (library : Library) (goal : Trigger) (now : Int)
    (levels : List (List Drive)) (w : ω) :
    evaluate library world' goal now levels (see w) =
      Prod.map id (Prod.map id see) (evaluate library world goal now levels w) := by
  rw [evaluate, evaluate, Trigger.reached_shown h]
  rcases goal.reached world w with ⟨answer, w₁⟩
  rcases answer with e | _ | _
  · rfl
  · dsimp only [Prod.map, id]
    rw [firstReadyByLevel_shown (Drive.attempt_shown h library now)]
    rcases firstReadyByLevel (Drive.attempt library world now) 0 levels w₁ with
      ⟨result, levels', w₂⟩
    rcases result with e | _ | _ <;> rfl
  · rfl

/-- A step does in the larger world what it does in the world that is shown: records and traces
are no part of the behaviour. -/
theorem Agent.step_shown (agent : Agent) (w : ω) :
    agent.step world' (see w) = Prod.map id (Prod.map id see) (agent.step world w) := by
  rw [step, step, evaluate_shown h]
  rcases evaluate agent.library world agent.goal agent.clock.beginStep.time agent.levels w with
    ⟨result, levels, w₁⟩
  cases result <;> rfl

/-- The drive element that is fired is the same in both. -/
theorem Agent.fired?_shown (agent : Agent) (w : ω) :
    agent.fired? world' (see w) = (agent.fired? world w).map (Prod.map id (Prod.map id see)) := by
  rw [fired?, fired?, Trigger.reached_shown h]
  rcases agent.goal.reached world w with ⟨answer, w₁⟩
  rcases answer with e | _ | _
  · rfl
  · dsimp only [Prod.map, id]
    rw [firstFired?_shown (Drive.ready_shown h agent.clock.beginStep.time)]
  · rfl

end Shows

/-! ## The record -/

variable {w w₁ : ω} {e : ε} {calls calls' : List Call}

/-- With a record of all calls the world is the same, but for the record. -/
theorem World.traced_shows (world : World ω ε) : World.Shows Prod.fst world.traced world :=
  ⟨fun _ _ => rfl, fun _ _ => rfl⟩

/-- A step in the traced world is the step in the world, with a list of calls beside it. -/
theorem Agent.step_traced (agent : Agent) (world : World ω ε) (w : ω) (calls : List Call) :
    agent.step world w =
      Prod.map id (Prod.map id Prod.fst) (agent.step world.traced (w, calls)) :=
  agent.step_shown world.traced_shows (w, calls)

/-- Reads are recorded. -/
theorem Reads.of_traced {senses : List Capability}
    (h : Reads world.traced (w, calls) senses (w₁, calls')) :
    Reads world w senses w₁ ∧ calls' = senses.map .read ++ calls := by
  generalize hstart : (w, calls) = start at h
  generalize hlast : (w₁, calls') = last at h
  induction h generalizing w₁ calls' with
  | start =>
    subst hstart
    cases hlast
    exact ⟨.start, rfl⟩
  | @read senses sense reading before _ _ hread ih =>
    obtain ⟨w₀, earlier⟩ := before
    obtain ⟨hreads, rfl⟩ := ih rfl
    subst hlast
    simp only [World.traced, Prod.mk.injEq] at hread
    obtain ⟨hanswer, hworld, hcalls⟩ := hread
    exact ⟨.read hreads (Prod.ext hanswer hworld), hcalls.symm⟩

/-- So is any other call. -/
theorem Call.perform_traced {call : Call}
    (h : call.perform world.traced (w, calls) = (.error e, (w₁, calls'))) :
    call.perform world w = (.error e, w₁) ∧ calls' = call :: calls := by
  cases call with
  | act | read =>
    simp only [perform, World.traced, Prod.mk.injEq] at h ⊢
    exact ⟨⟨h.1, h.2.1⟩, h.2.2.symm⟩

end SlipStack.Engine
