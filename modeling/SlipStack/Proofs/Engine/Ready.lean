import SlipStack.Engine.Drive
import SlipStack.Proofs.Engine.Search

/-!
# Ready, then fired

Elements of competences and drive elements are tried alike (`guarded`): at first it is found
out whether the element is ready, which reads senses and changes nothing else, and only a
ready element is fired. `firstFired?` names the element that a search fires. `Competed` says all
that the evaluation of a competence comes to, with the states that the world goes through, and
`Node.ready?` which of its elements is fired.
-/

namespace SlipStack.Engine

variable {ω ε α β : Type}

/-! ## Guarded attempts -/

/-- The attempt that fires an element if it is ready. -/
def guarded (ready : α → ω → Except ε Bool × ω) (fire : α → ω → Except ε β × α × ω) :
    Attempt ω ε α β := fun x w =>
  match ready x w with
  | (.error e, w) => (.error e, x, w)
  | (.ok false, w) => (.ok none, x, w)
  | (.ok true, w) =>
    let (result, x, w) := fire x w
    (result.map some, x, w)

section Guarded

variable {ready : α → ω → Except ε Bool × ω} {fire : α → ω → Except ε β × α × ω} {x x' : α}
  {w w' : ω}

/-- A guarded attempt passes an element over exactly if it is not ready, and then the element is
as it was. -/
theorem guarded_eq_none :
    guarded ready fire x w = (.ok none, x', w') ↔ ready x w = (.ok false, w') ∧ x = x' := by
  rw [guarded]
  rcases ready x w with ⟨answer, w₁⟩
  rcases answer with e | _ | _
  · simp
  · simp [and_comm]
  · dsimp only
    rcases fire x w₁ with ⟨result, x₁, w₂⟩
    cases result <;> simp [Except.map]

/-- A guarded attempt finds something exactly if the element is ready and firing it, in the world
that the question leaves, gives that. -/
theorem guarded_eq_some {found : β} :
    guarded ready fire x w = (.ok (some found), x', w') ↔
      ∃ w₁, ready x w = (.ok true, w₁) ∧ fire x w₁ = (.ok found, x', w') := by
  rw [guarded]
  rcases ready x w with ⟨answer, w₁⟩
  rcases answer with e | _ | _
  · simp
  · simp
  · dsimp only
    rcases hfire : fire x w₁ with ⟨result, x₁, w₂⟩
    cases result <;> simp [Except.map, hfire]

/-- A guarded attempt fails in one of two ways: the question whether the element is ready fails,
and nothing changes, or the firing does. -/
theorem guarded_eq_error {e : ε} :
    guarded ready fire x w = (.error e, x', w') ↔
      ready x w = (.error e, w') ∧ x = x' ∨
        ∃ w₁, ready x w = (.ok true, w₁) ∧ fire x w₁ = (.error e, x', w') := by
  rw [guarded]
  rcases ready x w with ⟨answer, w₁⟩
  rcases answer with e | _ | _
  · simp [and_comm, and_left_comm, and_assoc]
  · simp
  · dsimp only
    rcases hfire : fire x w₁ with ⟨result, x₁, w₂⟩
    cases result <;> simp [Except.map, hfire]

/-- A guarded attempt is quiet: an element that is not ready is left alone. All that is proved of
searches needs no more of an attempt. -/
theorem guarded_quiet : Quiet (guarded ready fire) := by
  intro x w x' w' h
  exact (guarded_eq_none.1 h).2.symm

end Guarded

/-- The first element that is ready, with its position counted from `position` and the world
in which it is fired. -/
def firstFired? (ready : α → ω → Except ε Bool × ω) (position : Nat) :
    List α → ω → Option (Nat × α × ω)
  | [], _ => none
  | x :: xs, w =>
    match ready x w with
    | (.error _, _) => none
    | (.ok false, w) => firstFired? ready (position + 1) xs w
    | (.ok true, w) => some (position, x, w)

/-- What was not ready is passed over. -/
theorem firstFired?_append {ready : α → ω → Except ε Bool × ω}
    {fire : α → ω → Except ε β × α × ω} {xs : List α} {w w' : ω}
    (h : Passed (guarded ready fire) xs w w') (position : Nat) (ys : List α) :
    firstFired? ready position (xs ++ ys) w =
      firstFired? ready (position + xs.length) ys w' := by
  induction h generalizing position with
  | nil => rfl
  | cons hx _ ih =>
    rw [List.cons_append, firstFired?, (guarded_eq_none.1 hx).1]
    dsimp only
    rw [ih, List.length_cons]
    congr 1
    omega

/-- If all elements are passed over, the search for the first one that is ready finds none. -/
theorem firstFired?_eq_none {ready : α → ω → Except ε Bool × ω}
    {fire : α → ω → Except ε β × α × ω} {xs : List α} {w w' : ω}
    (h : Passed (guarded ready fire) xs w w') (position : Nat) :
    firstFired? ready position xs w = none := by
  rw [← List.append_nil xs, firstFired?_append h]
  rfl

section Levels

variable {ready : α → ω → Except ε Bool × ω} {fire : α → ω → Except ε β × α × ω}
  {above below : List (List α)} {before after : List α} {x : α} {w w₁ w₂ : ω}

/-- The search finds the first element that is ready after all before it were passed over, with
its position counted through the levels. -/
theorem firstFired?_of_ready (hpassed : Passed (guarded ready fire) (above.flatten ++ before) w w₁)
    (hx : ready x w₁ = (.ok true, w₂)) :
    firstFired? ready 0 (above ++ (before ++ x :: after) :: below).flatten w =
      some (above.flatten.length + before.length, x, w₂) := by
  have hflatten : (above ++ (before ++ x :: after) :: below).flatten =
      above.flatten ++ before ++ x :: (after ++ below.flatten) := by simp
  rw [hflatten, firstFired?_append hpassed, firstFired?, hx, Nat.zero_add, List.length_append]

/-- If the question fails at some element, the search ends there and finds none, although no
element was fired. -/
theorem firstFired?_of_error {e : ε}
    (hpassed : Passed (guarded ready fire) (above.flatten ++ before) w w₁)
    (hx : ready x w₁ = (.error e, w₂)) :
    firstFired? ready 0 (above ++ (before ++ x :: after) :: below).flatten w = none := by
  have hflatten : (above ++ (before ++ x :: after) :: below).flatten =
      above.flatten ++ before ++ x :: (after ++ below.flatten) := by simp
  rw [hflatten, firstFired?_append hpassed, firstFired?, hx]

end Levels

/-! ## Elements and drive elements -/

namespace ElementState

/-- Whether the element is ready: its trigger holds, and its retries are not used up. -/
def ready (world : World ω ε) (state : ElementState) (w : ω) : Except ε Bool × ω :=
  match state.element.trigger.holds world w with
  | (.ok true, w) => (.ok (!state.exhausted), w)
  | (.ok false, w) => (.ok false, w)
  | (.error e, w) => (.error e, w)

/-- Fires an element that is ready. The answer tells the node to enter, if any. -/
def fire (world : World ω ε) (state : ElementState) (w : ω) :
    Except ε (Option NodeRef) × ElementState × ω :=
  match state.element.target with
  | .node ref => (.ok (some ref), state.spend, w)
  | .action capability =>
    match world.act capability w with
    | (.ok _, w) => (.ok none, state.spend, w)
    | (.error e, w) => (.error e, state.spend, w)

/-- An attempt is a question followed by a firing, which lets one search lemma serve drive
elements and elements of competences. -/
theorem attempt_eq_guarded (world : World ω ε) :
    attempt world = guarded (ready world) (fire world) := by
  funext state w
  rw [attempt, guarded, ready]
  rcases state.element.trigger.holds world w with ⟨answer, w₁⟩
  rcases answer with e | _ | _
  · rfl
  · rfl
  · cases state.exhausted with
    | true => rfl
    | false =>
      simp only [Bool.false_eq_true, if_false, Bool.not_false, fire]
      cases state.element.target with
      | node ref => rfl
      | action capability =>
        dsimp only
        rcases world.act capability w₁ with ⟨result, w₂⟩
        cases result <;> rfl

theorem ready_eq_true {world : World ω ε} {state : ElementState} {w w' : ω} :
    state.ready world w = (.ok true, w') ↔
      state.element.trigger.holds world w = (.ok true, w') ∧ state.exhausted = false := by
  rw [ready]
  rcases state.element.trigger.holds world w with ⟨answer, w₁⟩
  rcases answer with e | _ | _ <;> simp [and_comm]

/-- An element is not ready for one of two reasons: its trigger does not hold, or it does and the
element is held back by its own state. -/
theorem ready_eq_false {world : World ω ε} {state : ElementState} {w w' : ω} :
    state.ready world w = (.ok false, w') ↔
      state.element.trigger.holds world w = (.ok false, w') ∨
        state.element.trigger.holds world w = (.ok true, w') ∧ state.exhausted = true := by
  rw [ready]
  rcases state.element.trigger.holds world w with ⟨answer, w₁⟩
  rcases answer with e | _ | _ <;> simp [and_comm]

theorem ready_eq_error {world : World ω ε} {state : ElementState} {w w' : ω} {e : ε} :
    state.ready world w = (.error e, w') ↔
      state.element.trigger.holds world w = (.error e, w') := by
  rw [ready]
  rcases state.element.trigger.holds world w with ⟨answer, w₁⟩
  rcases answer with e | _ | _ <;> simp

/-- To fire an element costs a retry, whatever comes of it. -/
theorem fire_spend {world : World ω ε} {state state' : ElementState} {w w' : ω}
    {result : Except ε (Option NodeRef)} (h : state.fire world w = (result, state', w')) :
    state' = state.spend := by
  rw [fire] at h
  split at h
  · cases h
    rfl
  · split at h <;> cases h <;> rfl

end ElementState

namespace Drive

variable {library : Library} {world : World ω ε} {now : Int}

/-- Whether the drive element is ready at the time `now`: its trigger holds, and its interval has
passed. -/
def ready (world : World ω ε) (now : Int) (drive : Drive) (w : ω) : Except ε Bool × ω :=
  match drive.trigger.holds world w with
  | (.ok true, w) => (.ok (!drive.tooEarly now), w)
  | (.ok false, w) => (.ok false, w)
  | (.error e, w) => (.error e, w)

theorem attempt_eq_guarded (library : Library) (world : World ω ε) (now : Int) :
    attempt library world now =
      guarded (ready world now) fun drive w =>
        ({ drive with lastFired := now } : Drive).fire library world w := by
  funext drive w
  rw [attempt, guarded, ready]
  rcases drive.trigger.holds world w with ⟨answer, w₁⟩
  rcases answer with e | _ | _
  · rfl
  · rfl
  · cases drive.tooEarly now with
    | true => rfl
    | false =>
      simp only [Bool.false_eq_true, if_false, Bool.not_false]
      rcases ({ drive with lastFired := now } : Drive).fire library world w₁ with
        ⟨result, drive', w₂⟩
      cases result <;> rfl

theorem ready_eq_true {drive : Drive} {w w' : ω} :
    drive.ready world now w = (.ok true, w') ↔
      drive.trigger.holds world w = (.ok true, w') ∧ drive.tooEarly now = false := by
  rw [ready]
  rcases drive.trigger.holds world w with ⟨answer, w₁⟩
  rcases answer with e | _ | _ <;> simp [and_comm]

theorem ready_eq_false {drive : Drive} {w w' : ω} :
    drive.ready world now w = (.ok false, w') ↔
      drive.trigger.holds world w = (.ok false, w') ∨
        drive.trigger.holds world w = (.ok true, w') ∧ drive.tooEarly now = true := by
  rw [ready]
  rcases drive.trigger.holds world w with ⟨answer, w₁⟩
  rcases answer with e | _ | _ <;> simp [and_comm]

theorem ready_eq_error {drive : Drive} {w w' : ω} {e : ε} :
    drive.ready world now w = (.error e, w') ↔
      drive.trigger.holds world w = (.error e, w') := by
  rw [ready]
  rcases drive.trigger.holds world w with ⟨answer, w₁⟩
  rcases answer with e | _ | _ <;> simp

end Drive

/-! ## Competences -/

/-- What the evaluation of a competence comes to, from one state of the world to another. -/
inductive Competed (world : World ω ε) (goal : Trigger) (w : ω) :
    List (List ElementState) → Except ε Move → List (List ElementState) → ω → Prop
  | goalFailed {levels : List (List ElementState)} {e : ε} {w' : ω} :
      goal.reached world w = (.error e, w') → Competed world goal w levels (.error e) levels w'
  | reached {levels : List (List ElementState)} {w' : ω} :
      goal.reached world w = (.ok true, w') → Competed world goal w levels (.ok .home) levels w'
  /-- No element was ready. -/
  | unready {levels : List (List ElementState)} {w₁ w' : ω} :
      goal.reached world w = (.ok false, w₁) →
      Passed (ElementState.attempt world) levels.flatten w₁ w' →
      Competed world goal w levels (.ok .home) levels w'
  | triggerFailed {above below : List (List ElementState)} {before after : List ElementState}
      {state : ElementState} {e : ε} {w₁ w₂ w' : ω} :
      goal.reached world w = (.ok false, w₁) →
      Passed (ElementState.attempt world) (above.flatten ++ before) w₁ w₂ →
      state.ready world w₂ = (.error e, w') →
      Competed world goal w (above ++ (before ++ state :: after) :: below) (.error e)
        (above ++ (before ++ state :: after) :: below) w'
  /-- The first ready element was fired. -/
  | fired {above below : List (List ElementState)} {before after : List ElementState}
      {state : ElementState} {result : Except ε (Option NodeRef)} {w₁ w₂ w₃ w' : ω} :
      goal.reached world w = (.ok false, w₁) →
      Passed (ElementState.attempt world) (above.flatten ++ before) w₁ w₂ →
      state.ready world w₂ = (.ok true, w₃) →
      state.fire world w₃ = (result, state.spend, w') →
      Competed world goal w (above ++ (before ++ state :: after) :: below)
        (result.map fun ref? => .ofReady (some (above.flatten.length + before.length, ref?)))
        (above ++ (before ++ state.spend :: after) :: below) w'

/-- The firing of a competence ends in one of the cases of `Competed`, with the elements before
the deciding one passed over. -/
theorem fireCompetence_competed {world : World ω ε} {goal : Trigger}
    {levels levels' : List (List ElementState)} {w w' : ω} {result : Except ε Move}
    (h : fireCompetence world goal levels w = (result, levels', w')) :
    Competed world goal w levels result levels' w' := by
  rw [fireCompetence] at h
  split at h
  · rename_i hgoal
    cases h
    exact .goalFailed hgoal
  · rename_i hgoal
    cases h
    exact .reached hgoal
  · rename_i w₁ hgoal
    rcases hsearch : firstReadyByLevel (ElementState.attempt world) 0 levels w₁ with
      ⟨found, after, w₂⟩
    -- The search lemma needs that elements which are not ready are left alone.
    have hquiet : Quiet (ElementState.attempt world) := by
      rw [ElementState.attempt_eq_guarded]
      exact guarded_quiet
    rw [hsearch] at h
    cases firstReadyByLevel_searched hquiet hsearch with
    | none hpassed =>
      cases h
      exact .unready hgoal hpassed
    | @ready above below before after state state' ref? w₂ _ hpassed hattempt =>
      cases h
      rw [ElementState.attempt_eq_guarded] at hattempt
      obtain ⟨w₃, hready, hfire⟩ := guarded_eq_some.1 hattempt
      obtain rfl := ElementState.fire_spend hfire
      have hfired : Competed world goal w (above ++ (before ++ state :: after) :: below) _
        (above ++ (before ++ state.spend :: after) :: below) w' :=
        .fired hgoal hpassed hready hfire
      rw [Nat.zero_add]
      exact hfired
    | @failed above below before after state state' e w₂ _ hpassed hattempt =>
      cases h
      rw [ElementState.attempt_eq_guarded] at hattempt
      rcases guarded_eq_error.1 hattempt with ⟨hready, rfl⟩ | ⟨w₃, hready, hfire⟩
      · exact .triggerFailed hgoal hpassed hready
      · obtain rfl := ElementState.fire_spend hfire
        have hfired : Competed world goal w (above ++ (before ++ state :: after) :: below)
          (.error e) (above ++ (before ++ state.spend :: after) :: below) w' :=
          .fired hgoal hpassed hready hfire
        exact hfired

/-! ## Nodes -/

/-- What taking a step of a pattern answers: the action is called, or the sense read. A step
that names a competence is not taken. -/
inductive Step.Taken (world : World ω ε) (w : ω) : Step → Except ε Bool → ω → Prop
  | acted {capability : Capability} {answer : Except ε Bool} {w' : ω} :
      world.act capability w = (answer, w') → Taken world w (.action capability) answer w'
  | sensed {sense : Sense} {answer : Except ε Bool} {w' : ω} :
      sense.holds world w = (answer, w') → Taken world w (.sense sense) answer w'

/-- All that firing a node comes to, from one state of the world to another. -/
inductive Node.Enacted (world : World ω ε) (w : ω) :
    Node → Except ε Move → Node → ω → Prop
  | called {capability : Capability} {answer : Except ε Bool} {w' : ω} :
      world.act capability w = (answer, w') →
      Enacted world w (.action capability) (answer.map fun _ => .home) (.action capability) w'
  | competed (name : String) {goal : Trigger} {levels levels' : List (List ElementState)}
      {result : Except ε Move} {w' : ω} : Competed world goal w levels result levels' w' →
      Enacted world w (.competence name goal levels) result (.competence name goal levels') w'
  /-- A pattern without a step at its cursor ends. -/
  | ended (name : String) {steps : List Step} {cursor : Nat} : steps[cursor]? = none →
      Enacted world w (.pattern name steps cursor) (.ok .home) (.pattern name steps 0) w
  | handedOff (name : String) {steps : List Step} {cursor : Nat} {next : String} :
      steps[cursor]? = some (.competence next) →
      Enacted world w (.pattern name steps cursor) (.ok (.enter .handoff (.competence next)))
        (.pattern name steps 0) w
  /-- The step at the cursor succeeded or not. -/
  | stepped (name : String) {steps : List Step} {cursor : Nat} {step : Step} {succeeded : Bool}
      {w' : ω} : steps[cursor]? = some step → step.Taken world w (.ok succeeded) w' →
      Enacted world w (.pattern name steps cursor) (.ok (afterStep steps cursor succeeded).1)
        (.pattern name steps (afterStep steps cursor succeeded).2) w'
  | stepFailed (name : String) {steps : List Step} {cursor : Nat} {step : Step} {e : ε}
      {w' : ω} : steps[cursor]? = some step → step.Taken world w (.error e) w' →
      Enacted world w (.pattern name steps cursor) (.error e) (.pattern name steps cursor) w'

/-- Firing a pattern takes the step at its cursor, if there is one. -/
theorem firePattern_enacted (name : String) {world : World ω ε} {steps : List Step}
    {cursor : Nat} {w w' : ω} {answer : Except ε (Move × Nat)}
    (h : firePattern world steps cursor w = (answer, w')) :
    Node.Enacted world w (.pattern name steps cursor) (answer.map Prod.fst)
      (.pattern name steps ((answer.map Prod.snd).toOption.getD cursor)) w' := by
  unfold firePattern at h
  split at h
  case h_1 hstep =>
    cases h
    exact .ended name hstep
  case h_2 hstep =>
    cases h
    exact .handedOff name hstep
  case h_3 hstep =>
    split at h
    case h_1 hact =>
      cases h
      exact .stepped name hstep (.acted hact)
    case h_2 hact =>
      cases h
      exact .stepFailed name hstep (.acted hact)
  case h_4 hstep =>
    split at h
    case h_1 hholds =>
      cases h
      exact .stepped name hstep (.sensed hholds)
    case h_2 hholds =>
      cases h
      exact .stepFailed name hstep (.sensed hholds)

/-- What a node is said to come to is what firing it gives. -/
theorem Node.fire_enacted {world : World ω ε} {node node' : Node} {result : Except ε Move}
    {w w' : ω} (h : node.fire world w = (result, node', w')) :
    node.Enacted world w result node' w' := by
  unfold fire at h
  cases node with
  | action capability =>
    dsimp only at h
    split at h
    case h_1 hact | h_2 hact =>
      cases h
      exact .called hact
  | competence name goal levels =>
    cases h
    exact .competed name (fireCompetence_competed rfl)
  | pattern name steps cursor =>
    dsimp only at h
    split at h
    case h_1 hfire | h_2 hfire =>
      cases h
      exact firePattern_enacted name hfire

/-! ## The element that is ready -/

namespace Node

/-- The element that firing the node finds ready, with its position and the world in which it
is fired itself. -/
def ready? (world : World ω ε) : Node → ω → Option (Nat × ElementState × ω)
  | .competence _ goal levels, w =>
    match goal.reached world w with
    | (.ok false, w) => firstFired? (ElementState.ready world) 0 levels.flatten w
    | _ => none
  | _, _ => none

variable {world : World ω ε} {goal : Trigger} {w w₁ w₂ w₃ : ω}

/-- After a goal that is not reached the first ready element is fired. -/
theorem ready?_of_goal (name : String) {levels : List (List ElementState)}
    (h : goal.reached world w = (.ok false, w₁)) :
    (Node.competence name goal levels).ready? world w =
      firstFired? (ElementState.ready world) 0 levels.flatten w₁ := by
  rw [ready?, h]

/-- If a competence passes over all its elements, none of them is noted as ready. -/
theorem ready?_of_passed (name : String) {levels : List (List ElementState)}
    (hgoal : goal.reached world w = (.ok false, w₁))
    (hpassed : Passed (ElementState.attempt world) levels.flatten w₁ w₂) :
    (Node.competence name goal levels).ready? world w = none := by
  rw [ElementState.attempt_eq_guarded] at hpassed
  rw [ready?_of_goal name hgoal, firstFired?_eq_none hpassed]

variable {above below : List (List ElementState)} {before after : List ElementState}
  {state : ElementState}

/-- If the trigger of an element fails, none is noted as ready, and accordingly no retry is spent.
-/
theorem ready?_of_triggerFailed (name : String) {e : ε}
    (hgoal : goal.reached world w = (.ok false, w₁))
    (hpassed : Passed (ElementState.attempt world) (above.flatten ++ before) w₁ w₂)
    (hready : state.ready world w₂ = (.error e, w₃)) :
    (Node.competence name goal (above ++ (before ++ state :: after) :: below)).ready? world w =
      none := by
  rw [ElementState.attempt_eq_guarded] at hpassed
  rw [ready?_of_goal name hgoal, firstFired?_of_error hpassed hready]

/-- The element noted as ready is the first one whose trigger holds and that is not exhausted,
counted through the levels. -/
theorem ready?_of_ready (name : String) (hgoal : goal.reached world w = (.ok false, w₁))
    (hpassed : Passed (ElementState.attempt world) (above.flatten ++ before) w₁ w₂)
    (hready : state.ready world w₂ = (.ok true, w₃)) :
    (Node.competence name goal (above ++ (before ++ state :: after) :: below)).ready? world w =
      some (above.flatten.length + before.length, state, w₃) := by
  rw [ElementState.attempt_eq_guarded] at hpassed
  rw [ready?_of_goal name hgoal, firstFired?_of_ready hpassed hready]

end Node

end SlipStack.Engine
