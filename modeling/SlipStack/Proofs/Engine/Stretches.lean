import SlipStack.Proofs.Engine.Fired
import SlipStack.Proofs.Engine.History
import SlipStack.Proofs.Engine.Resolution

/-!
# No pattern is left half run

In every agent that comes from a built one, all patterns of a drive element stand at their
first step, except for the one at its cursor (`Drive.Tidy`). So a pattern that is entered, at
whatever time, is run from its beginning.

`Agent.Logs` keeps a log of the steps that patterns evaluate, whatever else happens between
them. The log of each pattern is made of stretches that count up from the first step
(`Stretches`): a step is evaluated again only if a capability failed at it. This is carried
by the state: where a pattern stands is told by its latest evaluation, if it is not at its
first step (`Agent.Accounts`).
-/

namespace SlipStack.Engine

variable {ω ε : Type} {library : Library} {now : Int}

/-! ## Where patterns stand -/

namespace Node

/-- The node, if it is a pattern, is at its first step. -/
def AtRest : Node → Prop
  | .pattern _ _ cursor => cursor = 0
  | _ => True

/-- The node, if it is a pattern, is at one of its steps. A pattern without steps is at zero. -/
def InSteps : Node → Prop
  | .pattern _ steps cursor => cursor < steps.length ∨ steps = [] ∧ cursor = 0
  | _ => True

variable {node node' : Node}

/-- A pattern at its first step is at one of its steps. -/
theorem AtRest.inSteps (h : node.AtRest) : node.InSteps := by
  cases node with
  | action | competence => trivial
  | pattern name steps cursor =>
    simp only [AtRest] at h
    subst h
    cases steps with
    | nil => exact .inr ⟨rfl, rfl⟩
    | cons step steps => exact .inl (Nat.zero_lt_succ _)

theorem reset_atRest (node : Node) : node.reset.AtRest := by
  cases node <;> trivial

/-- A firing leaves a pattern at one of its steps: it goes on by one, if there is a next, or
starts over, or stays. -/
theorem Fired.inSteps {result : Except ε Move} (h : node.Fired result node')
    (hnode : node.InSteps) : node'.InSteps := by
  cases h with
  | failed | done => exact hnode
  | called | callFailed | entered => trivial
  | advanced hmore => exact .inl hmore
  | restarted name steps =>
    have hrest : (Node.pattern name steps 0).AtRest := rfl
    exact hrest.inSteps
  | @handedOff name steps =>
    have hrest : (Node.pattern name steps 0).AtRest := rfl
    exact hrest.inSteps

/-- A pattern that evaluation leaves is at its first step again. -/
theorem Fired.atRest {move : Move} (h : node.Fired (ε := ε) (.ok move) node')
    (hmove : move ≠ .stay) : node'.AtRest := by
  cases h with
  | called | entered => trivial
  | restarted | handedOff => rfl
  | advanced => exact absurd rfl hmove
  | done hpattern =>
    cases node with
    | action | competence => trivial
    | pattern name steps cursor => exact absurd rfl (hpattern name steps cursor)

end Node

theorem Library.fresh_atRest (library : Library) (ref : NodeRef) : (library.fresh ref).AtRest := by
  rw [← library.reset_fresh ref]
  exact Node.reset_atRest _

namespace Drive

variable {drive drive' : Drive}

/-- Every pattern is at one of its steps, and all but the one at the cursor are at their first. -/
structure Tidy (drive : Drive) : Prop where
  atRest : ∀ path node, drive.instances.get? path = some node → path ≠ drive.cursor → node.AtRest
  inSteps : ∀ path node, drive.instances.get? path = some node → node.InSteps

theorem atRest_of_unused (h : drive.unused library = drive) {path : Path} {node : Node}
    (hnode : drive.instances.get? path = some node) : node.AtRest := by
  rw [← h, unused, fresh] at hnode
  by_cases hpath : path = home
  · subst hpath
    simp only [home, Instances.get?_set_singleton, Option.some.injEq] at hnode
    rw [← hnode, ← library.reset_freshTarget]
    exact Node.reset_atRest _
  · simp [Instances.get?_set_ne _ _ hpath, Instances.get?] at hnode

/-- A drive element with all patterns at rest is tidy, whatever its cursor is at. -/
theorem tidy_of_atRest (h : ∀ path node, drive.instances.get? path = some node → node.AtRest) :
    drive.Tidy :=
  ⟨fun path node hnode _ => h path node hnode, fun path node hnode => (h path node hnode).inSteps⟩

/-- An attempt leaves a drive element tidy: a pattern is left only at its first step, so only the
one at the cursor is elsewhere. -/
theorem Tidy.tried (hsound : drive.Sound library) {result : Except ε (Option Unit)}
    (htried : drive.Tried library now result drive') (h : drive.Tidy) : drive'.Tidy := by
  have hnode : (drive.node library).InSteps := h.inSteps _ _ hsound.current?_eq
  cases htried with
  | unready | triggerFailed => exact h
  | @fireFailed e node' _ hfired =>
    refine ⟨fun path found hfound hpath => ?_, fun path found hfound => ?_⟩
    · rcases hsound.get?_store_cases hfound with ⟨hcursor, _⟩ | ⟨hcursor, hold⟩
      · exact absurd hcursor hpath
      · exact h.atRest path found hold hcursor
    · rcases hsound.get?_store_cases hfound with ⟨_, rfl⟩ | ⟨_, hold⟩
      · exact hfired.inSteps hnode
      · exact h.inSteps path found hold
  | @fired move node' _ hfired =>
    refine ⟨fun path found hfound hpath => ?_, fun path found hfound => ?_⟩
    · rcases hsound.get?_follow_cases hfound with ⟨hcursor, rfl⟩ | ⟨hcursor, hold | ⟨ref, rfl⟩⟩
      · -- The cursor left this node.
        refine hfired.atRest fun hstay => ?_
        subst hstay
        exact hpath hcursor
      · exact h.atRest path found hold hcursor
      · exact library.fresh_atRest ref
    · rcases hsound.get?_follow_cases hfound with ⟨_, rfl⟩ | ⟨_, hold | ⟨ref, rfl⟩⟩
      · exact hfired.inSteps hnode
      · exact h.inSteps path found hold
      · exact (library.fresh_atRest ref).inSteps

theorem reset_tidy (drive : Drive) : drive.reset.Tidy := by
  refine tidy_of_atRest fun path node hnode => ?_
  rw [reset, Instances.get?_map] at hnode
  obtain ⟨old, _, rfl⟩ := Option.map_eq_some_iff.1 hnode
  exact Node.reset_atRest old

end Drive

theorem Agent.Reaches.tidy {built agent : Agent} (hbuilt : built.AsBuilt)
    (h : built.Reaches agent) : ∀ level ∈ agent.levels, ∀ drive ∈ level, drive.Tidy :=
  h.forall_drives hbuilt
    (fun level hlevel drive hdrive => Drive.tidy_of_atRest fun _ _ =>
      Drive.atRest_of_unused (hbuilt.unused level hlevel drive hdrive))
    (fun _ _ _ hsound htried => Drive.Tidy.tried hsound htried)
    (fun drive _ _ => drive.reset_tidy)

/-! ## The log of evaluated steps -/

/-- A step of a pattern that was evaluated. -/
structure Evaluation where
  /-- The position of the drive element, counted through all levels. -/
  drive : Nat
  /-- The path of the pattern in the drive element. -/
  path : Path
  /-- The place of the step in the pattern. -/
  index : Nat
  /-- Whether a capability failed at it. -/
  failed : Bool
  deriving DecidableEq, Repr

/-- This is an evaluation of the pattern at the given place. -/
def Evaluation.isOf (position : Nat) (path : Path) (evaluation : Evaluation) : Bool :=
  evaluation.drive = position && evaluation.path = path

/-- The step can be the next, after the evaluations of the same pattern given, the latest first.
It is the first step, or the one after the latest, or the latest again, if a capability failed
there. -/
def Resumes (earlier : List Evaluation) (index : Nat) : Prop :=
  index = 0 ∨ ∃ last, earlier.head? = some last ∧
    index = if last.failed then last.index else last.index + 1

/-- The evaluations of a pattern, the latest first, count up from the first step in each stretch.
-/
def Stretches : List Evaluation → Prop
  | [] => True
  | evaluation :: earlier => Resumes earlier evaluation.index ∧ Stretches earlier

/-- The step that firing the node evaluates, if the node is a pattern. -/
def Node.evaluates? : Node → Option Nat
  | .pattern _ steps cursor => if cursor < steps.length then some cursor else none
  | _ => none

namespace Agent

/-- The step of a pattern, if any, that a step of the agent evaluates. -/
def evaluation? (world : World ω ε) (agent : Agent) (w : ω) : Option Evaluation :=
  (agent.fired? world w).bind fun (position, drive, w) =>
    let node := drive.node agent.library
    node.evaluates?.map fun index =>
      ⟨position, drive.cursor, index, !(node.fire world w).1.isOk⟩

/-- What a step has done in the patterns, by what is noted of it: what is noted is the step that
the pattern at the cursor stood at, whose action was called or whose sense was read, or which
named the competence to go on with. Without a note no step of a pattern was taken. -/
inductive Evaluates (world : World ω ε) (agent : Agent) (w : ω) : Option Evaluation → Prop
  | idle : Looks world w (agent.step world w).2.2 → Evaluates world agent w none
  /-- What is fired has no step to take. -/
  | other {drive : Drive} {senses : List Capability} {moved : Except ε Move} {node' : Node}
      {w₁ : ω} : drive ∈ agent.levels.flatten → Reads world w senses w₁ →
      (drive.node agent.library).Enacted world w₁ moved node' (agent.step world w).2.2 →
      (∀ name steps cursor, drive.node agent.library = .pattern name steps cursor →
        steps[cursor]? = none) → Evaluates world agent w none
  | taken {position : Nat} {drive : Drive} {senses : List Capability} {name : String}
      {steps : List Step} {index : Nat} {step : Step} {answer : Except ε Bool} {w₁ : ω} :
      agent.levels.flatten[position]? = some drive → Reads world w senses w₁ →
      drive.node agent.library = .pattern name steps index → steps[index]? = some step →
      step.Taken world w₁ answer (agent.step world w).2.2 →
      Evaluates world agent w (some ⟨position, drive.cursor, index, !answer.isOk⟩)
  | handedOff {position : Nat} {drive : Drive} {senses : List Capability} {name : String}
      {steps : List Step} {index : Nat} {next : String} :
      agent.levels.flatten[position]? = some drive →
      Reads world w senses (agent.step world w).2.2 →
      drive.node agent.library = .pattern name steps index →
      steps[index]? = some (.competence next) →
      Evaluates world agent w (some ⟨position, drive.cursor, index, false⟩)

/-- The step that the log has for the step of an agent is the one that is evaluated: its sense is
read or its action called, if a pattern is fired. -/
theorem evaluates_evaluation? (world : World ω ε) (agent : Agent) (w : ω) :
    agent.Evaluates world w (agent.evaluation? world w) := by
  have hcomes := agent.step_comesTo world w
  unfold evaluation?
  generalize agent.fired? world w = fired at hcomes ⊢
  generalize (agent.step world w).1 = result at hcomes
  generalize (agent.step world w).2.1.levels.flatten = drives at hcomes
  generalize hworld : (agent.step world w).2.2 = w' at hcomes
  cases hcomes with
  | idle _ hlooks => exact .idle (hworld ▸ hlooks)
  | @fired position drive senses moved node' w₀ w₁ _ hdrive hreads _ hfire =>
    subst hworld
    have hwhole := Node.fire_enacted hfire
    have henacted := hwhole
    -- What is logged is read off the node before the firing, and is compared with what it did.
    simp only [Option.bind_some, hfire]
    generalize hnode : drive.node agent.library = node at henacted ⊢
    cases henacted with
    | called | competed =>
      exact .other (List.mem_of_getElem? hdrive) hreads hwhole (by simp [hnode])
    | ended name hstep =>
      have hend := List.getElem?_eq_none_iff.1 hstep
      simp only [Node.evaluates?, Nat.not_lt.2 hend, if_false, Option.map_none]
      exact .other (List.mem_of_getElem? hdrive) hreads hwhole (by simpa [hnode] using hend)
    | handedOff name hstep =>
      simp only [Node.evaluates?, (List.getElem?_eq_some_iff.1 hstep).1, if_true, Option.map_some]
      exact .handedOff hdrive hreads hnode hstep
    | stepped name hstep htaken | stepFailed name hstep htaken =>
      simp only [Node.evaluates?, (List.getElem?_eq_some_iff.1 hstep).1, if_true, Option.map_some]
      exact .taken hdrive hreads hnode hstep htaken

/-- The second agent comes from the first, as in `Reaches`, with the steps of patterns in the
log evaluated on the way, the latest first. -/
def Logs (start : Agent) (log : List Evaluation) (agent : Agent) : Prop :=
  ∃ record, Recorded evaluation? true start record agent ∧ record.reduceOption = log

variable {start agent : Agent} {log : List Evaluation}

/-- Only a step that evaluates the step of a pattern adds to the log. -/
theorem reduceOption_evaluation (evaluation : Option Evaluation)
    (record : List (Option Evaluation)) :
    (evaluation :: record).reduceOption = evaluation.toList ++ record.reduceOption := by
  cases evaluation with
  | none => rfl
  | some evaluation => rfl

/-- A step adds to the log the evaluation it makes, if it makes one. -/
theorem Logs.step (h : start.Logs log agent) (world : World ω ε) (w : ω) :
    start.Logs ((agent.evaluation? world w).toList ++ log) (agent.step world w).2.1 := by
  obtain ⟨record, hrecord, rfl⟩ := h
  exact ⟨_, .step world w hrecord, reduceOption_evaluation _ record⟩

theorem Logs.setClock (h : start.Logs log agent) (clock : Clock) :
    start.Logs log (agent.setClock clock) := by
  obtain ⟨record, hrecord, hlog⟩ := h
  exact ⟨record, .setClock clock hrecord, hlog⟩

/-- Every agent that can be reached from another has a log of the evaluations made on the way,
whatever resets and clocks there were between them. -/
theorem Reaches.exists_logs (h : start.Reaches agent) : ∃ log, start.Logs log agent := by
  obtain ⟨record, hrecord⟩ := h.exists_recorded evaluation?
  exact ⟨_, record, hrecord, rfl⟩

end Agent

/-! ### Runs -/

/-- The steps of patterns that a run evaluates, the latest first. -/
def Run.evaluations (world : World ω ε) (stopOnLost : Bool) :
    Nat → Agent → ω → List Evaluation
  | 0, _, _ => []
  | remaining + 1, agent, w =>
    let later := match agent.step world w with
      | (.error _, _, _) => []
      | (.ok outcome, after, w) =>
        match Run.stopAfter stopOnLost outcome with
        | some _ => []
        | none => Run.evaluations world stopOnLost remaining after w
    later ++ (agent.evaluation? world w).toList

namespace Agent

/-- The steps of patterns that a run of the agent evaluates, the latest first. -/
def evaluations (world : World ω ε) (config : Config) (agent : Agent) (w : ω) :
    List Evaluation :=
  match config.error? with
  | some _ => []
  | none =>
    Run.evaluations world config.stopOnLost config.maxSteps
      (agent.setClock (config.timer.clock agent.discipline)) w

variable {start agent : Agent} {log : List Evaluation}

/-- The steps of a run add their evaluations to the log, the latest first. -/
theorem Logs.proceed (world : World ω ε) (stopOnLost : Bool) {remaining : Nat}
    {tally : Run.Tally} {reports : List Report} {w : ω} (h : start.Logs log agent) :
    start.Logs (Run.evaluations world stopOnLost remaining agent w ++ log)
      (Run.proceed (Agent.step world) Agent.time stopOnLost remaining tally reports agent
        w).agent := by
  induction remaining generalizing tally reports agent log w with
  | zero => exact h
  | succ remaining ih =>
    have hstep := h.step world w
    rw [Run.proceed, Run.evaluations]
    rcases hresult : agent.step world w with ⟨result, after, w'⟩
    rw [hresult] at hstep
    cases result with
    | error e => exact hstep
    | ok outcome =>
      dsimp only
      cases Run.stopAfter stopOnLost outcome with
      | some stop => exact hstep
      | none =>
        dsimp only
        rw [List.append_assoc]
        exact ih hstep

theorem Logs.run (world : World ω ε) (config : Config) (w : ω) (h : start.Logs log agent) :
    start.Logs (agent.evaluations world config w ++ log) (agent.run world config w).agent := by
  rw [Agent.run, evaluations]
  cases config.error? with
  | some e => exact h
  | none => exact (h.setClock _).proceed world _

end Agent

/-! ## What the log tells of the state -/

/-- A fired pattern is where the evaluation of its step left it. -/
theorem Node.Fired.resumes {node node' : Node} {result : Except ε Move}
    (h : node.Fired result node') {earlier : List Evaluation}
    (hnode : ∀ name steps cursor, node = .pattern name steps cursor → Resumes earlier cursor)
    (position : Nat) (path : Path) :
    ∀ name steps cursor, node' = .pattern name steps cursor →
      Resumes ((node.evaluates?.map fun index =>
        (⟨position, path, index, !result.isOk⟩ : Evaluation)).toList ++ earlier) cursor := by
  intro name steps cursor hpattern
  -- The latest evaluation is the one just made: a pattern goes on behind it, or repeats it if it
  -- failed.
  cases h with
  | called | callFailed | entered => cases hpattern
  | done hnone => exact absurd hpattern (hnone name steps cursor)
  | restarted | handedOff =>
    cases hpattern
    exact .inl rfl
  | @advanced _ _ before hmore =>
    cases hpattern
    have hstep : before < steps.length := by omega
    right
    simp [evaluates?, hstep, Except.isOk, Except.toBool]
  | failed _ e =>
    subst hpattern
    by_cases hstep : cursor < steps.length
    · right
      simp [evaluates?, hstep, Except.isOk, Except.toBool]
    · simpa [evaluates?, hstep] using hnode name steps cursor rfl

namespace Agent

variable {agent : Agent} {log : List Evaluation} {world : World ω ε} {w : ω}

/-- What a step does to the drive elements, with the step of a pattern that it evaluates. -/
inductive Advances (agent : Agent) : Option Evaluation → List Drive → Prop
  | none : Advances agent none agent.levels.flatten
  | fired {position : Nat} {drive drive' : Drive} {node' : Node} {ε : Type}
      {result : Except ε Move} : agent.levels.flatten[position]? = some drive →
      drive.current? = some (drive.node agent.library) →
      (drive.node agent.library).Fired result node' →
      (∀ path found, drive'.instances.get? path = some found →
        path = drive.cursor ∧ found = node' ∨
          path ≠ drive.cursor ∧ (drive.instances.get? path = some found ∨ found.AtRest)) →
      Advances agent
        ((drive.node agent.library).evaluates?.map fun index =>
          ⟨position, drive.cursor, index, !result.isOk⟩)
        (agent.levels.flatten.set position drive')

/-- What a step does to the drive elements goes with the evaluation that the log has for it: the
pattern moves as the evaluation says. -/
theorem step_advances (hsound : ∀ drive ∈ agent.levels.flatten, drive.Sound agent.library)
    (world : World ω ε) (w : ω) :
    agent.Advances (agent.evaluation? world w) (agent.step world w).2.1.levels.flatten := by
  rw [evaluation?]
  cases hfired : agent.fired? world w with
  | none =>
    rw [(step_of_fired?_eq_none hfired).1]
    exact .none
  | some fired =>
    obtain ⟨position, drive, w₁⟩ := fired
    obtain ⟨hdrive, -, moved, node', w', hnode, -, hlevels, -⟩ := step_of_fired?_node hfired
    have hdriveSound := hsound drive (List.mem_of_getElem? hdrive)
    rw [hlevels]
    simp only [Option.bind_some, hnode]
    refine .fired hdrive hdriveSound.current?_eq (Node.fire_fired hnode) fun path found hfound => ?_
    rcases hdriveSound.get?_follow_cases hfound with hcursor | ⟨hpath, hold | ⟨ref, rfl⟩⟩
    · exact .inl hcursor
    · exact .inr ⟨hpath, .inl hold⟩
    · exact .inr ⟨hpath, .inr (agent.library.fresh_atRest ref)⟩

/-- The log tells of every pattern where it stands, and how it got there. -/
structure Accounts (log : List Evaluation) (agent : Agent) : Prop where
  /-- A pattern that is not at its first step is where its latest evaluation left it. -/
  state : ∀ (position : Nat) (drive : Drive), agent.levels.flatten[position]? = some drive →
    ∀ path name steps cursor, drive.instances.get? path = some (.pattern name steps cursor) →
      Resumes (log.filter (Evaluation.isOf position path)) cursor
  stretches : ∀ position path, Stretches (log.filter (Evaluation.isOf position path))

/-- The evaluation in a step of the agent goes to the log of the pattern at the cursor only. -/
theorem filter_isOf_fired {node : Node} {cursor path : Path} {position position' : Nat}
    {failed : Bool} :
    ((node.evaluates?.map fun index =>
        (⟨position, cursor, index, failed⟩ : Evaluation)).toList ++ log).filter
          (Evaluation.isOf position' path) =
      if position = position' ∧ cursor = path then
        (node.evaluates?.map fun index =>
          (⟨position, cursor, index, failed⟩ : Evaluation)).toList ++
            log.filter (Evaluation.isOf position' path)
      else log.filter (Evaluation.isOf position' path) := by
  cases node.evaluates? with
  | none => simp
  | some index =>
    by_cases hplace : position = position' ∧ cursor = path
    · simp [Evaluation.isOf, hplace]
    · simp [Evaluation.isOf, hplace]

/-- What a pattern evaluates when it is fired is the step that it is at. -/
theorem stretches_of_evaluates {node : Node} {earlier : List Evaluation}
    (hnode : ∀ name steps cursor, node = .pattern name steps cursor → Resumes earlier cursor)
    (h : Stretches earlier) (position : Nat) (path : Path) (failed : Bool) :
    Stretches ((node.evaluates?.map fun index =>
      (⟨position, path, index, failed⟩ : Evaluation)).toList ++ earlier) := by
  cases node with
  | action | competence => exact h
  | pattern name steps cursor =>
    by_cases hstep : cursor < steps.length
    · simp only [Node.evaluates?, hstep, if_true]
      exact ⟨hnode name steps cursor rfl, h⟩
    · simpa [Node.evaluates?, hstep] using h

/-- The step lemma of the accounts: adding the evaluation of a step to the log keeps it true of
every pattern. -/
theorem Accounts.advance (h : agent.Accounts log) {evaluation : Option Evaluation}
    {after : Agent} (hadvances : agent.Advances evaluation after.levels.flatten) :
    after.Accounts (evaluation.toList ++ log) := by
  generalize hdrives : after.levels.flatten = drives at hadvances
  cases hadvances with
  | none => exact ⟨hdrives ▸ h.state, h.stretches⟩
  | @fired position drive drive' node' _ result hdrive hcurrent hfired hfound =>
    have hnode : ∀ name steps cursor, drive.node agent.library = .pattern name steps cursor →
        Resumes (log.filter (Evaluation.isOf position drive.cursor)) cursor := by
      intro name steps cursor hpattern
      exact h.state position drive hdrive _ name steps cursor (hcurrent.trans (by rw [hpattern]))
    refine ⟨fun position' drive₁ hdrive₁ path name steps cursor hpattern => ?_,
      fun position' path => ?_⟩
    · rw [hdrives] at hdrive₁
      -- The log grows for the pattern at one path of one drive element.
      by_cases hposition : position = position'
      · subst hposition
        have hlength : position < agent.levels.flatten.length :=
          (List.getElem?_eq_some_iff.1 hdrive).1
        rw [List.getElem?_set_self hlength] at hdrive₁
        cases hdrive₁
        rcases hfound path _ hpattern with ⟨hpath, hnode'⟩ | ⟨hpath, hold | hrest⟩
        · subst hpath
          rw [filter_isOf_fired, if_pos ⟨rfl, rfl⟩]
          exact hfired.resumes hnode position drive.cursor name steps cursor hnode'.symm
        · rw [filter_isOf_fired, if_neg fun hplace => hpath hplace.2.symm]
          exact h.state position drive hdrive path name steps cursor hold
        · exact .inl hrest
      · rw [List.getElem?_set_ne hposition] at hdrive₁
        rw [filter_isOf_fired, if_neg fun hplace => hposition hplace.1]
        exact h.state position' drive₁ hdrive₁ path name steps cursor hpattern
    · rw [filter_isOf_fired]
      by_cases hplace : position = position' ∧ drive.cursor = path
      · rw [if_pos hplace]
        obtain ⟨rfl, rfl⟩ := hplace
        exact stretches_of_evaluates hnode (h.stretches _ _) position drive.cursor _
      · rw [if_neg hplace]
        exact h.stretches position' path

/-- A reset sets every pattern to its first step, and the log may go on from there. -/
theorem Accounts.reset (h : agent.Accounts log) : agent.reset.Accounts log := by
  refine ⟨fun position drive hdrive path name steps cursor hpattern => .inl ?_, h.stretches⟩
  rw [Agent.reset, ← List.map_flatten, List.getElem?_map] at hdrive
  obtain ⟨old, _, rfl⟩ := Option.map_eq_some_iff.1 hdrive
  rw [Drive.reset, Instances.get?_map] at hpattern
  obtain ⟨node, _, hnode⟩ := Option.map_eq_some_iff.1 hpattern
  have hrest := node.reset_atRest
  rw [hnode] at hrest
  exact hrest

/-- The run lemma of the accounts: the log of an agent that came from a built one tells of every
pattern where it stands. -/
theorem Logs.accounts {built : Agent} (hbuilt : built.AsBuilt) (h : built.Logs log agent) :
    agent.Accounts log := by
  obtain ⟨record, hrecord, rfl⟩ := h
  induction hrecord with
  | start =>
    refine ⟨fun position drive hdrive path name steps cursor hpattern => .inl ?_,
      fun _ _ => trivial⟩
    have hunused := List.forall_mem_flatten.2 hbuilt.unused drive (List.mem_of_getElem? hdrive)
    exact Drive.atRest_of_unused hunused hpattern
  | @step ω ε record agent world w hrecord ih =>
    have hkept := (hrecord.reaches .start).keptBy hbuilt
    have hsound : ∀ drive ∈ agent.levels.flatten, drive.Sound agent.library := by
      rw [hkept.library]
      exact List.forall_mem_flatten.2 hkept.sound
    rw [reduceOption_evaluation]
    exact ih.advance (step_advances hsound world w)
  | reset _ _ ih => exact ih.reset
  | setClock clock _ ih => exact ⟨ih.state, ih.stretches⟩
  | setDiscipline discipline _ ih => exact ⟨ih.state, ih.stretches⟩

end Agent

/-- In an agent that comes from a built one, all patterns but those at cursors are at their
first steps. Whatever was evaluated on the way, the evaluations of each pattern count up from
its first step, in stretches, and what is noted of a step is what it evaluates. -/
theorem patterns_run_in_stretches {registry : Registry} {plan : Plan} {built agent : Agent}
    (hbuild : plan.build registry = .ok built) (hreaches : built.Reaches agent) :
    (∀ level ∈ agent.levels, ∀ drive ∈ level, drive.Tidy) ∧
      (∃ log, built.Logs log agent) ∧
      (∀ log, built.Logs log agent →
        (∀ position path, Stretches (log.filter (Evaluation.isOf position path))) ∧
          ∀ {ω ε : Type} (world : World ω ε) (config : Config) (w : ω),
            built.Logs (agent.evaluations world config w ++ log)
              (agent.run world config w).agent) ∧
      ∀ {ω ε : Type} (world : World ω ε) (later : Agent) (w : ω),
        later.Evaluates world w (later.evaluation? world w) := by
  have hbuilt := build_asBuilt hbuild
  refine ⟨hreaches.tidy hbuilt, hreaches.exists_logs, fun log hlogs => ?_,
    Agent.evaluates_evaluation?⟩
  exact ⟨(hlogs.accounts hbuilt).stretches, fun world config w => hlogs.run world config w⟩

/-- A world in which every action succeeds and every sense reads one. -/
def calm : World Unit Empty where
  act := fun _ w => (.ok true, w)
  read := fun _ w => (.ok (.int 1), w)

/-- `patroller` after its first step, which took the first step of the patrol. -/
def patrolling : Agent := (patroller.step calm ()).2.1

theorem patterns_run_in_stretches_patrolling :
    patroller.Reaches patrolling ∧
      patroller.evaluation? calm () = some ⟨0, Drive.home, 0, false⟩ ∧
      (∀ level ∈ patrolling.levels, ∀ drive ∈ level, drive.Tidy) ∧
      (∃ log, patroller.Logs log patrolling) ∧
      (∀ log, patroller.Logs log patrolling →
        (∀ position path, Stretches (log.filter (Evaluation.isOf position path))) ∧
          ∀ {ω ε : Type} (world : World ω ε) (config : Config) (w : ω),
            patroller.Logs (patrolling.evaluations world config w ++ log)
              (patrolling.run world config w).agent) ∧
      ∀ {ω ε : Type} (world : World ω ε) (later : Agent) (w : ω),
        later.Evaluates world w (later.evaluation? world w) := by
  have hreaches : patroller.Reaches patrolling := .step calm () .start
  exact ⟨hreaches, rfl, patterns_run_in_stretches build_patrolPlan hreaches⟩

end SlipStack.Engine
