import SlipStack.Proofs.Engine.Built
import SlipStack.Proofs.Engine.Showing

/-!
# A machine keeps step with its agent

A machine shows an agent (`Machine.Shows`) if its heap is laid out and each of its drive
elements shows the one in the same place. Whatever is done to the agent can be done to the
machine, which shows the agent afterwards as well: a step (`Machine.Shows.step`), a reset
(`Machine.Shows.reset`), another clock or pace, or a run (`Machine.Shows.run`). Steps and runs
have the same results and leave the same world. So no step of the machine ends with a `Fault`,
and none of its resets does.
-/

namespace SlipStack.Engine

variable {ω ε : Type} {world : World ω ε} {library : Library Nat} {layout : Layout} {heap : Heap}

/-! ## Trying drive elements -/

namespace DriveCell.Shows

variable {driver : DriveCell} {drive : Drive} {now : Int}

/-- The interval is judged alike on both sides, as the last firing and the interval are the same.
-/
theorem tooEarly_eq (h : driver.Shows library layout heap drive) (now : Int) :
    driver.tooEarly now = drive.tooEarly now := by
  cases hinterval : drive.interval with
  | none => simp only [DriveCell.tooEarly, Drive.tooEarly, h.interval, hinterval]
  | some interval =>
    simp only [DriveCell.tooEarly, Drive.tooEarly, h.interval, hinterval, h.lastFired]

section Attempt

variable {w w' : ω}

/-- A drive element that shows one that is not ready is not ready. -/
theorem attempt_of_unready (h : driver.Shows library layout heap drive)
    (hready : drive.ready world now w = (.ok false, w')) :
    driver.attempt library world now (heap, w) = (.ok none, driver, heap, w') := by
  rw [Drive.ready_eq_false, ← h.trigger, ← h.tooEarly_eq] at hready
  rcases hready with hholds | ⟨hholds, hearly⟩
  · rw [DriveCell.attempt, hholds]
  · rw [DriveCell.attempt, hholds]
    simp only [hearly, if_true]

/-- Where reading the trigger fails, the attempt on the heap fails with the same error and changes
neither the heap nor the drive element. -/
theorem attempt_of_error (h : driver.Shows library layout heap drive) {e : ε}
    (hready : drive.ready world now w = (.error e, w')) :
    driver.attempt library world now (heap, w) = (.error (.raised e), driver, heap, w') := by
  rw [Drive.ready_eq_error, ← h.trigger] at hready
  rw [DriveCell.attempt, hready]

/-- A drive element that shows one that is ready is fired. -/
theorem attempt_of_ready (h : driver.Shows library layout heap drive) {w₁ : ω} {heap' : Heap}
    {driver' : DriveCell} {result : Except (Trouble ε) Unit}
    (hready : drive.ready world now w = (.ok true, w₁))
    (hfire : ({ driver with lastFired := now } : DriveCell).fire library world (heap, w₁) =
      (result, driver', heap', w')) :
    driver.attempt library world now (heap, w) = (result.map some, driver', heap', w') := by
  rw [Drive.ready_eq_true, ← h.trigger, ← h.tooEarly_eq] at hready
  rw [DriveCell.attempt, hready.1]
  simp only [hready.2, Bool.false_eq_true, if_false, hfire]
  cases result <;> rfl

end Attempt

/-- What is passed over as trees is passed over, and leaves the heap as it was. -/
theorem passed {drivers : List DriveCell} {drives : List Drive} {w w' : ω}
    (h : List.Forall₂ (DriveCell.Shows library layout heap) drivers drives)
    (hpassed : Passed (Drive.attempt library.named world now) drives w w') :
    Passed (DriveCell.attempt library world now) drivers (heap, w) (heap, w') := by
  induction h generalizing w with
  | nil =>
    cases hpassed
    exact .nil _
  | cons hshows _ ih =>
    cases hpassed with
    | cons hdrive hrest =>
      rw [Drive.attempt_eq_guarded] at hdrive
      exact .cons (hshows.attempt_of_unready (guarded_eq_none.1 hdrive).1) (ih hrest)

end DriveCell.Shows

/-! ## Levels -/

/-- The heap is laid out below the roots of the drive elements, each of which shows the one in
the same place. -/
structure ShowsLevels (library : Library Nat) (layout : Layout) (heap : Heap)
    (drivers : List (List DriveCell)) (levels : List (List Drive)) : Prop where
  laid : Laid library layout heap
  drives : List.Forall₂ (List.Forall₂ (DriveCell.Shows library layout heap)) drivers levels
  roots : (drivers.flatten.map (·.root)).Nodup
  owners : ∀ place ∈ layout, place.1 ∈ drivers.flatten.map (·.root)

/-- Each drive element has, in a layout that fits, its own root at the start of its own tree. -/
theorem ShowsLevels.root_of_mem {drivers : List (List DriveCell)} {levels : List (List Drive)}
    (h : ShowsLevels library layout heap drivers levels) {driver : DriveCell}
    (hmem : driver ∈ drivers.flatten) :
    layout[driver.root]? = some (driver.root, Drive.home) := by
  obtain ⟨drive, -, hshows⟩ := exists_of_mem_forall₂ (forall₂_flatten h.drives) hmem
  obtain ⟨_, _, hstands, -⟩ := hshows.root
  exact hstands.1

/-- One drive element was fired, and the others show what they showed. -/
theorem ShowsLevels.replace {layout' : Layout} {heap' : Heap}
    {drivers drivers' : List (List DriveCell)} {above below : List (List Drive)}
    {inFront behind : List DriveCell} {before after : List Drive} {driver driver' : DriveCell}
    {drive drive' : Drive}
    (h : ShowsLevels library layout heap (drivers ++ (inFront ++ driver :: behind) :: drivers')
      (above ++ (before ++ drive :: after) :: below))
    (habove : List.Forall₂ (List.Forall₂ (DriveCell.Shows library layout heap)) drivers above)
    (hbefore : List.Forall₂ (DriveCell.Shows library layout heap) inFront before)
    (hafter : List.Forall₂ (DriveCell.Shows library layout heap) behind after)
    (hbelow : List.Forall₂ (List.Forall₂ (DriveCell.Shows library layout heap)) drivers' below)
    (hfared : Fared library layout heap driver.root layout' heap' driver' drive') :
    ShowsLevels library layout' heap' (drivers ++ (inFront ++ driver' :: behind) :: drivers')
      (above ++ (before ++ drive' :: after) :: below) := by
  have hflatten : ∀ driver : DriveCell,
      (drivers ++ (inFront ++ driver :: behind) :: drivers').flatten.map (·.root) =
        (drivers.flatten ++ inFront).map (·.root) ++
          driver.root :: (behind ++ drivers'.flatten).map (·.root) := by
    intro driver
    simp
  have hroots := h.roots
  have howners := h.owners
  rw [hflatten] at hroots howners
  -- The root of the fired drive element is no other's.
  have hothers := (List.nodup_cons.1 (List.nodup_middle.1 hroots)).1
  rw [← List.map_append] at hothers
  have hshows : ∀ (other : DriveCell) (shown : Drive), other.root ≠ driver.root →
      other.Shows library layout heap shown → other.Shows library layout' heap' shown :=
    fun other shown hne hother => hother.congr (hfared.untouched _ hne)
  have hne : ∀ other ∈ drivers.flatten ++ inFront ++ (behind ++ drivers'.flatten),
      other.root ≠ driver.root := by
    intro other hmem heq
    exact hothers (List.mem_map.2 ⟨other, hmem, heq⟩)
  simp only [List.forall_mem_append, List.forall_mem_flatten] at hne
  obtain ⟨⟨hneAbove, hneBefore⟩, hneAfter, hneBelow⟩ := hne
  refine ⟨hfared.laid, ?_, ?_, ?_⟩
  · refine List.rel_append (levels_imp_of_forall habove hneAbove hshows)
      (.cons ?_ (levels_imp_of_forall hbelow hneBelow hshows))
    exact List.rel_append (forall₂_imp_of_forall hbefore hneBefore hshows)
      (.cons hfared.shown (forall₂_imp_of_forall hafter hneAfter hshows))
  · rwa [hflatten, hfared.root]
  · intro place hmem
    obtain ⟨new, rfl, hnew⟩ := hfared.grown
    rw [hflatten, hfared.root]
    rcases List.mem_append.1 hmem with hold | hmade
    · exact howners place hold
    · rw [hnew place hmade]
      simp

/-- Levels are evaluated where the ones that they show are. -/
theorem ShowsLevels.evaluate {drivers : List (List DriveCell)} {levels levels' : List (List Drive)}
    {goal : Trigger} {now : Int} {w w' : ω} {result : Except ε Outcome} (hlinked : library.Linked)
    (h : ShowsLevels library layout heap drivers levels)
    (hsettled : Settled library.named world goal now w levels result levels' w') :
    ∃ drivers' layout' heap',
      Machine.evaluate library world goal now drivers (heap, w) =
          (result.mapError .raised, drivers', heap', w') ∧
        ShowsLevels library layout' heap' drivers' levels' := by
  rw [Machine.evaluate]
  cases hsettled with
  | goalFailed hgoal =>
    rw [hgoal]
    exact ⟨drivers, layout, heap, rfl, h⟩
  | won hgoal =>
    rw [hgoal]
    exact ⟨drivers, layout, heap, rfl, h⟩
  | lost hgoal hpassed =>
    have hpassed' := DriveCell.Shows.passed (forall₂_flatten h.drives) hpassed
    rw [hgoal]
    dsimp only
    rw [hpassed'.firstReadyByLevel_eq]
    exact ⟨drivers, layout, heap, rfl, h⟩
  | @triggerFailed above below before after drive e w₁ w₂ _ hgoal hpassed hready =>
    obtain ⟨drivers, inFront, driver, behind, drivers', rfl, habove, hbefore, hdrive, hafter,
      hbelow⟩ := exists_split_of_levels h.drives
    have hpassed' :=
      DriveCell.Shows.passed (List.rel_append (forall₂_flatten habove) hbefore) hpassed
    have hattempt := hdrive.attempt_of_error hready
    rw [hgoal]
    dsimp only
    rw [hpassed'.firstReadyByLevel_decided hattempt (by simp)]
    exact ⟨_, layout, heap, rfl, h⟩
  | @fired above below before after drive moved node' w₁ w₂ w₃ _ hgoal hpassed hready hfire =>
    obtain ⟨drivers, inFront, driver, behind, drivers', rfl, habove, hbefore, hdrive, hafter,
      hbelow⟩ := exists_split_of_levels h.drives
    have hpassed' :=
      DriveCell.Shows.passed (List.rel_append (forall₂_flatten habove) hbefore) hpassed
    obtain ⟨driver', layout', heap', hfired, hfared⟩ :=
      hdrive.fire hlinked h.laid now hfire
    have hattempt := hdrive.attempt_of_ready hready hfired
    have hnone : ((moved.map fun _ => ()).mapError Trouble.raised).map some ≠ .ok none := by
      cases moved <;> simp [Except.map, Except.mapError]
    rw [hgoal]
    dsimp only
    rw [hpassed'.firstReadyByLevel_decided hattempt hnone]
    refine ⟨drivers ++ (inFront ++ driver' :: behind) :: drivers', layout', heap', ?_,
      h.replace habove hbefore hafter hbelow hfared⟩
    cases moved <;> rfl

/-! ## Resets -/

theorem Cell.read_restart (cell : Cell) :
    cell.restart.read library = (cell.read library).reset := by
  cases cell with
  | action | pattern => rfl
  | competence definition levels =>
    rw [restart, read, read, Node.reset, map_levels_map, map_levels_map]
    rfl

/-- The heap in which every cell is restarted holds the restarted cells in their places. -/
theorem stands_restart {root handle : Handle} {path : Path} {found : Cell} :
    Stands layout (heap.map Cell.restart) root path handle found ↔
      ∃ cell, Stands layout heap root path handle cell ∧ cell.restart = found := by
  simp only [Stands, List.getElem?_map, Option.map_eq_some_iff, and_assoc, exists_and_left]

/-- Resetting every cell of the heap comes to resetting every node of the tree; handles stay where
they are. -/
theorem DriveCell.Shows.reset {driver : DriveCell} {drive : Drive}
    (h : driver.Shows library layout heap drive) :
    driver.restart.Shows library layout (heap.map Cell.restart) drive.reset := by
  obtain ⟨cell, target, hroot, hserves, htarget⟩ := h.root
  have hhome : Stands layout (heap.map Cell.restart) driver.root Drive.home driver.root
      cell.restart := stands_restart.2 ⟨cell, hroot, rfl⟩
  refine ⟨h.name, h.trigger, h.interval, rfl,
    ⟨cell.restart, target, hhome, hserves.congr cell.vacant_restart, htarget⟩,
    ⟨cell.restart, hhome⟩, iff_of_true rfl rfl, fun path node => ?_⟩
  rw [Drive.reset, Instances.get?_map, Option.map_eq_some_iff]
  constructor
  · intro hnode
    obtain ⟨old, hold, rfl⟩ := hnode
    obtain ⟨handle, found, hfound, rfl⟩ := (h.nodes path old).1 hold
    exact ⟨handle, found.restart, stands_restart.2 ⟨found, hfound, rfl⟩, found.read_restart⟩
  · intro hnode
    obtain ⟨handle, restarted, hrestarted, rfl⟩ := hnode
    obtain ⟨found, hfound, rfl⟩ := stands_restart.1 hrestarted
    exact ⟨found.read library, h.nodes.get?_eq hfound, found.read_restart.symm⟩

/-! ## Machines -/

/-- The machine shows the agent. -/
structure Machine.Shows (layout : Layout) (machine : Machine) (agent : Agent) : Prop where
  name : machine.name = agent.name
  discipline : machine.discipline = agent.discipline
  docstring : machine.docstring = agent.docstring
  goal : machine.goal = agent.goal
  clock : machine.clock = agent.clock
  library : machine.library.named = agent.library
  linked : machine.library.Linked
  levels : ShowsLevels machine.library layout machine.heap machine.levels agent.levels

/-- The reasons why a run of an agent has no summary are reasons for a machine. -/
def RunError.raised : RunError ε → RunError (Trouble ε)
  | .config error => .config error
  | .capability error => .capability (.raised error)

/-- The run of a machine that ended as the run of an agent did. -/
def Run.through (run : Run ω ε Agent) (machine : Machine) : Run ω (Trouble ε) Machine :=
  ⟨run.reports, run.result.mapError RunError.raised, machine, run.world⟩

namespace Machine.Shows

variable {machine : Machine} {agent agent' : Agent}

/-- A step on the heap gives what the step of the agent gives, and the machine after it shows the
agent after it, in a layout that may have grown by a cell. -/
theorem step (h : machine.Shows layout agent) {w w' : ω} {result : Except ε Outcome}
    (hstep : agent.step world w = (result, agent', w')) :
    ∃ machine' layout', machine.step world w = (result.mapError .raised, machine', w') ∧
      machine'.Shows layout' agent' := by
  rw [Agent.step] at hstep
  rcases hevaluate : Engine.evaluate agent.library world agent.goal agent.clock.beginStep.time
    agent.levels w with ⟨evaluated, levels', w₁⟩
  have hsettled := evaluate_settled hevaluate
  rw [← h.library, ← h.goal, ← h.clock] at hsettled
  obtain ⟨drivers', layout', heap', hmachine, hlevels⟩ := h.levels.evaluate h.linked hsettled
  rw [hevaluate] at hstep
  rw [Machine.step, hmachine]
  cases evaluated with
  | error e =>
    cases hstep
    exact ⟨_, layout', rfl, h.name, h.discipline, h.docstring, h.goal,
      congrArg Clock.beginStep h.clock, h.library, h.linked, hlevels⟩
  | ok outcome =>
    cases hstep
    exact ⟨_, layout', rfl, h.name, h.discipline, h.docstring, h.goal,
      congrArg (·.beginStep.endStep) h.clock, h.library, h.linked, hlevels⟩

/-- A reset of the machine goes through, as every handle it follows leads to a cell, and comes to
the reset of the agent. -/
theorem reset (h : machine.Shows layout agent) :
    ∃ machine', machine.reset = .ok machine' ∧ machine'.Shows layout agent.reset := by
  have hroots : ∀ root ∈ machine.levels.flatten.map (·.root),
      layout[root]? = some (root, Drive.home) := by
    intro root hroot
    obtain ⟨driver, hmem, rfl⟩ := List.mem_map.1 hroot
    exact h.levels.root_of_mem hmem
  have hreset := h.levels.laid.resetRoots hroots h.levels.owners
  have hkept : ((machine.levels.map fun level => level.map DriveCell.restart).flatten.map
      (·.root)) = machine.levels.flatten.map (·.root) := by
    rw [← List.map_flatten, List.map_map]
    rfl
  refine ⟨_, bind_eq_ok.2 ⟨_, hreset, rfl⟩, h.name, h.discipline, h.docstring, h.goal,
    congrArg Clock.reset h.clock, h.library, h.linked, ?_, ?_, ?_, ?_⟩
  · exact h.levels.laid.congr (by rw [List.map_map]; exact List.map_congr_left fun cell _ =>
      cell.outline_restart)
  · rw [Agent.reset]
    simp only [List.forall₂_map_left_iff, List.forall₂_map_right_iff]
    exact h.levels.drives.imp fun _ _ hlevel => hlevel.imp fun _ _ hdrive => hdrive.reset
  · rw [hkept]
    exact h.levels.roots
  · rw [hkept]
    exact h.levels.owners

theorem setClock (h : machine.Shows layout agent) (clock : Clock) :
    (machine.setClock clock).Shows layout (agent.setClock clock) :=
  ⟨h.name, h.discipline, h.docstring, h.goal, rfl, h.library, h.linked, h.levels⟩

theorem setDiscipline (h : machine.Shows layout agent) (discipline : Discipline) :
    (machine.setDiscipline discipline).Shows layout (agent.setDiscipline discipline) :=
  ⟨h.name, rfl, h.docstring, h.goal, rfl, h.library, h.linked, h.levels⟩

/-- The loop of a run on the heap goes in lockstep with the loop on the trees: same reports, same
result, same world at the end. -/
theorem proceed (stopOnLost : Bool) {remaining : Nat} {tally : Run.Tally} {reports : List Report}
    (h : machine.Shows layout agent) (world : World ω ε) (w : ω) :
    ∃ machine' layout',
      Run.proceed (Machine.step world) Machine.time stopOnLost remaining tally reports machine w =
        (Run.proceed (Agent.step world) Agent.time stopOnLost remaining tally reports agent w
          ).through machine' ∧
      machine'.Shows layout'
        (Run.proceed (Agent.step world) Agent.time stopOnLost remaining tally reports agent w
          ).agent := by
  -- Agent, machine and layout change with each step, and the tally and the reports grow.
  induction remaining generalizing tally reports machine agent layout w with
  | zero => exact ⟨machine, layout, rfl, h⟩
  | succ remaining ih =>
    rcases hstep : agent.step world w with ⟨result, agent', w'⟩
    obtain ⟨machine', layout', hmachine, hshows⟩ := h.step hstep
    rw [Run.proceed, Run.proceed, hstep, hmachine]
    cases result with
    | error e => exact ⟨machine', layout', rfl, hshows⟩
    | ok outcome =>
      have htime : machine'.time = agent'.time := congrArg Clock.time hshows.clock
      dsimp only [Except.mapError]
      rw [htime]
      cases Run.stopAfter stopOnLost outcome with
      | some stop => exact ⟨machine', layout', rfl, hshows⟩
      | none => exact ih hshows w'

/-- A run of the machine gives what the run of the agent gives, and leaves a machine that shows
the agent it leaves. -/
theorem run (h : machine.Shows layout agent) (world : World ω ε) (config : Config) (w : ω) :
    ∃ machine' layout',
      machine.run world config w = (agent.run world config w).through machine' ∧
        machine'.Shows layout' (agent.run world config w).agent := by
  rw [Machine.run, Agent.run]
  cases config.error? with
  | some e => exact ⟨machine, layout, rfl, h⟩
  | none =>
    dsimp only
    rw [h.discipline]
    exact (h.setClock _).proceed _ world w

end Machine.Shows

end SlipStack.Engine
