import SlipStack.Proofs.Engine.Assembled
import SlipStack.Proofs.Engine.Reached

/-!
# Every instance in its place

In every machine that comes from the machine of a plan by steps, resets and changes of the clock
(`Machine.Reaches`), all that is in the heap is where it belongs (`Machine.Placed`). Each
instance is reached from one drive element by one path, and is of the definition that the slot
above it names. So nothing that a machine looks up can be missing, and what is entered is the
instance of the slot that is entered.

Such a machine and the agent that it shows agree in what can be observed (`Machine.Agrees`).
-/

namespace SlipStack.Engine

variable {library : Library Nat} {layout : Layout} {heap : Heap}

/-! ## Reached machines -/

/-- The second machine comes from the first by steps, in any world and any state of it, by resets
and by changes of the clock. -/
inductive Machine.Reaches (start : Machine) : Machine → Prop
  | start : Reaches start start
  | step {ω ε : Type} {machine : Machine} (world : World ω ε) (w : ω) :
      Reaches start machine → Reaches start (machine.step world w).2.1
  | reset {machine machine' : Machine} : Reaches start machine → machine.reset = .ok machine' →
      Reaches start machine'
  | setClock {machine : Machine} (clock : Clock) :
      Reaches start machine → Reaches start (machine.setClock clock)
  | setDiscipline {machine : Machine} (discipline : Discipline) :
      Reaches start machine → Reaches start (machine.setDiscipline discipline)

namespace Machine

variable {start machine : Machine} {built agent : Agent}

/-- A run of the machine is made of a new clock and of steps, so what it leaves can be reached
too. -/
theorem Reaches.run {ω ε : Type} (world : World ω ε) (config : Config) (w : ω)
    (h : start.Reaches machine) : start.Reaches (machine.run world config w).agent := by
  rw [Machine.run]
  split
  · exact h
  · exact Run.proceed_invariant (fun _ w hmachine => hmachine.step world w) (h.setClock _)

/-- A reached machine shows a reached agent. -/
theorem Reaches.exists_agent (hstart : start.Shows layout built) (h : start.Reaches machine) :
    ∃ agent layout', built.Reaches agent ∧ machine.Shows layout' agent := by
  -- The layout grows with the steps, so it is found anew in each case.
  induction h with
  | start => exact ⟨built, layout, .start, hstart⟩
  | step world w _ ih =>
    obtain ⟨agent, layout', hreaches, hshows⟩ := ih
    have hreached := hreaches.step world w
    rcases hstep : agent.step world w with ⟨result, agent', w'⟩
    rw [hstep] at hreached
    obtain ⟨machine', layout'', hmachine, hshows'⟩ := hshows.step hstep
    rw [hmachine]
    exact ⟨agent', layout'', hreached, hshows'⟩
  | reset _ hreset ih =>
    obtain ⟨agent, layout', hreaches, hshows⟩ := ih
    obtain ⟨machine', hok, hshows'⟩ := hshows.reset
    rw [hreset] at hok
    cases hok
    exact ⟨_, layout', hreaches.reset, hshows'⟩
  | setClock clock _ ih =>
    obtain ⟨agent, layout', hreaches, hshows⟩ := ih
    exact ⟨_, layout', hreaches.setClock clock, hshows.setClock clock⟩
  | setDiscipline discipline _ ih =>
    obtain ⟨agent, layout', hreaches, hshows⟩ := ih
    exact ⟨_, layout', hreaches.setDiscipline discipline, hshows.setDiscipline discipline⟩

/-- A reached agent is shown by a reached machine. -/
theorem exists_machine (hstart : start.Shows layout built) (h : built.Reaches agent) :
    ∃ machine layout', start.Reaches machine ∧ machine.Shows layout' agent := by
  induction h with
  | start => exact ⟨start, layout, .start, hstart⟩
  | @step ω ε agent world w _ ih =>
    obtain ⟨machine, layout', hreaches, hshows⟩ := ih
    have hreached := hreaches.step world w
    rcases hstep : agent.step world w with ⟨result, agent', w'⟩
    obtain ⟨machine', layout'', hmachine, hshows'⟩ := hshows.step hstep
    rw [hmachine] at hreached
    exact ⟨machine', layout'', hreached, hshows'⟩
  | reset _ ih =>
    obtain ⟨machine, layout', hreaches, hshows⟩ := ih
    obtain ⟨machine', hok, hshows'⟩ := hshows.reset
    exact ⟨machine', layout', hreaches.reset hok, hshows'⟩
  | setClock clock _ ih =>
    obtain ⟨machine, layout', hreaches, hshows⟩ := ih
    exact ⟨_, layout', hreaches.setClock clock, hshows.setClock clock⟩
  | setDiscipline discipline _ ih =>
    obtain ⟨machine, layout', hreaches, hshows⟩ := ih
    exact ⟨_, layout', hreaches.setDiscipline discipline, hshows.setDiscipline discipline⟩

end Machine

/-! ## Where a firing leads -/

/-- Where the cursor of a drive element is after its cell was fired with the given result: at the
same cell, at the root, or at the instance that a slot of the fired cell holds. That is an
instance of the definition of the slot, and is one site further on. -/
inductive DriveCell.Lands (library : Library Nat) (heap heap' : Heap) (driver : DriveCell)
    {ε : Type} : Except (Trouble ε) Jump → Prop
  | failed (e : ε) : Lands library heap heap' driver (.error (.raised e))
  | stayed : Lands library heap heap' driver (.ok .stay)
  | returned : Lands library heap heap' driver (.ok .home)
  | entered {path : Path} {cell below : Cell} {site : Site} {slot : Slot} {handle : Handle} :
      heap.Leads driver.root path driver.cursor → heap'[driver.cursor]? = some cell →
      cell.slot? site = some slot → slot.held = some handle → heap'[handle]? = some below →
      below.Serves library (.node slot.ref) → heap'.Leads driver.root (path ++ [site]) handle →
      Lands library heap heap' driver (.ok (.enter handle))

/-- A drive element can be fired, and lands at its own instances. -/
theorem DriveCell.Shows.lands {ω ε : Type} {driver : DriveCell} {drive : Drive}
    (hlinked : library.Linked) (hlaid : Laid library layout heap)
    (h : driver.Shows library layout heap drive) (world : World ω ε) (w : ω) :
    ∃ cell result cell' heap' w', heap[driver.cursor]? = some cell ∧
      cell.fire library world (heap, w) = (result, cell', heap', w') ∧
      driver.fire library world (heap, w) = (result.map fun _ => (),
        driver.follow (.ofResult result), heap'.set driver.cursor cell', w') ∧
      driver.Lands library heap (heap'.set driver.cursor cell') result := by
  obtain ⟨cell, hcursor⟩ := h.cursor
  obtain ⟨target, hserves⟩ := hlaid.serves hcursor.2
  obtain ⟨_, _, hroot, -⟩ := h.root
  rcases hnode : (drive.node library.named).fire world w with ⟨moved, node', w'⟩
  obtain ⟨driver', layout', heap₁, hfire, hfared⟩ := h.fire hlinked hlaid driver.lastFired hnode
  rw [h.node_eq hcursor] at hnode
  obtain ⟨result, cell', heap', hcell, hmatched⟩ := Cell.fire_matched hlinked hserves heap hnode
  have hfired := DriveCell.fire_eq hcursor.2 hcell driver.lastFired
  refine ⟨cell, result, cell', heap', w', hcursor.2, hcell, hfired, ?_⟩
  -- The firing was computed twice, as the drive element and as its cell; it is one firing.
  have hheap : heap₁ = heap'.set driver.cursor cell' :=
    congrArg (fun fired => fired.2.2.1) (hfire.symm.trans hfired)
  subst hheap
  cases hmatched.passage with
  | failed e => exact .failed e
  | stayed => exact .stayed
  | returned => exact .returned
  | @entered _ site slot slot' handle _ _ hentered hslots =>
    obtain ⟨hheld, hsame⟩ := hentered.held_eq
    have hslot' : cell'.slot? site = some slot' := by
      rw [hslots, if_pos rfl]
    obtain ⟨new, rfl, -⟩ := hfared.grown
    have hless := (List.getElem?_eq_some_iff.1 hcursor.1).1
    -- What was in the layout before keeps its place, so the paths to the cursor and on from there
    -- can be read in the new one.
    have hplace : (layout ++ new)[driver.cursor]? = some (driver.root, drive.cursor) := by
      rw [List.getElem?_append_left hless, hcursor.1]
    have hroot' : (layout ++ new)[driver.root]? = some (driver.root, Drive.home) := by
      rw [List.getElem?_append_left (List.getElem?_eq_some_iff.1 hroot.1).1, hroot.1]
    obtain ⟨found, hfound⟩ := hfared.laid.exists_stands hplace
    have hcell' : (heap'.set driver.cursor cell')[driver.cursor]? = some cell' := by
      have hset := hfound.2
      have hbound := (List.getElem?_eq_some_iff.1 hset).1
      rw [List.length_set] at hbound
      exact List.getElem?_set_self hbound
    obtain ⟨hbelow, below, hfoundBelow, hbelowServes⟩ :=
      hfared.laid.child hplace hcell' hslot' hheld
    exact .entered ((hlaid.leads_iff hroot.1).2 hcursor.1) hcell' hslot' hheld hfoundBelow
      hbelowServes ((hfared.laid.leads_iff hroot').2 hbelow)

/-! ## What is in its place -/

/-- The drive element has an instance of what the other one fires at its root. -/
def DriveCell.Rooted (library : Library Nat) (heap : Heap) (driver : DriveCell) (drive : Drive) :
    Prop :=
  ∃ cell target, heap[driver.root]? = some cell ∧ cell.Serves library target ∧
    target.named library = drive.target

/-- Everything in the heap of a machine that comes from the machine of the built agent is where it
belongs, and no use of the machine ends with a fault. -/
structure Machine.Placed (built : Agent) (machine : Machine) : Prop where
  /-- References in the library are in range, and a step names a competence in the last place
  only. -/
  linked : machine.library.Linked
  roots : List.Forall₂ (List.Forall₂ (DriveCell.Rooted machine.library machine.heap))
    machine.levels built.levels
  /-- Every instance is reached from exactly one drive element, by exactly one path. -/
  places : ∀ handle, handle < machine.heap.length → ∃! place : Nat × Path, ∃ driver,
    machine.levels.flatten[place.1]? = some driver ∧ machine.heap.Leads driver.root place.2 handle
  /-- A cursor that is not at its root is at a competence or pattern that is reached from there. -/
  cursors : ∀ driver ∈ machine.levels.flatten, ∀ handle, driver.current = some handle →
    ∃ path cell ref, machine.heap.Leads driver.root path handle ∧
      machine.heap[handle]? = some cell ∧ cell.Serves machine.library (.node ref) ∧
      ∀ capability, cell ≠ .action capability
  /-- A slot refers to a definition, and what it holds is an instance of that. -/
  slots : ∀ (handle : Handle) cell site slot, machine.heap[handle]? = some cell →
    cell.slot? site = some slot → machine.library.Has slot.ref ∧
      ∀ held, slot.held = some held → ∃ below, machine.heap[held]? = some below ∧
        below.Serves machine.library (.node slot.ref)
  /-- A pattern has a slot if and only if its last step names a competence, which is then what
  the slot refers to. No other step names one. -/
  handoffs : ∀ (handle : Handle) definition cursor handoff,
    machine.heap[handle]? = some (.pattern definition cursor handoff) →
      handoff.map (·.ref) = Step.trailing? definition.steps ∧
        ∀ position index, definition.steps[position]? = some (.competence index) →
          position + 1 = definition.steps.length
  /-- Every drive element can be fired, and lands at its own instances. -/
  fires : ∀ driver ∈ machine.levels.flatten, ∀ {ω ε : Type} (world : World ω ε) (w : ω),
    ∃ cell result cell' heap' w', machine.heap[driver.cursor]? = some cell ∧
      cell.fire machine.library world (machine.heap, w) = (result, cell', heap', w') ∧
      driver.fire machine.library world (machine.heap, w) = (result.map fun _ => (),
        driver.follow (.ofResult result), heap'.set driver.cursor cell', w') ∧
      driver.Lands machine.library machine.heap (heap'.set driver.cursor cell') result
  steps : ∀ {ω ε : Type} (world : World ω ε) (w : ω) (fault : Fault),
    (machine.step world w).1 ≠ .error (.fault fault)
  runs : ∀ {ω ε : Type} (world : World ω ε) (config : Config) (w : ω) (fault : Fault),
    (machine.run world config w).result ≠ .error (.capability (.fault fault))
  resets : ∃ machine', machine.reset = .ok machine'

/-- A machine that shows an agent never follows a handle that leads nowhere: an error of its step
is one that a capability raised. -/
theorem Machine.Shows.steps_ne_fault {machine : Machine} {agent : Agent}
    (h : machine.Shows layout agent) {ω ε : Type} (world : World ω ε) (w : ω) (fault : Fault) :
    (machine.step world w).1 ≠ .error (.fault fault) := by
  rcases hstep : agent.step world w with ⟨result, agent', w'⟩
  obtain ⟨machine', layout', hmachine, -⟩ := h.step hstep
  rw [hmachine]
  cases result <;> nofun

/-- Nor does a run of such a machine end in a fault of the heap, since each of its steps leaves a
machine that shows an agent. -/
theorem Machine.Shows.runs_ne_fault {machine : Machine} {agent : Agent}
    (h : machine.Shows layout agent) {ω ε : Type} (world : World ω ε) (config : Config) (w : ω)
    (fault : Fault) :
    (machine.run world config w).result ≠ .error (.capability (.fault fault)) := by
  obtain ⟨machine', layout', hrun, -⟩ := h.run world config w
  rw [hrun, Run.through]
  cases (agent.run world config w).result with
  | ok summary => nofun
  | error error => cases error <;> nofun

namespace ShowsLevels

variable {drivers : List (List DriveCell)} {levels : List (List Drive)}

/-- Every instance is reached from exactly one drive element, by exactly one path. -/
theorem existsUnique_place (h : ShowsLevels library layout heap drivers levels) {handle : Handle}
    (hless : handle < heap.length) : ∃! place : Nat × Path, ∃ driver,
      drivers.flatten[place.1]? = some driver ∧ heap.Leads driver.root place.2 handle := by
  obtain ⟨⟨root, path⟩, hplace⟩ : ∃ place, layout[handle]? = some place :=
    ⟨_, List.getElem?_eq_getElem (h.laid.length ▸ hless)⟩
  obtain ⟨driver, hmem, hroot⟩ :=
    List.mem_map.1 (h.owners _ (List.mem_of_getElem? hplace))
  obtain ⟨position, hposition⟩ := List.getElem?_of_mem hmem
  refine ⟨(position, path), ⟨driver, hposition, ?_⟩, ?_⟩
  · rw [h.laid.leads_iff (h.root_of_mem hmem), hplace, hroot]
  · intro place hother
    obtain ⟨other, hother, hleads⟩ := hother
    have hmem' := List.mem_of_getElem? hother
    rw [h.laid.leads_iff (h.root_of_mem hmem'), hplace, Option.some_inj, Prod.mk.injEq] at hleads
    have hroots : (drivers.flatten.map (·.root))[place.1]? =
        (drivers.flatten.map (·.root))[position]? := by
      rw [List.getElem?_map, List.getElem?_map, hother, hposition, Option.map_some,
        Option.map_some, hroot, hleads.1]
    have hbound : place.1 < (drivers.flatten.map (·.root)).length := by
      rw [List.length_map]
      exact (List.getElem?_eq_some_iff.1 hother).1
    exact Prod.ext ((List.getElem?_inj hbound h.roots).1 hroots) hleads.2.symm

/-- A cursor that is away from its root is at something that was entered. -/
theorem exists_current (h : ShowsLevels library layout heap drivers levels) {driver : DriveCell}
    (hmem : driver ∈ drivers.flatten) {handle : Handle} (hcurrent : driver.current = some handle) :
    ∃ path cell ref, heap.Leads driver.root path handle ∧ heap[handle]? = some cell ∧
      cell.Serves library (.node ref) := by
  obtain ⟨drive, -, hshows⟩ := exists_of_mem_forall₂ (forall₂_flatten h.drives) hmem
  obtain ⟨cell, hcursor⟩ := hshows.cursor
  have hhandle : driver.cursor = handle := by
    rw [DriveCell.cursor, hcurrent, Option.getD_some]
  have haway : drive.cursor ≠ Drive.home := by
    intro hhome
    rw [hshows.away.2 hhome] at hcurrent
    cases hcurrent
  rw [hhandle] at hcursor
  rcases h.laid.parent hcursor.1 with hroot |
    ⟨holder, front, above, site, slot, -, -, habove, hfound, hslot, hheld⟩
  · exact absurd hroot.1 haway
  · obtain ⟨-, below, hbelow, hserves⟩ := h.laid.child habove hfound hslot hheld
    exact ⟨drive.cursor, below, slot.ref,
      (h.laid.leads_iff (h.root_of_mem hmem)).2 hcursor.1, hbelow, hserves⟩

end ShowsLevels

/-- In a machine that shows an agent every instance lies at the one path of one drive element, and
no handle leads out of the heap. The layout tells where. -/
theorem Machine.Shows.placed {built agent : Agent} {machine : Machine} (hkept : built.KeptBy agent)
    (h : machine.Shows layout agent) : machine.Placed built := by
  have hlaid := h.levels.laid
  refine ⟨h.linked, ?_, fun handle => h.levels.existsUnique_place, ?_, ?_, ?_, ?_,
    h.steps_ne_fault, h.runs_ne_fault, ?_⟩
  · rw [← hkept.unused]
    simp only [List.forall₂_map_right_iff]
    refine h.levels.drives.imp fun _ _ hlevel => hlevel.imp fun driver drive hdrive => ?_
    obtain ⟨cell, target, hstands, hserves⟩ := hdrive.root
    exact ⟨cell, target, hstands.2, hserves⟩
  · intro driver hmem handle hcurrent
    obtain ⟨path, cell, ref, hleads, hcell, hserves⟩ := h.levels.exists_current hmem hcurrent
    exact ⟨path, cell, ref, hleads, hcell, hserves, hserves.ne_action⟩
  · intro handle cell site slot hcell hslot
    obtain ⟨target, hserves⟩ := hlaid.serves hcell
    refine ⟨hserves.has_of_slot? h.linked hslot, fun held hheld => ?_⟩
    obtain ⟨⟨owner, path⟩, hplace⟩ : ∃ place, layout[handle]? = some place :=
      ⟨_, List.getElem?_eq_getElem (hlaid.length ▸ (List.getElem?_eq_some_iff.1 hcell).1)⟩
    exact (hlaid.child hplace hcell hslot hheld).2
  · intro handle definition cursor handoff hcell
    obtain ⟨target, hserves⟩ := hlaid.serves hcell
    obtain ⟨hmem, hrefs⟩ := hserves.of_pattern
    exact ⟨hrefs, h.linked.last definition hmem⟩
  · intro driver hmem ω ε world w
    obtain ⟨drive, -, hshows⟩ := exists_of_mem_forall₂ (forall₂_flatten h.levels.drives) hmem
    exact hshows.lands h.linked hlaid world w
  · obtain ⟨machine', hreset, -⟩ := h.reset
    exact ⟨machine', hreset⟩

/-! ## What can be observed -/

/-- The drive element over the heap and the one with a tree are in the same state. -/
structure DriveCell.Depicts (library : Library Nat) (heap : Heap) (driver : DriveCell)
    (drive : Drive) : Prop where
  name : driver.name = drive.name
  trigger : driver.trigger = drive.trigger
  interval : driver.interval = drive.interval
  lastFired : driver.lastFired = drive.lastFired
  cursor : heap.Leads driver.root drive.cursor driver.cursor
  /-- What is stored at a path is what the path leads to. -/
  nodes : ∀ path node, drive.instances.get? path = some node ↔
    ∃ handle cell, heap.Leads driver.root path handle ∧ heap[handle]? = some cell ∧
      cell.read library = node

/-- The machine and the agent are in the same state, and do the same from there. -/
structure Machine.Agrees (machine : Machine) (agent : Agent) : Prop where
  name : machine.name = agent.name
  discipline : machine.discipline = agent.discipline
  docstring : machine.docstring = agent.docstring
  goal : machine.goal = agent.goal
  clock : machine.clock = agent.clock
  library : machine.library.named = agent.library
  drives : List.Forall₂ (List.Forall₂ (DriveCell.Depicts machine.library machine.heap))
    machine.levels agent.levels
  step : ∀ {ω ε : Type} (world : World ω ε) (w : ω),
    (machine.step world w).1 = (agent.step world w).1.mapError .raised ∧
      (machine.step world w).2.2 = (agent.step world w).2.2
  run : ∀ {ω ε : Type} (world : World ω ε) (config : Config) (w : ω),
    (machine.run world config w).reports = (agent.run world config w).reports ∧
      (machine.run world config w).result =
        (agent.run world config w).result.mapError RunError.raised ∧
      (machine.run world config w).world = (agent.run world config w).world

/-- A drive element that shows another is in the same state, which can be said without the layout:
paths are followed through the slots. -/
theorem DriveCell.Shows.depicts {driver : DriveCell} {drive : Drive}
    (hlaid : Laid library layout heap) (h : driver.Shows library layout heap drive) :
    driver.Depicts library heap drive := by
  obtain ⟨_, _, hroot, -⟩ := h.root
  obtain ⟨_, hcursor⟩ := h.cursor
  refine ⟨h.name, h.trigger, h.interval, h.lastFired, (hlaid.leads_iff hroot.1).2 hcursor.1, ?_⟩
  intro path node
  rw [h.nodes path node]
  refine exists_congr fun handle => exists_congr fun cell => ?_
  rw [hlaid.leads_iff hroot.1, Stands, and_assoc]

/-- A machine that shows an agent agrees with it, now and whatever is done to both. -/
theorem Machine.Shows.agrees {agent : Agent} {machine : Machine}
    (h : machine.Shows layout agent) : machine.Agrees agent := by
  refine ⟨h.name, h.discipline, h.docstring, h.goal, h.clock, h.library, ?_, ?_, ?_⟩
  · exact h.levels.drives.imp fun _ _ hlevel =>
      hlevel.imp fun _ _ hdrive => hdrive.depicts h.levels.laid
  · intro ω ε world w
    rcases hstep : agent.step world w with ⟨result, agent', w'⟩
    obtain ⟨machine', layout', hmachine, -⟩ := h.step hstep
    rw [hmachine]
    exact ⟨rfl, rfl⟩
  · intro ω ε world config w
    obtain ⟨machine', layout', hrun, -⟩ := h.run world config w
    rw [hrun]
    exact ⟨rfl, rfl, rfl⟩

end SlipStack.Engine
