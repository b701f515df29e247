import Mathlib.Data.List.Induction
import Mathlib.Data.Prod.Basic
import SlipStack.Proofs.Engine.Closed
import SlipStack.Proofs.Engine.Entries
import SlipStack.Proofs.Engine.OneStep
import SlipStack.Proofs.Engine.Placed
import SlipStack.Proofs.Engine.Reset

/-!
# Everything stays in its place

Each drive element of an agent has a tree of nodes, made as they are entered, and a cursor
in it. In every agent that can be reached from a built one all of this is in order
(`Agent.Intact`). Each stored node has one drive element and one path in it, and was entered
from the root of that drive element by the sites on the path (`Drive.Entered`); it has the
shape of the definition that the last site names (`Node.Instantiates`). The cursor is at such
a node, and firing it leads to the same node, to the root, or to a node at one of its sites.

That a node has one path is built into the trees. It is not built into the heap of a machine,
where slots and cursors hold handles and any two of them could hold the same one. There it
is proved (`Machine.Placed`), for all machines that come from that of the plan, and each of
them agrees with one of the agents (`reached_intact`).
-/

namespace SlipStack.Engine

/-! ## The shape of a node -/

/-- The node has the shape of the definition that the reference names. -/
inductive Node.Instantiates (library : Library) : NodeRef → Node → Prop
  | competence {name : String} {definition : Competence} {levels : List (List ElementState)} :
      library.competence? name = some definition →
      levels.map (fun level => level.map (·.element)) = definition.levels →
      Instantiates library (.competence name)
        (.competence definition.name definition.goal levels)
  | pattern {name : String} {definition : Pattern} (cursor : Nat) :
      library.pattern? name = some definition →
      Instantiates library (.pattern name) (.pattern definition.name definition.steps cursor)

/-- The node is an action that is the target, or a use of the definition that is. -/
inductive Node.Serves (library : Library) : Target → Node → Prop
  | action (capability : Capability) : Serves library (.action capability) (.action capability)
  | node {ref : NodeRef} {node : Node} : node.Instantiates library ref →
      Serves library (.node ref) node

section Shape

variable {library : Library} {node : Node} {ref : NodeRef}

/-- What resets to a new node for a reference has the shape of its definition. -/
theorem Node.instantiates_of_reset (hdefines : library.defines ref)
    (h : node.reset = library.fresh ref) : node.Instantiates library ref := by
  cases ref with
  | competence name =>
    obtain ⟨definition, hfound⟩ := Option.isSome_iff_exists.1 hdefines
    rw [Library.fresh, hfound, Option.getD_some, Competence.fresh] at h
    cases node with
    | action | pattern => cases h
    | competence name goal levels =>
      rw [Node.reset, Node.competence.injEq] at h
      obtain ⟨rfl, rfl, hlevels⟩ := h
      refine .competence hfound ?_
      have helements := congrArg (List.map fun level => level.map (·.element)) hlevels
      rw [map_levels_map, map_levels_map] at helements
      simpa [Function.comp_def, ElementState.reset, ElementState.fresh] using helements
  | pattern name =>
    obtain ⟨definition, hfound⟩ := Option.isSome_iff_exists.1 hdefines
    rw [Library.fresh, hfound, Option.getD_some, Pattern.fresh] at h
    cases node with
    | action | competence => cases h
    | pattern name steps cursor =>
      rw [Node.reset, Node.pattern.injEq] at h
      obtain ⟨rfl, rfl, -⟩ := h
      exact .pattern cursor hfound

namespace Node.Instantiates

/-- A node refers to definitions only. -/
theorem defines_of_site (hclosed : library.Closed) (h : node.Instantiates library ref)
    {site : Site} {next : NodeRef} (hsite : node.site? site = some next) :
    library.defines next := by
  -- Only elements and the last step of a pattern have sites, and both stand in the definition.
  cases h with
  | @competence name definition levels hfound hlevels =>
    have hmem := List.mem_of_find?_eq_some hfound
    cases site with
    | root | handoff => cases hsite
    | element position =>
      obtain ⟨state, hstate, htarget⟩ := Option.bind_eq_some_iff.1 hsite
      have helement : state.element ∈ definition.levels.flatten := by
        rw [← hlevels, ← List.map_flatten]
        exact List.mem_map_of_mem (List.mem_of_getElem? hstate)
      cases hnode : state.element.target with
      | action => simp [hnode, Target.ref?] at htarget
      | node ref =>
        obtain rfl : ref = next := by simpa [hnode, Target.ref?] using htarget
        exact hclosed.elements definition hmem state.element helement ref hnode
  | @pattern name definition cursor hfound =>
    have hmem := List.mem_of_find?_eq_some hfound
    cases site with
    | root | element => cases hsite
    | handoff =>
      rw [site?, Step.trailing?] at hsite
      split at hsite
      · rename_i name hlast
        cases hsite
        exact hclosed.steps definition hmem name (List.mem_of_getLast? hlast)
      · cases hsite

/-- A pattern refers to a competence in its last step only. -/
theorem competenceLast (hclosed : library.Closed) (h : node.Instantiates library ref) :
    node.CompetenceLast := by
  cases h with
  | competence => trivial
  | pattern cursor hfound => exact hclosed.last _ (List.mem_of_find?_eq_some hfound)

end Node.Instantiates

namespace Node.Serves

variable {target : Target}

theorem instantiates_of_site (h : node.Serves library target) {site : Site}
    (hsite : node.site? site = some ref) : ∃ definition, node.Instantiates library definition := by
  cases h with
  | action => cases hsite
  | node hinstantiates => exact ⟨_, hinstantiates⟩

theorem competenceLast (hclosed : library.Closed) (h : node.Serves library target) :
    node.CompetenceLast := by
  cases h with
  | action => trivial
  | node hinstantiates => exact hinstantiates.competenceLast hclosed

end Node.Serves

/-- The hand-off of a pattern is to the competence that is its last step, if any. -/
theorem Node.site?_handoff {name : String} {steps : List Step} {cursor : Nat} :
    (Node.pattern name steps cursor).site? .handoff = some ref ↔
      ∃ next, steps.getLast? = some (.competence next) ∧ ref = .competence next := by
  rw [site?, Step.trailing?]
  split
  · rename_i next hlast
    simp [hlast, eq_comm]
  · rename_i hlast
    simpa using fun next hnext => absurd hnext (hlast next)

end Shape

/-! ## Entered nodes -/

/-- The node at the path was entered from the root of the drive element, by sites of nodes that
were entered, and has the shape of what the last site names. -/
inductive Drive.Entered (library : Library) (drive : Drive) : Path → Node → Prop
  | root {node : Node} : drive.instances.get? Drive.home = some node →
      node.Serves library drive.target → Entered library drive Drive.home node
  | site {path : Path} {node node' : Node} {site : Site} {ref : NodeRef} :
      Entered library drive path node → node.site? site = some ref →
      drive.instances.get? (path ++ [site]) = some node' → node'.Instantiates library ref →
      Entered library drive (path ++ [site]) node'

namespace Drive

variable {library : Library} {drive drive' : Drive} {path : Path} {node : Node}

namespace Entered

/-- Below the root there are no actions. -/
theorem exists_instantiates (h : drive.Entered library path node) (hpath : path ≠ home) :
    ∃ ref, node.Instantiates library ref := by
  cases h with
  | root => exact absurd rfl hpath
  | site _ _ _ hinstantiates => exact ⟨_, hinstantiates⟩

theorem instantiates_of_site (h : drive.Entered library path node) {site : Site} {next : NodeRef}
    (hsite : node.site? site = some next) : ∃ ref, node.Instantiates library ref := by
  cases h with
  | root _ hserves => exact hserves.instantiates_of_site hsite
  | site _ _ _ hinstantiates => exact ⟨_, hinstantiates⟩

theorem defines_of_site (hclosed : library.Closed) (h : drive.Entered library path node)
    {site : Site} {next : NodeRef} (hsite : node.site? site = some next) :
    library.defines next := by
  obtain ⟨ref, hinstantiates⟩ := h.instantiates_of_site hsite
  exact hinstantiates.defines_of_site hclosed hsite

theorem competenceLast (hclosed : library.Closed) (h : drive.Entered library path node) :
    node.CompetenceLast := by
  cases h with
  | root _ hserves => exact hserves.competenceLast hclosed
  | site _ _ _ hinstantiates => exact hinstantiates.competenceLast hclosed

end Entered

namespace Sound

/-- Every node of a sound drive element was entered. -/
theorem entered (hclosed : library.Closed)
    (htarget : ∀ ref, drive.target = .node ref → library.defines ref)
    (h : drive.Sound library) (hnode : drive.instances.get? path = some node) :
    drive.Entered library path node := by
  -- From the root down: what is above a node was entered before it.
  induction path using List.reverseRecOn generalizing node with
  | nil => simp at hnode
  | append_singleton path site ih =>
    have huses := h.uses hnode
    by_cases hpath : path = []
    · subst hpath
      cases site with
      | element | handoff => cases huses
      | root =>
        refine .root hnode ?_
        have hreset : node.reset = library.freshTarget drive.target :=
          (Option.some.inj huses).symm
        cases hcase : drive.target with
        | action capability =>
          rw [hcase, Library.freshTarget] at hreset
          cases node with
          | action =>
            cases hreset
            exact .action capability
          | competence | pattern => cases hreset
        | node ref =>
          rw [hcase, Library.freshTarget] at hreset
          exact .node (Node.instantiates_of_reset (htarget ref hcase) hreset)
    · have hup := Instances.isSome_get?_up hpath (Option.isSome_of_eq_some hnode)
      obtain ⟨parent, hparent⟩ := Option.isSome_iff_exists.1 hup
      rw [Library.unused?_append hpath, h.uses hparent, Option.bind_some, Library.next?,
        Node.site?_reset] at huses
      obtain ⟨ref, hsite, hfresh⟩ := Option.map_eq_some_iff.1 huses
      have hentered := ih hparent
      exact .site hentered hsite hnode
        (Node.instantiates_of_reset (hentered.defines_of_site hclosed hsite) hfresh.symm)

variable {ω ε : Type} {world : World ω ε} {w w' : ω}

/-- A firing that does not fail finds the node at the cursor and goes where that node leads. -/
theorem follows_of_fire (hlast : library.CompetencesLast) (h : drive.Sound library)
    (hfire : drive.fire library world w = (.ok (), drive', w')) :
    ∃ node node' move, drive.current? = some node ∧
      node.fire world w = (.ok move, node', w') ∧ Follows library node drive drive' move := by
  have heq := drive.fire_eq library world drive.lastFired w
  rcases hnode : (drive.node library).fire world w with ⟨result, node, w₁⟩
  rw [hnode] at heq
  cases result with
  | error e => cases heq.symm.trans hfire
  | ok move =>
    cases heq.symm.trans hfire
    exact ⟨_, node, move, h.current?_eq, hnode, h.follows hlast (Node.fire_fired hnode)⟩

end Sound

/-- All nodes of the drive element are in place, and so are its cursor and all that its next
firing can come to. -/
structure Intact (library : Library) (drive : Drive) : Prop where
  target : ∀ ref, drive.target = .node ref → library.defines ref
  entered : ∀ path node, drive.instances.get? path = some node → drive.Entered library path node
  references : ∀ path node, drive.instances.get? path = some node →
    ∀ site ref, node.site? site = some ref → library.defines ref
  /-- A pattern names a competence in its last step only, and hands off to it. -/
  handoff : ∀ path name steps cursor,
    drive.instances.get? path = some (.pattern name steps cursor) →
      (∀ position next, steps[position]? = some (.competence next) →
        position + 1 = steps.length) ∧
      ∀ ref, (Node.pattern name steps cursor).site? .handoff = some ref ↔
        ∃ next, steps.getLast? = some (.competence next) ∧ ref = .competence next
  /-- The cursor is at the root, or at a competence or pattern. -/
  cursor : ∃ node, drive.current? = some node ∧ drive.Entered library drive.cursor node ∧
    (drive.cursor ≠ home → ∃ ref, node.Instantiates library ref)
  /-- A firing that does not fail stays at its node, or goes to the root or to a site of its
  node. -/
  fires : ∀ {ω ε : Type} (world : World ω ε) (w w' : ω) (drive' : Drive),
    drive.fire library world w = (.ok (), drive', w') →
      ∃ node node' move, drive.current? = some node ∧
        node.fire world w = (.ok move, node', w') ∧ Follows library node drive drive' move

/-- A sound drive element over a closed library is intact: all its nodes are made from the library
and serve the references that led to them. -/
theorem Sound.intact (hclosed : library.Closed)
    (htarget : ∀ ref, drive.target = .node ref → library.defines ref)
    (h : drive.Sound library) : drive.Intact library := by
  have hentered : ∀ path node, drive.instances.get? path = some node →
      drive.Entered library path node := fun path node => h.entered hclosed htarget
  refine ⟨htarget, hentered, ?_, ?_, ?_, fun world w w' drive' => h.follows_of_fire hclosed.last⟩
  · intro path node hnode site ref
    exact (hentered path node hnode).defines_of_site hclosed
  · intro path name steps cursor hnode
    exact ⟨(hentered path _ hnode).competenceLast hclosed, fun ref => Node.site?_handoff⟩
  · have hcursor := hentered drive.cursor _ h.current?_eq
    exact ⟨_, h.current?_eq, hcursor, hcursor.exists_instantiates⟩

/-! ## Nodes apart -/

theorem distinct_of_unused (h : drive.unused library = drive) : drive.instances.Distinct := by
  have hempty : Instances.empty.Distinct := trivial
  rw [← h]
  exact hempty.set _ _

/-- An attempt on a drive element keeps the paths of its nodes distinct, whether it is passed
over, fails or fires. -/
theorem Tried.distinct {ε : Type} {now : Int} {result : Except ε (Option Unit)}
    (htried : drive.Tried library now result drive') (h : drive.instances.Distinct) :
    drive'.instances.Distinct := by
  cases htried with
  | unready | triggerFailed => exact h
  | fireFailed => exact h.set _ _
  | @fired move node' _ _ =>
    have hstored := h.set drive.cursor node'
    cases move with
    | stay | home => exact hstored
    | enter site ref => exact hstored.enter _ _

end Drive

namespace Agent

variable {built agent : Agent}

/-- All nodes that an agent has stored, each with the position of its drive element, counted
through all levels, and its path there. -/
def instances (agent : Agent) : List ((Nat × Path) × Node) :=
  agent.levels.flatten.zipIdx.flatMap fun (drive, position) =>
    drive.instances.entries.map fun (path, node) => ((position, path), node)

/-- A node is among those of the agent exactly if the drive element at its position has it at its
path. -/
theorem mem_instances {position : Nat} {path : Path} {node : Node} :
    ((position, path), node) ∈ agent.instances ↔
      ∃ drive, agent.levels.flatten[position]? = some drive ∧
        (path, node) ∈ drive.instances.entries := by
  simp only [instances, List.mem_flatMap, List.mem_map, Prod.exists, Prod.mk.injEq,
    List.mem_zipIdx_iff_getElem?]
  constructor
  · rintro ⟨drive, _, hdrive, _, _, hmem, ⟨rfl, rfl⟩, rfl⟩
    exact ⟨drive, hdrive, hmem⟩
  · rintro ⟨drive, hdrive, hmem⟩
    exact ⟨drive, position, hdrive, path, node, hmem, ⟨rfl, rfl⟩, rfl⟩

/-- If the paths within each drive element are distinct, so are the places of all nodes of the
agent, which begin with the position of the element. -/
theorem nodup_instances
    (h : ∀ drive ∈ agent.levels.flatten, drive.instances.Distinct) :
    (agent.instances.map Prod.fst).Nodup := by
  have hpositions : (agent.levels.flatten.zipIdx.map Prod.snd).Nodup := by
    rw [List.zipIdx_map_snd]
    exact List.nodup_range'
  rw [instances, List.map_flatMap, List.nodup_flatMap]
  constructor
  · rintro ⟨drive, position⟩ hmem
    have hpaths := (h drive (List.fst_mem_of_mem_zipIdx hmem)).nodup_paths
    simpa [Function.comp_def] using hpaths.map (Prod.mk_right_injective position)
  · refine (List.pairwise_map.1 hpositions).imp fun {first second} hne => ?_
    intro key hfirst hsecond
    simp only [List.map_map, List.mem_map] at hfirst hsecond
    obtain ⟨entry, _, rfl⟩ := hfirst
    obtain ⟨entry', _, heq⟩ := hsecond
    exact hne (congrArg Prod.fst heq).symm

/-- Everything that the agent has stored is in place. -/
structure Intact (agent : Agent) : Prop where
  library : agent.library.Closed
  drives : ∀ level ∈ agent.levels, ∀ drive ∈ level, drive.Intact agent.library
  /-- No two nodes have the same drive element and path. -/
  apart : (agent.instances.map Prod.fst).Nodup
  /-- A node is what is found at its path in its drive element. -/
  found : ∀ position path node, ((position, path), node) ∈ agent.instances ↔
    ∃ drive, agent.levels.flatten[position]? = some drive ∧
      drive.instances.get? path = some node

/-- The invariant over all reachable agents, from soundness and from the fact that no reference in
a built agent leads nowhere. -/
theorem Reaches.intact (hbuilt : built.AsBuilt) (hclosed : built.Closed)
    (h : built.Reaches agent) : agent.Intact := by
  have hkept := h.keptBy hbuilt
  -- Targets never change; that paths are distinct is kept by each attempt.
  have htargets : ∀ level ∈ agent.levels, ∀ drive ∈ level,
      ∀ ref, drive.target = .node ref → built.library.defines ref := by
    refine h.forall_drives hbuilt hclosed.targets ?_ (fun drive _ hdrive => hdrive)
    intro ε now drive drive' result _ htried hdrive
    have htarget := (Drive.of_unused_eq htried.unused_eq).2.1
    rwa [htarget]
  have hdistinct : ∀ level ∈ agent.levels, ∀ drive ∈ level, drive.instances.Distinct :=
    h.forall_drives hbuilt
      (fun level hlevel drive hdrive =>
        Drive.distinct_of_unused (hbuilt.unused level hlevel drive hdrive))
      (fun _ _ _ _ htried => htried.distinct) (fun _ _ hdrive => hdrive.map _)
  have hdistinct' : ∀ drive ∈ agent.levels.flatten, drive.instances.Distinct :=
    List.forall_mem_flatten.2 hdistinct
  refine ⟨?_, ?_, nodup_instances hdistinct', fun position path node => ?_⟩
  · rw [hkept.library]
    exact hclosed.library
  · intro level hlevel drive hdrive
    rw [hkept.library]
    exact (hkept.sound level hlevel drive hdrive).intact hclosed.library
      (htargets level hlevel drive hdrive)
  · rw [mem_instances]
    refine exists_congr fun drive => and_congr_right fun hdrive => ?_
    exact (hdistinct' drive (List.mem_of_getElem? hdrive)).mem_entries_iff

end Agent

/-! ## Plans -/

/-- A plan that builds can be assembled. In every machine that comes from its machine, each
instance has its one place and nothing goes wrong; in every agent that comes from the built one,
everything that is stored is intact. Each of the machines agrees with one of the agents, and each
of the agents with one of the machines. What a run leaves is one of them as well. -/
theorem reached_intact {registry : Registry} {plan : Plan} {built : Agent}
    (hbuild : plan.build registry = .ok built) :
    ∃ start, plan.assemble registry = .ok start ∧
      (∀ machine, start.Reaches machine → machine.Placed built ∧
        (∃ agent, built.Reaches agent ∧ machine.Agrees agent) ∧
        ∀ {ω ε : Type} (world : World ω ε) (config : Config) (w : ω),
          start.Reaches (machine.run world config w).agent) ∧
      ∀ agent, built.Reaches agent → agent.Intact ∧
        (∃ machine, start.Reaches machine ∧ machine.Agrees agent) ∧
        ∀ {ω ε : Type} (world : World ω ε) (config : Config) (w : ω),
          built.Reaches (agent.run world config w).agent := by
  have hbuilt := build_asBuilt hbuild
  obtain ⟨start, layout, hassemble, hshows⟩ := exists_assembled hbuild
  refine ⟨start, hassemble, ?_, ?_⟩
  · intro machine hreaches
    obtain ⟨agent, layout', hagent, hshows'⟩ := hreaches.exists_agent hshows
    exact ⟨hshows'.placed (hagent.keptBy hbuilt), ⟨agent, hagent, hshows'.agrees⟩,
      fun world config w => hreaches.run world config w⟩
  · intro agent hreaches
    obtain ⟨machine, layout', hmachine, hshows'⟩ := Machine.exists_machine hshows hreaches
    exact ⟨hreaches.intact hbuilt (build_closed hbuild), ⟨machine, hmachine, hshows'.agrees⟩,
      fun world config w => hreaches.run world config w⟩

/-- The machine of `wanderPlan`. -/
def roamer : Machine where
  name := "life"
  discipline := .stepped
  docstring := none
  library := ⟨[⟨"wander", [], [[⟨"further", [], .node (.competence 0), 2⟩]]⟩], []⟩
  goal := []
  levels := [[⟨"roam", [], 0, none, none, Drive.neverFired⟩]]
  heap := [Competence.cell ⟨"wander", [], [[⟨"further", [], .node (.competence 0), 2⟩]]⟩]
  clock := .stepped 0

theorem assemble_wanderPlan : wanderPlan.assemble .empty = .ok roamer := by
  rfl

/-- `roamer` after its first step, which made a second instance below the first. -/
theorem reached_intact_wandering :
    wanderPlan.build .empty = .ok wanderer ∧ wanderPlan.assemble .empty = .ok roamer ∧
      (roamer.step idle ()).2.1.heap.length = 2 ∧ (roamer.step idle ()).2.1.Placed wanderer ∧
      wandering.Intact := by
  obtain ⟨start, hassemble, hmachines, hagents⟩ := reached_intact build_wanderPlan
  rw [assemble_wanderPlan] at hassemble
  cases hassemble
  exact ⟨build_wanderPlan, assemble_wanderPlan, rfl,
    (hmachines _ (.step idle () .start)).1, (hagents _ (.step idle () .start)).1⟩

end SlipStack.Engine
