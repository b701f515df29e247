import SlipStack.Proofs.Engine.Reached

/-!
# One step touches one node

A step that follows a drive element changes this element and no other. In the element it
changes the node that was under the cursor, and there one count of retries or the place in
the pattern (`Node.Touched`). What that node answered moves the cursor (`Drive.Follows`): at most
one node comes into being, at a site of the fired one. Everything else at any path stays as it
was (`Drive.Touched`), so no two uses of a definition share any state. A step that wins or is
lost changes no drive element at all.
-/

namespace SlipStack.Engine

variable {ω ε : Type} {library : Library} {now : Int}

/-- What one firing may change in a node. -/
inductive Node.Touched : Node → Node → Prop
  | kept (node : Node) : Touched node node
  /-- One element has spent one more retry. -/
  | spent (name : String) (goal : Trigger) (above below : List (List ElementState))
      (before after : List ElementState) (element : Element) (retries : Nat) :
      Touched (.competence name goal (above ++ (before ++ ⟨element, retries⟩ :: after) :: below))
        (.competence name goal (above ++ (before ++ ⟨element, retries + 1⟩ :: after) :: below))
  /-- The pattern is at another step. -/
  | moved (name : String) (steps : List Step) (cursor cursor' : Nat) :
      Touched (.pattern name steps cursor) (.pattern name steps cursor')

/-- The firing of a node changes only its own state: what it is, and what it leads to, stay. -/
theorem Node.Fired.touched {node node' : Node} {result : Except ε Move}
    (h : node.Fired result node') : node.Touched node' := by
  cases h with
  | failed | done => exact .kept _
  | called | callFailed | entered => exact .spent ..
  | advanced | restarted | handedOff => exact .moved ..

/-- The two agree on all paths but those given. -/
def Instances.SameExcept (instances instances' : Instances) (paths : List Path) : Prop :=
  ∀ path ∉ paths, instances'.get? path = instances.get? path

/-- What a drive element becomes by the move that its node, which was at the cursor, answered. -/
inductive Drive.Follows (library : Library) (node : Node) (drive drive' : Drive) : Move → Prop
  /-- The node goes on. -/
  | stay : drive'.cursor = drive.cursor →
      drive.instances.SameExcept drive'.instances [drive.cursor] →
      Follows library node drive drive' .stay
  /-- The node has nothing more to do. -/
  | home : drive'.cursor = Drive.home →
      drive.instances.SameExcept drive'.instances [drive.cursor] →
      Follows library node drive drive' .home
  /-- The node at a site of the fired one is next. It is the one that was there, or one
  before its first use, with nothing below it. -/
  | enter {site : Site} {ref : NodeRef} : node.site? site = some ref →
      drive'.cursor = drive.cursor ++ [site] →
      drive'.instances.get? drive'.cursor =
        some ((drive.instances.get? drive'.cursor).getD (library.fresh ref)) →
      (drive.instances.get? drive'.cursor = none →
        ∀ sites, sites ≠ [] → drive'.instances.get? (drive'.cursor ++ sites) = none) →
      drive.instances.SameExcept drive'.instances [drive.cursor, drive'.cursor] →
      Follows library node drive drive' (.enter site ref)

/-- The drive element after its node was fired at the time `now`, which left the world `w'`. -/
structure Drive.Touched (library : Library) (world : World ω ε) (now : Int) (w' : ω)
    (drive drive' : Drive) : Prop where
  definition : drive'.name = drive.name ∧ drive'.trigger = drive.trigger ∧
    drive'.target = drive.target ∧ drive'.interval = drive.interval
  lastFired : drive'.lastFired = now
  /-- The node at the cursor was fired, and its answer moves the cursor. -/
  node : ∃ node node' move w₁, drive.instances.get? drive.cursor = some node ∧
    node.fire world w₁ = (.ok move, node', w') ∧
    drive'.instances.get? drive.cursor = some node' ∧ node.Touched node' ∧
    Drive.Follows library node drive drive' move

namespace Drive

variable {drive drive' : Drive}

/-- Storing the fired node touches the tree at the cursor and nowhere else. -/
theorem store_sameExcept (drive : Drive) (now : Int) (node : Node) :
    drive.instances.SameExcept (drive.store now node).instances [drive.cursor] := by
  intro path hpath
  exact Instances.get?_set_ne _ _ (by simpa using hpath)

/-- Entering a slot moves the cursor down by one, to a node that was there already or is made from
the library now. -/
theorem Sound.follows_enter (h : drive.Sound library) {site : Site} {ref : NodeRef}
    (hsite : (drive.node library).site? site = some ref) (node : Node) :
    Follows library (drive.node library) drive
      ((drive.store now node).follow library (.enter site ref)) (.enter site ref) := by
  have hstored : ((drive.store now node).instances.get? drive.cursor).isSome := by
    rw [Drive.store, Instances.get?_set_self node h.cursor]
    rfl
  have hne : drive.cursor ++ [site] ≠ drive.cursor := by simp
  have hpath : drive.cursor ++ [site] ≠ [] := by simp
  have hslot : (drive.store now node).instances.get? (drive.cursor ++ [site]) =
      drive.instances.get? (drive.cursor ++ [site]) := Instances.get?_set_ne _ _ hne
  refine .enter hsite rfl ?_ ?_ ?_
  · exact (Instances.get?_enter_append site _ hstored).trans (by rw [hslot]; rfl)
  · intro hnone sites hsites
    have happend : drive.cursor ++ [site] ++ sites ≠ drive.cursor ++ [site] := by simpa using hsites
    have hcursor : drive.cursor ++ [site] ++ sites ≠ drive.cursor := by simp
    refine (Instances.get?_enter_ne _ _ happend).trans ?_
    refine (Instances.get?_set_ne _ _ hcursor).trans ?_
    exact Instances.get?_below_none hpath hnone sites
  · intro path hpath
    simp only [List.mem_cons, List.not_mem_nil, or_false, not_or] at hpath
    exact (Instances.get?_enter_ne _ _ hpath.2).trans (Instances.get?_set_ne _ _ hpath.1)

theorem Sound.follows (hlast : library.CompetencesLast) (h : drive.Sound library) {move : Move}
    {node : Node} (hfired : (drive.node library).Fired (ε := ε) (.ok move) node) :
    Follows library (drive.node library) drive ((drive.store now node).follow library move)
      move := by
  cases move with
  | stay => exact .stay rfl (drive.store_sameExcept now node)
  | home => exact .home rfl (drive.store_sameExcept now node)
  | enter site ref => exact h.follows_enter (hfired.site?_eq (h.competenceLast hlast)) node

/-- Wherever the cursor goes, the fired node stays where it was. -/
theorem Sound.get?_follow_store (h : drive.Sound library) (node : Node) (move : Move) :
    ((drive.store now node).follow library move).instances.get? drive.cursor = some node := by
  have hstored : (drive.store now node).instances.get? drive.cursor = some node :=
    Instances.get?_set_self node h.cursor
  cases move with
  | stay | home => exact hstored
  | enter site ref =>
    have hne : drive.cursor ≠ drive.cursor ++ [site] := by simp
    exact (Instances.get?_enter_ne _ _ hne).trans hstored

/-- A sound drive element that is fired has, of its tree, only the node at its cursor changed, and
its cursor moved as the firing said. -/
theorem Sound.touched (hlast : library.CompetencesLast) (h : drive.Sound library)
    {world : World ω ε} {w₁ w' : ω} {move : Move} {node' : Node}
    (hfire : (drive.node library).fire world w₁ = (.ok move, node', w')) :
    drive.Touched library world now w' ((drive.store now node').follow library move) := by
  have hfired := Node.fire_fired hfire
  refine ⟨?_, ?_, drive.node library, node', move, w₁, h.current?_eq, hfire,
    h.get?_follow_store node' move, hfired.touched, h.follows hlast hfired⟩
  · cases move <;> exact ⟨rfl, rfl, rfl, rfl⟩
  · cases move <;> rfl

end Drive

/-- What a step that ends with an outcome does to the drive elements. -/
def Agent.TouchesOne (world : World ω ε) (agent agent' : Agent) (w' : ω) : Outcome → Prop
  | .won | .lost => agent'.levels = agent.levels
  | .followed => ∃ above before drive drive' after below,
      agent.levels = above ++ (before ++ drive :: after) :: below ∧
      agent'.levels = above ++ (before ++ drive' :: after) :: below ∧
      drive.Touched agent.library world agent.clock.beginStep.time w' drive'

/-- A successful step of an agent that keeps what was built touches one drive element at most, and
in it one node. -/
theorem Agent.KeptBy.touchesOne {built agent agent' : Agent}
    (hlast : built.library.CompetencesLast) (hkept : built.KeptBy agent) {world : World ω ε}
    {w w' : ω} {outcome : Outcome} (hstep : agent.step world w = (.ok outcome, agent', w')) :
    agent.TouchesOne world agent' w' outcome := by
  have hsettled := Agent.step_settled hstep
  have hsound := hkept.sound
  rw [← hkept.library] at hlast hsound
  generalize hlevels : agent.levels = levels at hsettled hsound
  generalize hlevels' : agent'.levels = levels' at hsettled
  generalize hresult : Except.ok outcome = result at hsettled
  -- Errors are excluded here, and without a firing nothing changes.
  cases hsettled with
  | goalFailed | triggerFailed => cases hresult
  | won | lost =>
    cases hresult
    exact hlevels'.trans hlevels.symm
  | @fired above below before after drive moved node' _ _ _ _ _ _ _ hfire =>
    cases moved with
    | error e => cases hresult
    | ok move =>
      cases hresult
      have hdrive : drive.Sound agent.library :=
        hsound (before ++ drive :: after) (by simp) drive (by simp)
      exact ⟨above, before, drive, _, after, below, hlevels, hlevels',
        hdrive.touched hlast hfire⟩

/-- A step of an agent that comes from a built one touches one node, which it fires, and what
this node answers moves the cursor of its drive element. -/
theorem step_touches_one_node {registry : Registry} {plan : Plan} {built agent agent' : Agent}
    (hbuild : plan.build registry = .ok built) (hreaches : built.Reaches agent)
    {world : World ω ε} {w w' : ω} {outcome : Outcome}
    (hstep : agent.step world w = (.ok outcome, agent', w')) :
    agent.TouchesOne world agent' w' outcome := by
  have hbuilt := build_asBuilt hbuild
  have hkept := hreaches.keptBy hbuilt
  exact hkept.touchesOne hbuilt.competencesLast hstep

/-- The second step of `wanderer` enters the competence from within itself. -/
theorem step_touches_one_node_wanderer :
    wandering.step idle () = (.ok .followed, (wandering.step idle ()).2.1, ()) ∧
      wandering.TouchesOne idle (wandering.step idle ()).2.1 () .followed := by
  have hstep : wandering.step idle () = (.ok .followed, (wandering.step idle ()).2.1, ()) := rfl
  exact ⟨hstep, step_touches_one_node build_wanderPlan (.step idle () .start) hstep⟩

end SlipStack.Engine
