import SlipStack.Proofs.Engine.Fired
import SlipStack.Proofs.Engine.History
import SlipStack.Proofs.Engine.OneStep
import SlipStack.Proofs.Engine.Ready
import SlipStack.Proofs.Engine.Reset

/-!
# Retries are accounted for

An element of a competence in use has a place in the agent: the drive element, the path of the
competence and the position in it. A step finds at most one element ready (`Agent.ready?`), and
its count of retries is the only one that changes (`Agent.elementAt?_step`). So the count is the
number of times that the element was found ready since the last reset, whatever happened to
its competence in between (`Agent.Accounted`), and a limit on retries ends that for good.
-/

namespace SlipStack.Engine

variable {ω ε : Type} {library : Library} {world : World ω ε} {w w' : ω}

/-! ## Elements of a node -/

/-- A list with another entry at one place. -/
theorem getElem?_append_cons {α : Type} {before after : List α} (x : α) {y : α} {index : Nat} :
    (before ++ y :: after)[index]? =
      if index = before.length then some y else (before ++ x :: after)[index]? := by
  split
  · rename_i hindex
    rw [hindex, List.getElem?_append_right (Nat.le_refl _), Nat.sub_self, List.getElem?_cons_zero]
  · rename_i hindex
    have hset : before ++ y :: after = (before ++ x :: after).set before.length y := by simp
    rw [hset, List.getElem?_set_ne (Ne.symm hindex)]

namespace ElementState

/-- No more than one retry is spent above the limit, if there is one. -/
def WithinBudget (state : ElementState) : Prop :=
  0 ≤ state.element.maxRetries → (state.retries : Int) ≤ state.element.maxRetries + 1

variable {state : ElementState}

/-- An element that is not exhausted may be spent: its count was at most its allowance, so after
it there is at most one retry more. -/
theorem WithinBudget.spend (hexhausted : state.exhausted = false) : state.spend.WithinBudget := by
  intro hlimit
  simp only [exhausted, Bool.and_eq_false_iff, decide_eq_false_iff_not] at hexhausted
  simp only [ElementState.spend] at hlimit ⊢
  omega

/-- An element that has been ready once more than it has retries is exhausted, and is found ready
no more until a reset. -/
theorem exhausted_of_eq (hlimit : 0 ≤ state.element.maxRetries)
    (h : (state.retries : Int) = state.element.maxRetries + 1) : state.exhausted = true := by
  simp only [exhausted, Bool.and_eq_true, decide_eq_true_iff]
  omega

end ElementState

namespace Node

/-- The element at a position in a competence, counted through all levels. -/
def element? : Node → Nat → Option ElementState
  | .competence _ _ levels, index => levels.flatten[index]?
  | _, _ => none

theorem element?_reset (node : Node) (index : Nat) :
    node.reset.element? index = (node.element? index).map ElementState.reset := by
  cases node with
  | action | pattern => rfl
  | competence name goal levels =>
    rw [reset, element?, element?, ← List.map_flatten, List.getElem?_map]

/-- What firing a node does to its elements, by the one that is found ready. -/
inductive Spends (world : World ω ε) (node : Node) (result : Except ε Move) (node' : Node)
    (w' : ω) : Option (Nat × ElementState × ω) → Prop
  | kept : (∀ index, node'.element? index = node.element? index) →
      Spends world node result node' w' none
  | spent {index : Nat} {state : ElementState} {answer : Except ε (Option NodeRef)} {w₀ w₁ : ω} :
      node.element? index = some state → state.ready world w₀ = (.ok true, w₁) →
      state.fire world w₁ = (answer, state.spend, w') →
      result = answer.map (fun ref? => .ofReady (some (index, ref?))) →
      (∀ other, node'.element? other =
        if other = index then some state.spend else node.element? other) →
      Spends world node result node' w' (some (index, state, w₁))

/-- When a competence is fired, the counter of the element found ready grows by one and no other
counter changes, whatever the firing gives. -/
theorem competence_spends (name : String) {goal : Trigger}
    {levels levels' : List (List ElementState)}
    {result : Except ε Move} (h : Competed world goal w levels result levels' w') :
    (Node.competence name goal levels).Spends world result (.competence name goal levels') w'
      ((Node.competence name goal levels).ready? world w) := by
  generalize hready? : (Node.competence name goal levels).ready? world w = found
  cases h with
  | goalFailed hgoal | reached hgoal =>
    rw [ready?, hgoal] at hready?
    cases hready?
    exact .kept fun _ => rfl
  | unready hgoal hpassed =>
    cases (ready?_of_passed name hgoal hpassed).symm.trans hready?
    exact .kept fun _ => rfl
  | triggerFailed hgoal hpassed hready =>
    cases (ready?_of_triggerFailed name hgoal hpassed hready).symm.trans hready?
    exact .kept fun _ => rfl
  | @fired above below before after state answer _ _ _ _ hgoal hpassed hready hfire =>
    cases (ready?_of_ready name hgoal hpassed hready).symm.trans hready?
    have hflatten : ∀ between, (above ++ (before ++ between :: after) :: below).flatten =
        above.flatten ++ before ++ between :: (after ++ below.flatten) := by simp
    refine .spent ?_ hready hfire rfl fun other => ?_
    · simp [element?]
    · rw [element?, element?, hflatten, hflatten, getElem?_append_cons state, List.length_append]

/-- A competence that finds no element ready reads senses and fires none. -/
theorem competence_looks (name : String) {goal : Trigger}
    {levels levels' : List (List ElementState)}
    {result : Except ε Move} (h : Competed world goal w levels result levels' w')
    (hnone : (Node.competence name goal levels).ready? world w = none) : Looks world w w' := by
  cases h with
  | goalFailed hgoal =>
    obtain ⟨sense, -, hfails⟩ := Trigger.fails_of_reached hgoal
    exact .failed hfails
  | reached hgoal =>
    obtain ⟨senses, hreads⟩ := Trigger.reads_of_reached hgoal
    exact .reads hreads
  | unready hgoal hpassed =>
    obtain ⟨senses, hreads⟩ := ElementState.reads_before hgoal hpassed
    exact .reads hreads
  | triggerFailed hgoal hpassed hready =>
    obtain ⟨senses, hreads⟩ := ElementState.reads_before hgoal hpassed
    obtain ⟨sense, -, hfails⟩ := Trigger.fails_of_holds (ElementState.ready_eq_error.1 hready)
    exact .failed (hfails.after hreads)
  | fired hgoal hpassed hready =>
    rw [ready?_of_ready name hgoal hpassed hready] at hnone
    cases hnone

/-- Firing a node changes no element but the one that is ready, which spends a retry. -/
theorem fire_spends {node node' : Node} {result : Except ε Move}
    (h : node.fire world w = (result, node', w')) :
    node.Spends world result node' w' (node.ready? world w) := by
  cases fire_enacted h with
  | competed name hcompeted => exact competence_spends name hcompeted
  | called | ended | handedOff | stepped | stepFailed => exact .kept fun _ => rfl

end Node

/-- A node made from the library starts with all its retries, so a counter that is missing in the
log is one at zero. -/
theorem Library.retries_fresh {ref : NodeRef} {index : Nat} {state : ElementState}
    (h : (library.fresh ref).element? index = some state) : state.retries = 0 := by
  rw [← library.reset_fresh, Node.element?_reset] at h
  obtain ⟨old, _, rfl⟩ := Option.map_eq_some_iff.1 h
  rfl

/-! ## Elements of a drive element -/

namespace Drive

variable {drive : Drive} {now : Int} {node' : Node} {moved : Except ε Move} {move : Move}
  {path : Path} {index : Nat} {state : ElementState}

/-- The element at a position in the competence at a path, if it was entered. -/
def element? (drive : Drive) (path : Path) (index : Nat) : Option ElementState :=
  (drive.instances.get? path).bind (·.element? index)

/-- Firing the node at the cursor changes none of the elements but the one that is ready. -/
theorem Sound.element?_follow (h : drive.Sound library)
    {ready? : Option (Nat × ElementState × ω)}
    (hspends : (drive.node library).Spends world moved node' w' ready?)
    (hstate : drive.element? path index = some state) :
    ((drive.store now node').follow library move).element? path index =
      some (if path = drive.cursor ∧ ready?.map Prod.fst = some index then state.spend
        else state) := by
  obtain ⟨node, hnode, helement⟩ := Option.bind_eq_some_iff.1 hstate
  by_cases hpath : path = drive.cursor
  · subst hpath
    cases hnode.symm.trans h.current?_eq
    rw [element?, h.get?_follow_store, Option.bind_some]
    cases hspends with
    | kept hkept => simp [hkept, helement]
    | @spent spent _ _ _ _ hspent _ _ _ hothers =>
      rw [hothers]
      by_cases hindex : index = spent
      · subst hindex
        cases hspent.symm.trans helement
        simp
      · simp [hindex, Ne.symm hindex, helement]
  · rw [element?, get?_follow_of_ne hpath hnode]
    simp [hpath, helement]

/-- The elements of a competence that is entered for the first time have spent no retry. -/
theorem Sound.retries_follow (h : drive.Sound library)
    {ready? : Option (Nat × ElementState × ω)}
    (hspends : (drive.node library).Spends world moved node' w' ready?)
    (hnone : drive.element? path index = none)
    (hstate : ((drive.store now node').follow library move).element? path index = some state) :
    state.retries = 0 := by
  obtain ⟨node, hnode, helement⟩ := Option.bind_eq_some_iff.1 hstate
  rcases h.get?_follow_cases hnode with ⟨hpath, rfl⟩ | ⟨_, hold | ⟨ref, rfl⟩⟩
  · rw [element?, hpath, ← current?, h.current?_eq, Option.bind_some] at hnone
    cases hspends with
    | kept hkept =>
      rw [hkept, hnone] at helement
      cases helement
    | @spent spent _ _ _ _ hspent _ _ _ hothers =>
      have hindex : index ≠ spent := by
        intro hindex
        rw [hindex, hspent] at hnone
        cases hnone
      rw [hothers, if_neg hindex, hnone] at helement
      cases helement
  · rw [element?, hold, Option.bind_some, helement] at hnone
    cases hnone
  · exact library.retries_fresh helement

end Drive

/-! ## Elements of an agent -/

/-- Where an element of a competence in use is. -/
structure Place where
  /-- The position of the drive element, counted through all levels. -/
  drive : Nat
  /-- The path of the competence in the drive element. -/
  path : Path
  /-- The position in the competence, counted through all levels. -/
  element : Nat
  deriving DecidableEq, Repr

namespace Agent

/-- The element at a place, if its competence was entered. -/
def elementAt? (agent : Agent) (place : Place) : Option ElementState :=
  agent.levels.flatten[place.drive]?.bind (·.element? place.path place.element)

/-- The place of the element, if any, that a step of the agent finds ready. -/
def ready? (world : World ω ε) (agent : Agent) (w : ω) : Option Place :=
  (agent.fired? world w).bind fun (position, drive, w) =>
    ((drive.node agent.library).ready? world w).map fun (index, _, _) =>
      ⟨position, drive.cursor, index⟩

variable {agent : Agent} {place : Place} {state : ElementState}

/-- The place in the log is that of the fired drive element, of the node under its cursor, and of
the element that this node finds ready in the world as it is then. -/
theorem ready?_eq_some : agent.ready? world w = some place ↔
    ∃ drive w₁, agent.fired? world w = some (place.drive, drive, w₁) ∧
      place.path = drive.cursor ∧
      ((drive.node agent.library).ready? world w₁).map Prod.fst = some place.element := by
  obtain ⟨position, path, index⟩ := place
  simp only [ready?, Option.bind_eq_some_iff, Option.map_eq_some_iff, Prod.exists, Place.mk.injEq]
  constructor
  · rintro ⟨_, drive, w₁, hfired, _, state, w₂, hready, rfl, rfl, rfl⟩
    exact ⟨drive, w₁, hfired, rfl, _, state, w₂, hready, rfl⟩
  · rintro ⟨drive, w₁, hfired, rfl, _, state, w₂, hready, rfl⟩
    exact ⟨_, drive, w₁, hfired, _, state, w₂, hready, rfl, rfl, rfl⟩

/-- A step changes no element but the one that is ready, which spends a retry. -/
theorem elementAt?_step (hsound : ∀ drive ∈ agent.levels.flatten, drive.Sound agent.library)
    (world : World ω ε) (w : ω) (h : agent.elementAt? place = some state) :
    (agent.step world w).2.1.elementAt? place =
      some (if agent.ready? world w = some place then state.spend else state) := by
  obtain ⟨drive₀, hdrive₀, helement⟩ := Option.bind_eq_some_iff.1 h
  cases hfired : agent.fired? world w with
  | none => simp [elementAt?, ready?, hfired, (step_of_fired?_eq_none hfired).1, hdrive₀, helement]
  | some fired =>
    obtain ⟨position, drive, w₁⟩ := fired
    obtain ⟨hdrive, -, moved, node', w', hfire, -, hlevels, -⟩ := step_of_fired?_node hfired
    have hready : agent.ready? world w = some place ↔
        position = place.drive ∧ place.path = drive.cursor ∧
          ((drive.node agent.library).ready? world w₁).map Prod.fst = some place.element := by
      simp [ready?_eq_some, hfired]
    simp only [hready]
    rw [elementAt?, hlevels]
    by_cases hposition : position = place.drive
    · subst hposition
      cases hdrive₀.symm.trans hdrive
      have hlength : place.drive < agent.levels.flatten.length :=
        (List.getElem?_eq_some_iff.1 hdrive).1
      rw [List.getElem?_set_self hlength, Option.bind_some,
        (hsound _ (List.mem_of_getElem? hdrive)).element?_follow (Node.fire_spends hfire) helement]
      exact congrArg some (if_congr (by simp) rfl rfl)
    · rw [List.getElem?_set_ne hposition, hdrive₀, Option.bind_some, helement]
      simp [hposition]

/-- An element that appears has spent no retry. -/
theorem retries_step (hsound : ∀ drive ∈ agent.levels.flatten, drive.Sound agent.library)
    (world : World ω ε) (w : ω) (hnone : agent.elementAt? place = none)
    (h : (agent.step world w).2.1.elementAt? place = some state) : state.retries = 0 := by
  obtain ⟨drive₀, hdrive₀, helement⟩ := Option.bind_eq_some_iff.1 h
  cases hfired : agent.fired? world w with
  | none =>
    rw [elementAt?, (step_of_fired?_eq_none hfired).1, ← elementAt?, hnone] at h
    cases h
  | some fired =>
    obtain ⟨position, drive, w₁⟩ := fired
    obtain ⟨hdrive, -, moved, node', w', hfire, -, hlevels, -⟩ := step_of_fired?_node hfired
    rw [hlevels] at hdrive₀
    by_cases hposition : position = place.drive
    · subst hposition
      have hlength : place.drive < agent.levels.flatten.length :=
        (List.getElem?_eq_some_iff.1 hdrive).1
      rw [List.getElem?_set_self hlength] at hdrive₀
      cases hdrive₀
      rw [elementAt?, hdrive, Option.bind_some] at hnone
      exact (hsound drive (List.mem_of_getElem? hdrive)).retries_follow
        (Node.fire_spends hfire) hnone helement
    · rw [List.getElem?_set_ne hposition] at hdrive₀
      rw [elementAt?, hdrive₀, Option.bind_some, helement] at hnone
      cases hnone

/-- What a step does for an element that it finds ready, in the world `w₁` that it was found
ready in: it calls the action of the element, and nothing after it, or goes to its node. -/
inductive Engages (world : World ω ε) (place : Place) (state : ElementState) (w₁ : ω)
    (after : Agent) (w' : ω) : Prop
  | called {capability : Capability} : state.element.target = .action capability →
      (world.act capability w₁).2 = w' → Engages world place state w₁ after w'
  | entered {ref : NodeRef} {drive : Drive} : state.element.target = .node ref →
      after.levels.flatten[place.drive]? = some drive →
      drive.cursor = place.path ++ [.element place.element] →
      Engages world place state w₁ after w'

/-- An element that is found ready is there, its trigger holds, a retry is left for it, and its
target is served. -/
theorem engages_of_ready? (hsound : ∀ drive ∈ agent.levels.flatten, drive.Sound agent.library)
    (h : agent.ready? world w = some place) :
    ∃ state, agent.elementAt? place = some state ∧ ∃ w₀ w₁,
      state.ready world w₀ = (.ok true, w₁) ∧
        Engages world place state w₁ (agent.step world w).2.1 (agent.step world w).2.2 := by
  obtain ⟨drive, w₁, hfired, hpath, hready⟩ := ready?_eq_some.1 h
  obtain ⟨hdrive, -, moved, node', w', hfire, -, hlevels, hworld⟩ := step_of_fired?_node hfired
  have hspends := Node.fire_spends hfire
  generalize (drive.node agent.library).ready? world w₁ = found at hready hspends
  cases hspends with
  | kept => cases hready
  | @spent index state answer w₀ w₂ hstate hopen hanswer hmoved _ =>
    cases hready
    have hcurrent := (hsound drive (List.mem_of_getElem? hdrive)).current?_eq
    refine ⟨state, ?_, w₀, w₂, hopen, ?_⟩
    · rw [elementAt?, hdrive, Option.bind_some, Drive.element?, hpath, ← Drive.current?, hcurrent,
        Option.bind_some, hstate]
    · rw [ElementState.fire] at hanswer
      split at hanswer
      · rename_i ref htarget
        cases hanswer
        have hlength : place.drive < agent.levels.flatten.length :=
          (List.getElem?_eq_some_iff.1 hdrive).1
        refine .entered htarget (by rw [hlevels, List.getElem?_set_self hlength]) ?_
        rw [hmoved, hpath]
        rfl
      · rename_i capability htarget
        refine .called htarget ?_
        rw [hworld]
        split at hanswer
        · rename_i hact
          cases hanswer
          rw [hact]
        · rename_i hact
          cases hanswer
          rw [hact]

/-- Where a step fires the competence of an element that it does not find ready, it reads senses
and no more, or serves another element. -/
theorem passes_of_unready (hsound : ∀ drive ∈ agent.levels.flatten, drive.Sound agent.library)
    (hstate : agent.elementAt? place = some state) (hunready : agent.ready? world w ≠ some place)
    {drive : Drive} {w₁ : ω} (hfired : agent.fired? world w = some (place.drive, drive, w₁))
    (hcursor : drive.cursor = place.path) :
    Looks world w (agent.step world w).2.2 ∨ ∃ other served w₂, other ≠ place ∧
      agent.ready? world w = some other ∧ agent.elementAt? other = some served ∧
      Engages world other served w₂ (agent.step world w).2.1 (agent.step world w).2.2 := by
  -- Either another element is found ready, or none is and the competence only reads.
  cases hready : agent.ready? world w with
  | some other =>
    obtain ⟨served, hserved, -, w₂, -, hengages⟩ := engages_of_ready? hsound hready
    exact .inr ⟨other, served, w₂, fun heq => hunready (heq ▸ hready), rfl, hserved, hengages⟩
  | none =>
    left
    have hnone : (drive.node agent.library).ready? world w₁ = none := by
      rw [ready?, hfired, Option.bind_some, Option.map_eq_none_iff] at hready
      exact hready
    have hcomes := agent.step_comesTo world w
    rw [hfired] at hcomes
    generalize (agent.step world w).1 = result at hcomes
    generalize (agent.step world w).2.1.levels.flatten = drives at hcomes
    cases hcomes with
    | fired hdrive hreads _ hfire =>
      have hcurrent := (hsound drive (List.mem_of_getElem? hdrive)).current?_eq
      rw [elementAt?, hdrive, Option.bind_some, Drive.element?, ← hcursor, ← Drive.current?,
        hcurrent, Option.bind_some] at hstate
      have henacted := Node.fire_enacted hfire
      generalize drive.node agent.library = node at hstate hnone henacted
      cases henacted with
      | competed name hcompeted => exact (Node.competence_looks name hcompeted hnone).after hreads
      | called | ended | handedOff | stepped | stepFailed => cases hstate

/-! ## Counting -/

/-- The log, which tells of all steps since the last reset, tells of every retry. -/
structure Counts (log : List (Option Place)) (agent : Agent) : Prop where
  noted : ∀ place, some place ∈ log → (agent.elementAt? place).isSome
  retries : ∀ place state, agent.elementAt? place = some state →
    state.retries = log.count (some place)
  budget : ∀ place state, agent.elementAt? place = some state → state.WithinBudget

/-- After a reset no element has spent a retry: the nodes that were entered before are there
still, with zero state. -/
theorem retries_reset (h : agent.reset.elementAt? place = some state) : state.retries = 0 := by
  obtain ⟨drive, hdrive, helement⟩ := Option.bind_eq_some_iff.1 h
  rw [reset, ← List.map_flatten, List.getElem?_map] at hdrive
  obtain ⟨old, _, rfl⟩ := Option.map_eq_some_iff.1 hdrive
  obtain ⟨node, hnode, hstate⟩ := Option.bind_eq_some_iff.1 helement
  rw [Drive.reset, Instances.get?_map] at hnode
  obtain ⟨node, _, rfl⟩ := Option.map_eq_some_iff.1 hnode
  rw [Node.element?_reset] at hstate
  obtain ⟨state, _, rfl⟩ := Option.map_eq_some_iff.1 hstate
  rfl

/-- To reset an agent that was just built does nothing to its drive elements. -/
theorem AsBuilt.reset_levels {built : Agent} (h : built.AsBuilt) :
    built.reset.levels = built.levels := by
  have hlevel : ∀ level ∈ built.levels, level.map Drive.reset = level := by
    intro level hlevel
    refine (List.map_congr_left fun drive hdrive => ?_).trans (List.map_id level)
    rw [← h.unused level hlevel drive hdrive, Drive.reset_unused]
    rfl
  exact (List.map_congr_left hlevel).trans (List.map_id built.levels)

/-- Where a stretch starts, at the built agent or after a reset, all counters are zero, as many as
there are places in the empty log. -/
theorem Starts.counts {built start : Agent} (hbuilt : built.AsBuilt) (h : built.Starts start) :
    start.Counts [] := by
  have hzero : ∀ place state, start.elementAt? place = some state → state.retries = 0 := by
    intro place state hstate
    cases h with
    | built =>
      rw [elementAt?, ← hbuilt.reset_levels] at hstate
      exact retries_reset hstate
    | reset => exact retries_reset hstate
  refine ⟨fun place hplace => absurd hplace List.not_mem_nil, hzero,
    fun place state hstate hlimit => ?_⟩
  rw [hzero place state hstate]
  omega

namespace Counts

variable {log : List (Option Place)} {after : ElementState}

/-- What was noted before, and what the next step notes, are elements that the agent has. -/
theorem isSome_of_mem (h : agent.Counts log)
    (hsound : ∀ drive ∈ agent.levels.flatten, drive.Sound agent.library)
    (hmem : some place ∈ agent.ready? world w :: log) : (agent.elementAt? place).isSome := by
  rcases List.mem_cons.1 hmem with hready | hlog
  · obtain ⟨state, hstate, _⟩ := engages_of_ready? hsound hready.symm
    rw [hstate]
    rfl
  · exact h.noted place hlog

/-- After a step the counter of an element is again the number of notes on it, whether the element
was there before or came into being. -/
theorem retries_eq_count (h : agent.Counts log)
    (hsound : ∀ drive ∈ agent.levels.flatten, drive.Sound agent.library)
    (hafter : (agent.step world w).2.1.elementAt? place = some after) :
    after.retries = (agent.ready? world w :: log).count (some place) := by
  cases hold : agent.elementAt? place with
  | none =>
    -- Nothing was noted of an element that was not there, nor is it now.
    have hcount : (agent.ready? world w :: log).count (some place) = 0 := by
      refine List.count_eq_zero.2 fun hmem => ?_
      have hthere := h.isSome_of_mem hsound hmem
      rw [hold] at hthere
      cases hthere
    rw [retries_step hsound world w hold hafter, hcount]
  | some old =>
    rw [elementAt?_step hsound world w hold] at hafter
    cases hafter
    have hcount := h.retries place old hold
    by_cases hready : agent.ready? world w = some place
    · rw [if_pos hready, hready, List.count_cons_self, ← hcount]
      rfl
    · rw [if_neg hready, List.count_cons_of_ne hready, hcount]

/-- A step keeps every element within its budget, since what is ready is not exhausted. -/
theorem withinBudget (h : agent.Counts log)
    (hsound : ∀ drive ∈ agent.levels.flatten, drive.Sound agent.library)
    (hafter : (agent.step world w).2.1.elementAt? place = some after) : after.WithinBudget := by
  cases hold : agent.elementAt? place with
  | none =>
    intro hlimit
    rw [retries_step hsound world w hold hafter]
    omega
  | some old =>
    rw [elementAt?_step hsound world w hold] at hafter
    cases hafter
    split
    · rename_i hready
      obtain ⟨found, hfound, _, _, hopen, _⟩ := engages_of_ready? hsound hready
      cases hfound.symm.trans hold
      exact .spend (ElementState.ready_eq_true.1 hopen).2
    · exact h.budget place old hold

/-- The step lemma of the accounts: a step adds to the log the place it finds ready, and adds one
to the counter at that place alone. -/
theorem step (h : agent.Counts log)
    (hsound : ∀ drive ∈ agent.levels.flatten, drive.Sound agent.library) (world : World ω ε)
    (w : ω) : (agent.step world w).2.1.Counts (agent.ready? world w :: log) := by
  refine ⟨fun place hplace => ?_, fun _ _ => h.retries_eq_count hsound,
    fun _ _ => h.withinBudget hsound⟩
  obtain ⟨state, hstate⟩ := Option.isSome_iff_exists.1 (h.isSome_of_mem hsound hplace)
  rw [elementAt?_step hsound world w hstate]
  rfl

end Counts

variable {built start : Agent} {log : List (Option Place)}

/-- In a reachable agent every node in every drive element has the shape that the library gives
it; the accounts need this for nodes entered later. -/
theorem Reaches.sound (hbuilt : built.AsBuilt) (h : built.Reaches agent) :
    ∀ drive ∈ agent.levels.flatten, drive.Sound agent.library := by
  have hkept := h.keptBy hbuilt
  rw [hkept.library]
  exact List.forall_mem_flatten.2 hkept.sound

/-- The run lemma of the accounts: since the last reset, each counter is the number of times its
place stands in the log. -/
theorem Notes.counts (hbuilt : built.AsBuilt) (hstart : built.Starts start)
    (h : start.Notes ready? log agent) : agent.Counts log := by
  induction h with
  | start => exact hstart.counts hbuilt
  | step world w hnotes ih => exact ih.step ((hnotes.reaches hstart.reaches).sound hbuilt) world w
  | reset hnone => cases hnone
  | setClock clock _ ih => exact ⟨ih.noted, ih.retries, ih.budget⟩
  | setDiscipline discipline _ ih => exact ⟨ih.noted, ih.retries, ih.budget⟩

/-- An element that is out of budget is not ready again before a reset. -/
theorem Notes.exhausted (hbuilt : built.AsBuilt) (hreaches : built.Reaches agent)
    (hstate : agent.elementAt? place = some state) (hexhausted : state.exhausted = true)
    {more : List (Option Place)} {later : Agent} (h : agent.Notes ready? more later) :
    later.elementAt? place = some state ∧ some place ∉ more := by
  induction h with
  | start => exact ⟨hstate, List.not_mem_nil⟩
  | @step ω ε more later world w hnotes ih =>
    have hsound := (hnotes.reaches hreaches).sound hbuilt
    have hready : later.ready? world w ≠ some place := by
      intro hready
      obtain ⟨found, hfound, _, _, hopen, _⟩ := engages_of_ready? hsound hready
      cases hfound.symm.trans ih.1
      rw [(ElementState.ready_eq_true.1 hopen).2] at hexhausted
      cases hexhausted
    refine ⟨?_, List.not_mem_cons_of_ne_of_not_mem hready.symm ih.2⟩
    rw [elementAt?_step hsound world w ih.1, if_neg hready]
  | reset hnone => cases hnone
  | setClock clock _ ih => exact ih
  | setDiscipline discipline _ ih => exact ih

/-- The count of an element is right, and so is what comes of it in later steps. -/
structure Accounted (agent : Agent) (log : List (Option Place)) (place : Place)
    (state : ElementState) : Prop where
  retries : state.retries = log.count (some place)
  /-- A count stays below the number of steps. -/
  steps : state.retries ≤ log.length
  budget : 0 ≤ state.element.maxRetries → (state.retries : Int) ≤ state.element.maxRetries + 1
  /-- The limit is for good, until a reset. -/
  spent : 0 ≤ state.element.maxRetries → (state.retries : Int) = state.element.maxRetries + 1 →
    ∀ more later, agent.Notes ready? more later → some place ∉ more
  /-- The next step adds to the count if it finds the element ready, and only then. -/
  step : ∀ {ω ε : Type} (world : World ω ε) (w : ω),
    (agent.step world w).2.1.elementAt? place =
      some (if agent.ready? world w = some place then state.spend else state)
  /-- It finds the element ready if the trigger holds and a retry is left, and then serves its
  target. -/
  ready : ∀ {ω ε : Type} (world : World ω ε) (w : ω), agent.ready? world w = some place →
    ∃ w₀ w₁, state.element.trigger.holds world w₀ = (.ok true, w₁) ∧ state.exhausted = false ∧
      Engages world place state w₁ (agent.step world w).2.1 (agent.step world w).2.2
  /-- If not, it does not fire the element: where it fires the competence of the element, it
  reads senses and no more, or serves another element. -/
  unready : ∀ {ω ε : Type} (world : World ω ε) (w : ω), agent.ready? world w ≠ some place →
    ∀ drive w₁, agent.fired? world w = some (place.drive, drive, w₁) →
      drive.cursor = place.path →
      Looks world w (agent.step world w).2.2 ∨ ∃ other served w₂, other ≠ place ∧
        agent.ready? world w = some other ∧ agent.elementAt? other = some served ∧
        Engages world other served w₂ (agent.step world w).2.1 (agent.step world w).2.2

end Agent

/-- In every agent that comes from a built one, the retries of each element are the times that
it was found ready since the last reset. -/
theorem retries_accounted {registry : Registry} {plan : Plan} {built agent : Agent}
    (hbuild : plan.build registry = .ok built) (hreaches : built.Reaches agent) :
    (∃ start log, built.Starts start ∧ start.Notes Agent.ready? log agent) ∧
      ∀ start log, built.Starts start → start.Notes Agent.ready? log agent →
        ∀ place state, agent.elementAt? place = some state →
          agent.Accounted log place state := by
  have hbuilt := build_asBuilt hbuild
  have hsound := hreaches.sound hbuilt
  refine ⟨hreaches.exists_notes _, fun start log hstart hnotes place state hstate => ?_⟩
  have hcounts := hnotes.counts hbuilt hstart
  have hretries := hcounts.retries place state hstate
  refine ⟨hretries, ?_, hcounts.budget place state hstate, ?_, ?_, ?_, fun world w hunready _ _ =>
    Agent.passes_of_unready hsound hstate hunready⟩
  · rw [hretries]
    exact List.count_le_length
  · intro hlimit hspent more later hmore
    exact (hmore.exhausted hbuilt hreaches hstate (ElementState.exhausted_of_eq hlimit hspent)).2
  · exact fun world w => Agent.elementAt?_step hsound world w hstate
  · intro ω ε world w hready
    obtain ⟨found, hfound, w₀, w₁, hopen, hengages⟩ := Agent.engages_of_ready? hsound hready
    cases hfound.symm.trans hstate
    obtain ⟨hholds, hexhausted⟩ := ElementState.ready_eq_true.1 hopen
    exact ⟨w₀, w₁, hholds, hexhausted, hengages⟩

/-! ## A greeting -/

def crowd : Registry :=
  ⟨["crowd"], ⟨[("wave", ⟨"crowd", ⟨"crowd", "wave"⟩⟩)]⟩, .empty⟩

/-- One competence, whose only element is not tried again. -/
def greetPlan : Plan where
  docstring := none
  collection := some
    { tag := "SDC", name := "party", goal := none, levels := [[⟨"mingle", none, "greet", none⟩]] }
  competences := [⟨"greet", none, none, [[⟨"hello", none, "wave", 0⟩]]⟩]
  patterns := []

/-- The only element of `greetPlan`. -/
def hello : Element :=
  ⟨"hello", [], .action ⟨"crowd", "wave"⟩, 0⟩

def greetLibrary : Library where
  competences := [⟨"greet", [], [[hello]]⟩]
  patterns := []

/-- The agent of `greetPlan`. -/
def greeter : Agent where
  name := "party"
  discipline := .stepped
  docstring := none
  library := greetLibrary
  goal := []
  levels := [[.fresh greetLibrary "mingle" [] (.node (.competence "greet")) none]]
  clock := .stepped 0

theorem build_greetPlan : greetPlan.build crowd = .ok greeter := by
  rfl

/-- Where `hello` is. -/
def helloPlace : Place := ⟨0, Drive.home, 0⟩

/-- `greeter` after two steps. -/
def greeting : Agent :=
  let after (agent : Agent) := (agent.step idle ()).2.1
  after (after greeter)

/-- The second step does not find the element ready, although its trigger holds. -/
theorem retries_accounted_greeting :
    greetPlan.build crowd = .ok greeter ∧ greeter.Reaches greeting ∧
      greeter.Notes Agent.ready? [none, some helloPlace] greeting ∧
      greeting.elementAt? helloPlace = some ⟨hello, 1⟩ ∧
      greeting.Accounted [none, some helloPlace] helloPlace ⟨hello, 1⟩ := by
  have hnotes : greeter.Notes Agent.ready? [none, some helloPlace] greeting :=
    .step idle () (.step idle () .start)
  have hreaches : greeter.Reaches greeting := hnotes.reaches .start
  have hstate : greeting.elementAt? helloPlace = some ⟨hello, 1⟩ := rfl
  exact ⟨build_greetPlan, hreaches, hnotes, hstate,
    (retries_accounted build_greetPlan hreaches).2 _ _ .built hnotes _ _ hstate⟩

end SlipStack.Engine
