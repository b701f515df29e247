import SlipStack.Proofs.Engine.Firing
import SlipStack.Proofs.Engine.Indexed

/-!
# Instances read as nodes

A cell of the heap can be read as a node (`Cell.read`), which leaves out what its slots hold.
Firing the cell does what firing the node does (`Cell.fire_matched`): the same calls with the
same answers, and the cell afterwards reads as the node afterwards. Beside that it enters one
slot of the cell at most, the one at the site that the node moves to (`Passage`).
-/

namespace SlipStack.Engine

variable {ω ε : Type} {library : Library Nat}

/-! ## Reading -/

/-- What an aim was made for. -/
def Aim.target : Aim → Target Nat
  | .action capability => .action capability
  | .node slot => .node slot.ref

def ElementCell.read (library : Library Nat) (cell : ElementCell) : ElementState :=
  ⟨⟨cell.element.name, cell.element.trigger, cell.aim.target.named library,
    cell.element.maxRetries⟩, cell.retries⟩

namespace Cell

/-- The node that a cell stands for. -/
def read (library : Library Nat) : Cell → Node
  | .action capability => .action capability
  | .competence definition levels =>
    .competence definition.name definition.goal
      (levels.map fun level => level.map (ElementCell.read library))
  | .pattern definition cursor _ =>
    .pattern definition.name (definition.steps.map (Step.named library)) cursor

/-- The slot at a site. -/
def slot? : Cell → Site → Option Slot
  | .competence _ levels, .element position => levels.flatten[position]?.bind (·.aim.slot?)
  | .pattern _ _ handoff, .handoff => handoff
  | _, _ => none

end Cell

/-! ## Shapes -/

/-- The slot with nothing in it. -/
def Slot.vacant (slot : Slot) : Slot :=
  { slot with held := none }

def Aim.vacant : Aim → Aim
  | .action capability => .action capability
  | .node slot => .node slot.vacant

def ElementCell.vacant (cell : ElementCell) : ElementCell :=
  ⟨cell.element, 0, cell.aim.vacant⟩

/-- The cell with no retries spent, at its first step, and with nothing in its slots. -/
def Cell.vacant : Cell → Cell
  | .action capability => .action capability
  | .competence definition levels =>
    .competence definition (levels.map fun level => level.map ElementCell.vacant)
  | .pattern definition _ handoff => .pattern definition 0 (handoff.map Slot.vacant)

/-- The cell is an instance of what the target fires: it differs from a new one in counters,
cursor and what its slots hold, and in nothing else. -/
def Cell.Serves (library : Library Nat) (target : Target Nat) (cell : Cell) : Prop :=
  library.instantiateTarget target = .ok cell.vacant

/-- Emptying a cell empties its slots one by one and leaves their references. -/
theorem Cell.slot?_vacant (cell : Cell) (site : Site) :
    cell.vacant.slot? site = (cell.slot? site).map Slot.vacant := by
  match cell, site with
  | .action _, _ => rfl
  | .competence _ _, .root | .competence _ _, .handoff => rfl
  | .pattern _ _ _, .root | .pattern _ _ _, .element _ | .pattern _ _ _, .handoff => rfl
  | .competence definition levels, .element position =>
    rw [vacant, slot?, slot?, ← List.map_flatten, List.getElem?_map]
    cases levels.flatten[position]? with
    | none => rfl
    | some cell =>
      simp only [Option.map_some, Option.bind_some, ElementCell.vacant]
      cases cell.aim <;> rfl

/-- The slots of a new instance are vacant, and refer to definitions. -/
theorem Library.Linked.slot?_instantiate (h : library.Linked) {target : Target Nat} {cell : Cell}
    (hcell : library.instantiateTarget target = .ok cell) {site : Site} {slot : Slot}
    (hslot : cell.slot? site = some slot) : library.Has slot.ref ∧ slot.held = none := by
  -- A slot of a new cell is that of an element or of the last step, and neither has been entered.
  cases target with
  | action capability =>
    cases hcell
    cases hslot
  | node ref =>
    cases ref with
    | competence index =>
      rw [instantiateTarget, instantiate] at hcell
      split at hcell
      case h_2 => cases hcell
      case h_1 definition hdefinition =>
        cases hcell
        cases site with
        | root | handoff => cases hslot
        | element position =>
          rw [Competence.cell, Cell.slot?, ← List.map_flatten, List.getElem?_map,
            Option.bind_map] at hslot
          obtain ⟨element, helement, hslot⟩ := Option.bind_eq_some_iff.1 hslot
          have hhas := h.elements definition (List.mem_of_getElem? hdefinition) element
            (List.mem_of_getElem? helement)
          cases htarget : element.target with
          | action => simp [ElementCell.fresh, htarget, Aim.ofTarget, Aim.slot?] at hslot
          | node ref =>
            obtain rfl : ⟨ref, none⟩ = slot := by
              simpa [ElementCell.fresh, htarget, Aim.ofTarget, Aim.slot?] using hslot
            exact ⟨hhas ref htarget, rfl⟩
    | pattern index =>
      rw [instantiateTarget, instantiate] at hcell
      split at hcell
      case h_2 => cases hcell
      case h_1 definition hdefinition =>
        cases hcell
        cases site with
        | root | element => cases hslot
        | handoff =>
          obtain ⟨ref, htrailing, rfl⟩ := Option.map_eq_some_iff.1 hslot
          rw [Step.trailing?] at htrailing
          split at htrailing
          · rename_i key hlast
            cases htrailing
            exact ⟨h.steps definition (List.mem_of_getElem? hdefinition) key
              (List.mem_of_getLast? hlast), rfl⟩
          · cases htrailing

/-- In a linked library the reference of every slot of a cell that serves a target is the number
of a node. -/
theorem Cell.Serves.has_of_slot? {target : Target Nat} {cell : Cell} (hlinked : library.Linked)
    (h : cell.Serves library target) {site : Site} {slot : Slot}
    (hslot : cell.slot? site = some slot) : library.Has slot.ref := by
  have hvacant : cell.vacant.slot? site = some slot.vacant := by
    rw [slot?_vacant, hslot]
    rfl
  exact (hlinked.slot?_instantiate h hvacant).1

/-- An instance of a pattern has a slot for the competence that the pattern ends in, and no slot
if it does not end in one. -/
theorem Cell.Serves.of_pattern {target : Target Nat} {definition : Pattern Nat} {cursor : Nat}
    {handoff : Option Slot} (h : (pattern definition cursor handoff).Serves library target) :
    definition ∈ library.patterns ∧ handoff.map (·.ref) = Step.trailing? definition.steps := by
  unfold Serves at h
  cases target with
  | action => cases h
  | node ref =>
    cases ref with
    | competence number =>
      rw [Library.instantiateTarget, Library.instantiate] at h
      split at h <;> cases h
    | pattern number =>
      rw [Library.instantiateTarget, Library.instantiate] at h
      split at h
      case h_2 => cases h
      case h_1 found hfound =>
        rw [Except.ok.injEq, Pattern.cell, vacant, pattern.injEq] at h
        obtain ⟨rfl, -, hslots⟩ := h
        refine ⟨List.mem_of_getElem? hfound, ?_⟩
        have hrefs := congrArg (Option.map Slot.ref) hslots
        rw [Option.map_map, Option.map_map] at hrefs
        exact hrefs.symm.trans Option.map_id_apply

/-- The step of a pattern that names a competence is the last, and the pattern has the slot for
it. -/
theorem Cell.Serves.exists_handoff {target : Target Nat} {definition : Pattern Nat} {cursor : Nat}
    {handoff : Option Slot} (hlinked : library.Linked)
    (h : (pattern definition cursor handoff).Serves library target) {position index : Nat}
    (hstep : definition.steps[position]? = some (.competence index)) :
    ∃ slot, handoff = some slot ∧ slot.ref = .competence index := by
  obtain ⟨hmem, hrefs⟩ := h.of_pattern
  have hposition := hlinked.last definition hmem position index hstep
  have hlast : definition.steps.getLast? = some (.competence index) := by
    rw [List.getLast?_eq_getElem?, ← hposition, Nat.add_sub_cancel, hstep]
  rw [Step.trailing?, hlast] at hrefs
  exact Option.map_eq_some_iff.1 hrefs

/-- What a reference is to is no action. -/
theorem Cell.Serves.ne_action {ref : NodeRef Nat} {cell : Cell}
    (h : cell.Serves library (.node ref)) (capability : Capability) :
    cell ≠ .action capability := by
  intro hcell
  subst hcell
  unfold Serves at h
  cases ref with
  | competence | pattern =>
    rw [Library.instantiateTarget, Library.instantiate] at h
    split at h <;> cases h

/-! ## Entering -/

/-- What entering a slot comes to: the instance in it, or else a new one at the end of the
heap. -/
inductive Slot.Entered (library : Library Nat) (heap : Heap) (slot : Slot) :
    Handle → Slot → Heap → Prop
  | again {handle : Handle} : slot.held = some handle → Entered library heap slot handle slot heap
  | made {cell : Cell} : slot.held = none → library.instantiate slot.ref = .ok cell →
      Entered library heap slot heap.length { slot with held := some heap.length }
        (heap ++ [cell])

/-- A node that the library has can always be instantiated, so entering an empty slot cannot fail.
-/
theorem Library.Has.exists_instantiate {ref : NodeRef Nat} (h : library.Has ref) :
    ∃ cell, library.instantiate ref = .ok cell := by
  cases ref with
  | competence index =>
    rw [instantiate, List.getElem?_eq_getElem h]
    exact ⟨_, rfl⟩
  | pattern index =>
    rw [instantiate, List.getElem?_eq_getElem h]
    exact ⟨_, rfl⟩

/-- A slot that was entered holds the handle that entering gave, and refers to the same node as
before. -/
theorem Slot.Entered.held_eq {slot slot' : Slot} {heap heap' : Heap} {handle : Handle}
    (h : slot.Entered library heap handle slot' heap') :
    slot'.held = some handle ∧ slot'.ref = slot.ref := by
  cases h with
  | again hheld => exact ⟨hheld, rfl⟩
  | made => exact ⟨rfl, rfl⟩

/-- A slot whose reference is in range can be entered. -/
theorem Slot.enter_entered {slot : Slot} (h : library.Has slot.ref) (heap : Heap) :
    ∃ handle slot' heap', slot.enter library heap = .ok (handle, slot', heap') ∧
      slot.Entered library heap handle slot' heap' := by
  unfold enter
  cases hheld : slot.held with
  | some handle => exact ⟨handle, slot, heap, rfl, .again hheld⟩
  | none =>
    obtain ⟨cell, hcell⟩ := h.exists_instantiate
    rw [hcell]
    exact ⟨_, _, _, rfl, .made hheld hcell⟩

/-! ## Firing -/

/-- What firing a cell comes to where firing its node has the given result: the same move, and
what that does to the slots of the cell and to the heap. -/
inductive Passage (library : Library Nat) (heap : Heap) (cell : Cell) :
    Except ε Move → Except (Trouble ε) Jump → Cell → Heap → Prop
  | failed {cell' : Cell} (e : ε) : cell'.slot? = cell.slot? →
      Passage library heap cell (.error e) (.error (.raised e)) cell' heap
  | stayed {cell' : Cell} : cell'.slot? = cell.slot? →
      Passage library heap cell (.ok .stay) (.ok .stay) cell' heap
  | returned {cell' : Cell} : cell'.slot? = cell.slot? →
      Passage library heap cell (.ok .home) (.ok .home) cell' heap
  | entered {cell' : Cell} {site : Site} {slot slot' : Slot} {handle : Handle} {heap' : Heap} :
      cell.slot? site = some slot → slot.Entered library heap handle slot' heap' →
      (∀ other, cell'.slot? other = if other = site then some slot' else cell.slot? other) →
      Passage library heap cell (.ok (.enter site (slot.ref.named library)))
        (.ok (.enter handle)) cell' heap'

/-- A cell was fired as its node was, which is the given one afterwards. -/
structure Matched (library : Library Nat) (heap : Heap) (cell : Cell) (moved : Except ε Move)
    (node : Node) (result : Except (Trouble ε) Jump) (cell' : Cell) (heap' : Heap) : Prop where
  read : cell'.read library = node
  vacant : cell'.vacant = cell.vacant
  passage : Passage library heap cell moved result cell' heap'

namespace ElementCell

variable {world : World ω ε}

section Attempt

variable {cell : ElementCell} {w w' : ω}

/-- An element that reads as one that is not ready is not ready. -/
theorem attempt_of_unready (heap : Heap)
    (h : (cell.read library).ready world w = (.ok false, w')) :
    cell.attempt library world (heap, w) = (.ok none, cell, heap, w') := by
  rcases ElementState.ready_eq_false.1 h with htrigger | ⟨htrigger, hspent⟩
  · have hholds : cell.element.trigger.holds world w = (.ok false, w') := htrigger
    rw [attempt, hholds]
  · have hholds : cell.element.trigger.holds world w = (.ok true, w') := htrigger
    have hexhausted : cell.exhausted = true := hspent
    rw [attempt, hholds]
    simp only [hexhausted, if_true]

/-- Where the trigger of an element fails in the reading, the attempt on the cell fails with that
error and changes no cell. -/
theorem attempt_of_error {e : ε} (heap : Heap)
    (h : (cell.read library).ready world w = (.error e, w')) :
    cell.attempt library world (heap, w) = (.error (.raised e), cell, heap, w') := by
  have htrigger : cell.element.trigger.holds world w = (.error e, w') :=
    ElementState.ready_eq_error.1 h
  rw [attempt, htrigger]

/-- An element that reads as one that is ready is fired. -/
theorem attempt_of_ready {w₁ : ω} {heap heap' : Heap} {cell' : ElementCell}
    {result : Except (Trouble ε) Jump} (h : (cell.read library).ready world w = (.ok true, w₁))
    (hfire : cell.fire library world (heap, w₁) = (result, cell', heap', w')) :
    cell.attempt library world (heap, w) = (result.map some, cell', heap', w') := by
  obtain ⟨htrigger, hspared⟩ := ElementState.ready_eq_true.1 h
  have hholds : cell.element.trigger.holds world w = (.ok true, w₁) := htrigger
  have hexhausted : cell.exhausted = false := hspared
  rw [attempt, hholds]
  simp only [hexhausted, Bool.false_eq_true, if_false, hfire]
  cases result <;> rfl

end Attempt

/-- What is passed over as nodes is passed over as cells, and leaves the heap as it was. -/
theorem passed {cells : List ElementCell} {w w' : ω} (heap : Heap)
    (h : Passed (ElementState.attempt world) (cells.map (read library)) w w') :
    Passed (attempt library world) cells (heap, w) (heap, w') := by
  induction cells generalizing w with
  | nil =>
    cases h
    exact .nil _
  | cons cell cells ih =>
    cases h with
    | cons hcell hrest =>
      rw [ElementState.attempt_eq_guarded] at hcell
      exact .cons (attempt_of_unready heap (guarded_eq_none.1 hcell).1) (ih hrest)

end ElementCell

namespace Cell

variable {world : World ω ε} {definition : Competence Nat} {above below : List (List ElementCell)}
  {before after : List ElementCell} {cell cell' : ElementCell}

/-- A change of one element changes the slot at its site and no other. -/
theorem slot?_replace (definition : Competence Nat) (above below : List (List ElementCell))
    (before after : List ElementCell) (cell cell' : ElementCell) (site : Site) :
    (competence definition (above ++ (before ++ cell' :: after) :: below)).slot? site =
      if site = .element (above.flatten.length + before.length) then cell'.aim.slot?
      else (competence definition (above ++ (before ++ cell :: after) :: below)).slot? site := by
  cases site with
  | root | handoff => rfl
  | element position =>
    have hflatten : ∀ cell : ElementCell,
        (above ++ (before ++ cell :: after) :: below).flatten =
          (above.flatten ++ before) ++ cell :: (after ++ below.flatten) := by
      intro cell
      simp
    rw [slot?, slot?, hflatten, hflatten]
    have hlength : above.flatten.length + before.length = (above.flatten ++ before).length :=
      List.length_append.symm
    rw [hlength]
    -- Before the place nothing changes, and behind it the elements keep their numbers.
    by_cases hposition : position = (above.flatten ++ before).length
    · subst hposition
      simp
    · rw [if_neg (by simpa using hposition)]
      rcases Nat.lt_or_gt_of_ne hposition with hlt | hgt
      · rw [List.getElem?_append_left hlt, List.getElem?_append_left hlt]
      · obtain ⟨rest, rfl⟩ := Nat.exists_eq_add_of_lt hgt
        have hrest : (above.flatten ++ before).length + rest + 1 -
            (above.flatten ++ before).length = rest + 1 := by omega
        rw [List.getElem?_append_right (by omega), List.getElem?_append_right (by omega), hrest]
        rfl

/-- The same where the changed element has the slot that it had. -/
theorem slot?_replace_same (haim : cell'.aim = cell.aim) :
    (competence definition (above ++ (before ++ cell' :: after) :: below)).slot? =
      (competence definition (above ++ (before ++ cell :: after) :: below)).slot? := by
  funext site
  rw [slot?_replace definition above below before after cell cell']
  split
  · rename_i hsite
    subst hsite
    rw [slot?_replace definition above below before after cell cell, if_pos rfl, haim]
  · rfl

theorem vacant_replace (hvacant : cell'.vacant = cell.vacant) :
    (competence definition (above ++ (before ++ cell' :: after) :: below)).vacant =
      (competence definition (above ++ (before ++ cell :: after) :: below)).vacant := by
  simp only [vacant, List.map_append, List.map_cons, hvacant]

/-- Replacing one element cell replaces, in what is read of the competence, the element at that
place. -/
theorem read_replace (definition : Competence Nat) (above below : List (List ElementCell))
    (before after : List ElementCell) (cell' : ElementCell) :
    (competence definition (above ++ (before ++ cell' :: after) :: below)).read library =
      .competence definition.name definition.goal
        (above.map (fun level => level.map (ElementCell.read library)) ++
          (before.map (ElementCell.read library) ++ cell'.read library ::
            after.map (ElementCell.read library)) ::
          below.map fun level => level.map (ElementCell.read library)) := by
  simp only [read, List.map_append, List.map_cons]

/-- Elements in levels that read as given ones stand in the same places. -/
theorem exists_of_map_levels_eq {levels : List (List ElementCell)}
    {above below : List (List ElementState)} {before after : List ElementState}
    {state : ElementState}
    (h : levels.map (fun level => level.map (ElementCell.read library)) =
      above ++ (before ++ state :: after) :: below) :
    ∃ above' before' cell after' below',
      levels = above' ++ (before' ++ cell :: after') :: below' ∧
        above'.map (fun level => level.map (ElementCell.read library)) = above ∧
        before'.map (ElementCell.read library) = before ∧ cell.read library = state ∧
        after'.map (ElementCell.read library) = after ∧
        below'.map (fun level => level.map (ElementCell.read library)) = below := by
  obtain ⟨above', rest, rfl, habove, hrest⟩ := List.map_eq_append_iff.1 h
  obtain ⟨level, below', rfl, hlevel, hbelow⟩ := List.map_eq_cons_iff.1 hrest
  obtain ⟨before', rest, rfl, hbefore, hrest⟩ := List.map_eq_append_iff.1 hlevel
  obtain ⟨cell, after', rfl, hcell, hafter⟩ := List.map_eq_cons_iff.1 hrest
  exact ⟨above', before', cell, after', below', rfl, habove, hbefore, hcell, hafter, hbelow⟩

end Cell

/-- A ready element is fired where the element that it reads as is. -/
theorem ElementCell.fire_passage {world : World ω ε} {cell : ElementCell}
    {definition : Competence Nat} {above below : List (List ElementCell)}
    {before after : List ElementCell}
    (hhas : ∀ site slot,
      (Cell.competence definition (above ++ (before ++ cell :: after) :: below)).slot? site =
        some slot → library.Has slot.ref) (heap : Heap)
    {w w' : ω} {fired : Except ε (Option NodeRef)} {state : ElementState}
    (h : (cell.read library).fire world w = (fired, state, w')) :
    ∃ result cell' heap', cell.fire library world (heap, w) = (result, cell', heap', w') ∧
      cell'.read library = (cell.read library).spend ∧ cell'.vacant = cell.vacant ∧
      Passage library heap
        (.competence definition (above ++ (before ++ cell :: after) :: below))
        (fired.map fun ref? => .ofReady (some (above.flatten.length + before.length, ref?)))
        result (.competence definition (above ++ (before ++ cell' :: after) :: below)) heap' := by
  have htarget : (cell.read library).element.target = cell.aim.target.named library := rfl
  rw [ElementState.fire, htarget] at h
  unfold ElementCell.fire
  cases haim : cell.aim with
  | action capability =>
    rw [haim] at h
    dsimp only [Aim.target, Target.named] at h ⊢
    rcases hact : world.act capability w with ⟨answer, w₁⟩
    rw [hact] at h
    cases answer with
    | ok succeeded =>
      cases h
      exact ⟨_, _, _, rfl, rfl, rfl, .returned (Cell.slot?_replace_same rfl)⟩
    | error e =>
      cases h
      exact ⟨_, _, _, rfl, rfl, rfl, .failed e (Cell.slot?_replace_same rfl)⟩
  | node slot =>
    rw [haim] at h
    cases h
    have hslot : (Cell.competence definition
        (above ++ (before ++ cell :: after) :: below)).slot?
          (.element (above.flatten.length + before.length)) = some slot := by
      rw [Cell.slot?_replace definition above below before after cell cell, if_pos rfl, haim]
      rfl
    -- The slot is that of this site, so its reference is in range and it can be entered.
    obtain ⟨handle, slot', heap', henter, hentered⟩ := Slot.enter_entered (hhas _ _ hslot) heap
    have href : slot'.ref = slot.ref := by cases hentered <;> rfl
    dsimp only
    rw [henter]
    refine ⟨_, _, _, rfl, ?_, ?_, .entered hslot hentered fun other => ?_⟩
    · simp only [read, spend, ElementState.spend, Aim.target, haim, href]
    · simp only [vacant, spend, Aim.vacant, Slot.vacant, haim, href]
    · exact Cell.slot?_replace definition above below before after cell _ other

namespace Cell

variable {world : World ω ε}

/-- A competence is fired where the one that it reads as is. -/
theorem fire_competence {definition : Competence Nat} {levels : List (List ElementCell)}
    (hhas : ∀ site slot, (competence definition levels).slot? site = some slot →
      library.Has slot.ref) (heap : Heap) {w w' : ω} {moved : Except ε Move}
    {states : List (List ElementState)}
    (h : Competed world definition.goal w
      (levels.map fun level => level.map (ElementCell.read library)) moved states w') :
    ∃ result cell' heap',
      (competence definition levels).fire library world (heap, w) =
          (result, cell', heap', w') ∧
        Matched library heap (.competence definition levels) moved
          (.competence definition.name definition.goal states) result cell' heap' := by
  -- The levels are told apart as they are read, and found again as cells.
  generalize hstates : (levels.map fun level => level.map (ElementCell.read library)) = read at h
  rw [fire, fireCompetence]
  cases h with
  | goalFailed hgoal =>
    subst hstates
    rw [hgoal]
    exact ⟨_, _, _, rfl, rfl, rfl, .failed _ rfl⟩
  | reached hgoal =>
    subst hstates
    rw [hgoal]
    exact ⟨_, _, _, rfl, rfl, rfl, .returned rfl⟩
  | unready hgoal hpassed =>
    subst hstates
    rw [← List.map_flatten] at hpassed
    rw [hgoal]
    dsimp only
    rw [(ElementCell.passed heap hpassed).firstReadyByLevel_eq]
    exact ⟨_, _, _, rfl, rfl, rfl, .returned rfl⟩
  | @triggerFailed _ _ _ _ _ e w₁ w₂ _ hgoal hpassed hready =>
    obtain ⟨above, before, cell, after, below, rfl, rfl, rfl, rfl, rfl, rfl⟩ :=
      exists_of_map_levels_eq hstates
    rw [← List.map_flatten, ← List.map_append] at hpassed
    have hattempt := ElementCell.attempt_of_error heap hready
    rw [hgoal]
    dsimp only
    rw [(ElementCell.passed heap hpassed).firstReadyByLevel_decided hattempt (by simp)]
    exact ⟨_, _, _, rfl, read_replace .., rfl, .failed _ rfl⟩
  | @fired _ _ _ _ _ fired w₁ w₂ w₃ _ hgoal hpassed hready hfire =>
    obtain ⟨above, before, cell, after, below, rfl, rfl, rfl, rfl, rfl, rfl⟩ :=
      exists_of_map_levels_eq hstates
    rw [← List.map_flatten, ← List.map_append] at hpassed
    obtain ⟨result, cell', heap', hcell, hread, hvacant, hpassage⟩ :=
      ElementCell.fire_passage hhas heap hfire
    have hattempt := ElementCell.attempt_of_ready hready hcell
    have hsome : result.map some ≠ .ok none := by cases result <;> simp [Except.map]
    have hpositions : (above.map fun level => level.map (ElementCell.read library)).flatten.length =
        above.flatten.length := by
      rw [← List.map_flatten, List.length_map]
    rw [hgoal]
    dsimp only
    rw [(ElementCell.passed heap hpassed).firstReadyByLevel_decided hattempt hsome, hpositions,
      List.length_map]
    refine ⟨result, _, heap', ?_, ?_, vacant_replace hvacant, hpassage⟩
    · cases result <;> rfl
    · rw [← hread]
      exact read_replace ..

theorem slot?_pattern (definition : Pattern Nat) (cursor cursor' : Nat) (handoff : Option Slot) :
    (pattern definition cursor handoff).slot? = (pattern definition cursor' handoff).slot? := by
  funext site
  cases site <;> rfl

/-- A step that is taken gives its answer to the pattern, whichever kind of step it is. -/
theorem firePattern_taken {definition : Pattern Nat} {cursor : Nat} (handoff : Option Slot)
    {step : Step Nat} (hstep : definition.steps[cursor]? = some step) (heap : Heap) {w w' : ω}
    {answer : Except ε Bool} (h : (step.named library).Taken world w answer w') :
    firePattern library world definition cursor handoff (heap, w) =
      afterStep definition cursor handoff heap (answer, w') := by
  rw [firePattern, hstep]
  cases step with
  | action capability =>
    cases h with
    | acted hact => rw [← hact]
  | sense sense =>
    cases h with
    | sensed hholds => rw [← hholds]
  | competence index => cases h

/-- A pattern goes on after a step as the one that it reads as does. -/
theorem afterStep_matched (definition : Pattern Nat) (cursor : Nat) (handoff : Option Slot)
    (heap : Heap) (succeeded : Bool) (w : ω) :
    ∃ result cell', afterStep (ε := ε) definition cursor handoff heap (.ok succeeded, w) =
        (result, cell', heap, w) ∧
      Matched library heap (.pattern definition cursor handoff)
        (.ok (Engine.afterStep (definition.steps.map (Step.named library)) cursor succeeded).1)
        (.pattern definition.name (definition.steps.map (Step.named library))
          (Engine.afterStep (definition.steps.map (Step.named library)) cursor succeeded).2)
        result cell' heap := by
  rw [afterStep, Engine.afterStep, List.length_map]
  cases succeeded && decide (cursor + 1 < definition.steps.length) with
  | true => exact ⟨_, _, rfl, rfl, rfl, .stayed (slot?_pattern ..)⟩
  | false => exact ⟨_, _, rfl, rfl, rfl, .returned (slot?_pattern ..)⟩

/-- A pattern at the step that names a competence starts over, and hands over to the instance of
its slot. -/
theorem firePattern_handoff {definition : Pattern Nat} {cursor index : Nat} {slot : Slot}
    (hstep : definition.steps[cursor]? = some (.competence index))
    (href : slot.ref = .competence index) (hhas : library.Has slot.ref) (heap : Heap) (w : ω) :
    ∃ result cell' heap',
      firePattern library world definition cursor (some slot) (heap, w) =
          (result, cell', heap', w) ∧
        Matched library heap (.pattern definition cursor (some slot))
          (.ok (.enter .handoff ((NodeRef.competence index).named library)))
          (.pattern definition.name (definition.steps.map (Step.named library)) 0) result cell'
          heap' := by
  obtain ⟨handle, slot', heap', henter, hentered⟩ := Slot.enter_entered hhas heap
  have href' := hentered.held_eq.2
  have hpassage : Passage (ε := ε) library heap (.pattern definition cursor (some slot))
      (.ok (.enter .handoff (slot.ref.named library))) (.ok (.enter handle))
      (.pattern definition 0 (some slot')) heap' :=
    .entered rfl hentered fun other => by cases other <;> rfl
  rw [href] at hpassage
  rw [firePattern, hstep]
  dsimp only
  rw [Option.getD_some, henter]
  refine ⟨_, _, _, rfl, rfl, ?_, hpassage⟩
  simp only [vacant, Option.map_some, Slot.vacant, href']

/-- A pattern is fired where the one that it reads as is. -/
theorem fire_pattern {target : Target Nat} {definition : Pattern Nat} {cursor : Nat}
    {handoff : Option Slot} (hlinked : library.Linked)
    (hserves : (pattern definition cursor handoff).Serves library target) (heap : Heap)
    {w w' : ω} {moved : Except ε Move} {node : Node}
    (h : Node.Enacted world w ((pattern definition cursor handoff).read library) moved node w') :
    ∃ result cell' heap',
      (pattern definition cursor handoff).fire library world (heap, w) =
          (result, cell', heap', w') ∧
        Matched library heap (.pattern definition cursor handoff) moved node result cell'
          heap' := by
  unfold read at h
  rw [fire]
  cases h with
  | ended _ hnone =>
    rw [List.getElem?_map, Option.map_eq_none_iff] at hnone
    rw [firePattern, hnone]
    exact ⟨_, _, _, rfl, rfl, rfl, .returned (slot?_pattern ..)⟩
  | handedOff _ hstep =>
    rw [List.getElem?_map, Option.map_eq_some_iff] at hstep
    obtain ⟨step, hstep, hnamed⟩ := hstep
    -- A step by number is named as what it is, so the kind of the one tells that of the other.
    cases step with
    | action | sense => cases hnamed
    | competence index =>
      cases hnamed
      obtain ⟨slot, rfl, href⟩ := hserves.exists_handoff hlinked hstep
      have hhas : library.Has slot.ref :=
        hserves.has_of_slot? hlinked (rfl : slot? _ .handoff = some slot)
      exact firePattern_handoff hstep href hhas heap _
  | @stepped _ _ _ step succeeded _ hstep htaken =>
    rw [List.getElem?_map, Option.map_eq_some_iff] at hstep
    obtain ⟨step, hstep, rfl⟩ := hstep
    rw [firePattern_taken handoff hstep heap htaken]
    obtain ⟨result, cell', hafter, hmatched⟩ :=
      afterStep_matched (ε := ε) definition cursor handoff heap succeeded w'
    exact ⟨result, cell', heap, hafter, hmatched⟩
  | stepFailed _ hstep htaken =>
    rw [List.getElem?_map, Option.map_eq_some_iff] at hstep
    obtain ⟨step, hstep, rfl⟩ := hstep
    rw [firePattern_taken handoff hstep heap htaken]
    exact ⟨_, _, _, rfl, rfl, rfl, .failed _ rfl⟩

/-- A cell is fired where the node that it reads as is. -/
theorem fire_matched {target : Target Nat} {cell : Cell} (hlinked : library.Linked)
    (hserves : cell.Serves library target) (heap : Heap) {w w' : ω} {moved : Except ε Move}
    {node : Node} (h : (cell.read library).fire world w = (moved, node, w')) :
    ∃ result cell' heap', cell.fire library world (heap, w) = (result, cell', heap', w') ∧
      Matched library heap cell moved node result cell' heap' := by
  have henacted := Node.fire_enacted h
  cases cell with
  | action capability =>
    rw [read] at henacted
    rw [fire]
    cases henacted with
    | @called _ answer _ hact =>
      rw [hact]
      cases answer with
      | ok succeeded => exact ⟨_, _, _, rfl, rfl, rfl, .returned rfl⟩
      | error e => exact ⟨_, _, _, rfl, rfl, rfl, .failed e rfl⟩
  | competence definition levels =>
    rw [read] at henacted
    cases henacted with
    | competed _ hcompeted =>
      exact fire_competence (fun _ _ => hserves.has_of_slot? hlinked) heap hcompeted
  | pattern definition cursor handoff => exact fire_pattern hlinked hserves heap henacted

end Cell

end SlipStack.Engine
