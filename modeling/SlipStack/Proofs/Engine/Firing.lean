import SlipStack.Proofs.Engine.Ready

/-!
# All that firing a node can do

`Node.Fired` lists what firing a node comes to: at most one element spends one retry, or the
pattern goes to another step. The move that follows leads to a site of the fired node
(`Node.Fired.site?_eq`). None of this changes what the node is a use of, which is what
`Node.reset` leaves of it.

A pattern refers to one competence only, so the step that names it has to be the last
(`Node.CompetenceLast`).
-/

namespace SlipStack.Engine

variable {ω ε : Type}

/-- Two changes of every element in levels are one. -/
theorem map_levels_map {α β γ : Type} (f : α → β) (g : β → γ) (levels : List (List α)) :
    (levels.map fun level => level.map f).map (fun level => level.map g) =
      levels.map fun level => level.map (g ∘ f) := by
  rw [List.map_map]
  exact List.map_congr_left fun level _ => List.map_map

@[simp]
theorem ElementState.reset_spend (state : ElementState) : state.spend.reset = state.reset := by
  rw [reset, spend, reset]

/-! ## Sites -/

/-- The competence or action pattern that a target refers to. -/
def Target.ref? : Target → Option NodeRef
  | .action _ => none
  | .node ref => some ref

namespace Node

/-- What a node refers to at a site. -/
def site? : Node → Site → Option NodeRef
  | .competence _ _ levels, .element position =>
    levels.flatten[position]?.bind (·.element.target.ref?)
  | .pattern _ steps _, .handoff => Step.trailing? steps
  | _, _ => none

/-- Only the last step of a pattern names a competence. -/
def CompetenceLast : Node → Prop
  | .pattern _ steps _ =>
    ∀ (position : Nat) (name : String), steps[position]? = some (.competence name) →
      position + 1 = steps.length
  | _ => True

/-- A reset of a node does not change what it leads to, so paths below it stay valid. -/
theorem site?_reset (node : Node) (site : Site) : node.reset.site? site = node.site? site := by
  match node, site with
  | .action _, _ => rfl
  | .competence _ _ _, .root | .competence _ _ _, .handoff => rfl
  | .pattern _ _ _, .root | .pattern _ _ _, .element _ | .pattern _ _ _, .handoff => rfl
  | .competence name goal levels, .element position =>
    rw [reset, site?, site?, ← List.map_flatten, List.getElem?_map]
    cases levels.flatten[position]? <;> rfl

/-- Nodes that are uses of the same definition refer to the same at every site. -/
theorem site?_congr {node node' : Node} (h : node.reset = node'.reset) (site : Site) :
    node.site? site = node'.site? site := by
  rw [← site?_reset node, h, site?_reset]

theorem reset_reset (node : Node) : node.reset.reset = node.reset := by
  cases node with
  | action | pattern => rfl
  | competence name goal levels =>
    rw [reset, reset, map_levels_map]
    rfl

/-! ## Firing -/

/-- What firing a node comes to. -/
inductive Fired : Node → Except ε Move → Node → Prop
  /-- An action, a sense of a goal or trigger, or the step of a pattern failed. -/
  | failed (node : Node) (e : ε) : Fired node (.error e) node
  /-- An action was called, a goal was reached, or no element was ready. -/
  | done {node : Node} : (∀ name steps cursor, node ≠ .pattern name steps cursor) →
      Fired node (.ok .home) node
  /-- The action of an element was called. -/
  | called {name : String} {goal : Trigger} {above below : List (List ElementState)}
      {before after : List ElementState} {state : ElementState} {capability : Capability} :
      state.element.target = .action capability → state.exhausted = false →
      Fired (.competence name goal (above ++ (before ++ state :: after) :: below)) (.ok .home)
        (.competence name goal (above ++ (before ++ state.spend :: after) :: below))
  | callFailed {name : String} {goal : Trigger} {above below : List (List ElementState)}
      {before after : List ElementState} {state : ElementState} {capability : Capability}
      (e : ε) : state.element.target = .action capability → state.exhausted = false →
      Fired (.competence name goal (above ++ (before ++ state :: after) :: below)) (.error e)
        (.competence name goal (above ++ (before ++ state.spend :: after) :: below))
  /-- The node of an element is entered. -/
  | entered {name : String} {goal : Trigger} {above below : List (List ElementState)}
      {before after : List ElementState} {state : ElementState} {ref : NodeRef} :
      state.element.target = .node ref → state.exhausted = false →
      Fired (.competence name goal (above ++ (before ++ state :: after) :: below))
        (.ok (.enter (.element (above.flatten.length + before.length)) ref))
        (.competence name goal (above ++ (before ++ state.spend :: after) :: below))
  /-- A step succeeded that is not the last. -/
  | advanced {name : String} {steps : List Step} {cursor : Nat} : cursor + 1 < steps.length →
      Fired (.pattern name steps cursor) (.ok .stay) (.pattern name steps (cursor + 1))
  /-- A step did not succeed, or the last one did. -/
  | restarted (name : String) (steps : List Step) (cursor : Nat) :
      Fired (.pattern name steps cursor) (.ok .home) (.pattern name steps 0)
  /-- The competence that a pattern ends in is entered. -/
  | handedOff {name : String} {steps : List Step} {cursor : Nat} {next : String} :
      steps[cursor]? = some (.competence next) →
      Fired (.pattern name steps cursor) (.ok (.enter .handoff (.competence next)))
        (.pattern name steps 0)

/-- What became of the elements of a competence is a firing of the competence as a node: its
definition stays, and it moves as the element found ready says. -/
theorem competed_fired {world : World ω ε} (name : String) {goal : Trigger}
    {levels levels' : List (List ElementState)} {w w' : ω} {result : Except ε Move}
    (h : Competed world goal w levels result levels' w') :
    Fired (.competence name goal levels) result (.competence name goal levels') := by
  cases h with
  | goalFailed | triggerFailed => exact .failed _ _
  | reached | unready => exact .done (by simp)
  | fired _ _ hready hfire =>
    have hexhausted := (ElementState.ready_eq_true.1 hready).2
    rw [ElementState.fire] at hfire
    split at hfire
    · rename_i htarget
      cases hfire
      exact .entered htarget hexhausted
    · rename_i htarget
      split at hfire
      · cases hfire
        exact .called htarget hexhausted
      · cases hfire
        exact .callFailed _ htarget hexhausted

theorem afterStep_fired (name : String) (steps : List Step) (cursor : Nat) (succeeded : Bool) :
    Fired (ε := ε) (.pattern name steps cursor) (.ok (afterStep steps cursor succeeded).1)
      (.pattern name steps (afterStep steps cursor succeeded).2) := by
  unfold afterStep
  split
  case isTrue hmore =>
    rw [Bool.and_eq_true, decide_eq_true_iff] at hmore
    exact .advanced hmore.2
  case isFalse => exact .restarted name steps cursor

/-- The firing of a node is one of the cases of `Fired`, whatever the world answers. Its proof
follows the definition of `Node.fire` case by case. -/
theorem fire_fired {world : World ω ε} {node node' : Node} {w w' : ω} {result : Except ε Move}
    (h : node.fire world w = (result, node', w')) : node.Fired result node' := by
  cases fire_enacted h with
  | @called _ answer =>
    cases answer with
    | ok succeeded => exact .done (by simp)
    | error e => exact .failed _ _
  | competed name hcompeted => exact competed_fired name hcompeted
  | ended name => exact .restarted ..
  | handedOff name hstep => exact .handedOff hstep
  | stepped name => exact afterStep_fired ..
  | stepFailed name => exact .failed _ _

namespace Fired

variable {node node' : Node}

/-- A fired node is a use of the same definition as before. -/
theorem reset_eq {result : Except ε Move} (h : node.Fired result node') :
    node'.reset = node.reset := by
  cases h with
  | failed | done | advanced | restarted | handedOff => rfl
  | called | callFailed | entered => simp [reset]

/-- Evaluation goes on at a site of the node that was fired. -/
theorem site?_eq {site : Site} {ref : NodeRef} (hlast : node.CompetenceLast)
    (h : node.Fired (ε := ε) (.ok (.enter site ref)) node') : node.site? site = some ref := by
  cases h with
  | @entered name goal above below before after state ref htarget =>
    have hposition : (above ++ (before ++ state :: after) :: below).flatten[above.flatten.length +
        before.length]? = some state := by
      simp
    rw [site?, hposition]
    simp [htarget, Target.ref?]
  | @handedOff name steps cursor next hstep =>
    have hlength : cursor = steps.length - 1 := by
      have := hlast cursor next hstep
      omega
    rw [site?, Step.trailing?, List.getLast?_eq_getElem?, ← hlength, hstep]

end Fired

end Node

end SlipStack.Engine
