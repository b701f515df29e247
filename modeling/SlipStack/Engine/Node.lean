import SlipStack.Engine.Library
import SlipStack.Engine.Priority

/-!
# Nodes

A `Node` is a competence or action pattern in use, or a plain action: the definition
together with the retries spent on each element, or with the place in the pattern.
`Node.fire` evaluates a node once and answers with a `Move`, which tells where the
evaluation goes on the next time: at the same node, back at the root, or in a node that the
fired one refers to. A failing capability leaves pattern and cursor as they are.
-/

namespace SlipStack.Engine

/-- An element of a competence with the retries spent on it. -/
structure ElementState where
  element : Element
  retries : Nat
  deriving DecidableEq, Repr

namespace ElementState

def fresh (element : Element) : ElementState := ⟨element, 0⟩

/-- The element with its retries given back. -/
def reset (state : ElementState) : ElementState := fresh state.element

/-- Whether the limit on retries forbids another attempt. -/
def exhausted (state : ElementState) : Bool :=
  0 ≤ state.element.maxRetries && state.element.maxRetries < state.retries

/-- The element with one more retry spent. -/
def spend (state : ElementState) : ElementState :=
  { state with retries := state.retries + 1 }

end ElementState

/-- A node of a plan in use. -/
inductive Node where
  | action (capability : Capability)
  | competence (name : String) (goal : Trigger) (levels : List (List ElementState))
  | pattern (name : String) (steps : List Step) (cursor : Nat)
  deriving DecidableEq, Repr

/-- The place of a node in the one that refers to it. -/
inductive Site where
  /-- What a drive element fires. -/
  | root
  /-- What an element of a competence fires; the positions of elements count through all
  levels. -/
  | element (position : Nat)
  /-- The competence that a pattern ends in. -/
  | handoff
  deriving DecidableEq, Repr

/-- Where evaluation goes on after a node was fired. -/
inductive Move where
  /-- At the same node. -/
  | stay
  /-- At the root. -/
  | home
  /-- In a node that the fired one refers to. -/
  | enter (site : Site) (ref : NodeRef)
  deriving DecidableEq, Repr

/-! ## Making and resetting -/

namespace Competence

/-- The competence with no retries spent. -/
def fresh (competence : Competence) : Node :=
  .competence competence.name competence.goal
    (competence.levels.map fun level => level.map ElementState.fresh)

end Competence

namespace Pattern

/-- The pattern at its first step. -/
def fresh (pattern : Pattern) : Node :=
  .pattern pattern.name pattern.steps 0

end Pattern

/-- A node for a reference as it is before its first use. A name without definition stands
for a competence or pattern without content; built plans have no such names. -/
def Library.fresh (library : Library) : NodeRef → Node
  | .competence name => ((library.competence? name).getD ⟨name, [], []⟩).fresh
  | .pattern name => ((library.pattern? name).getD ⟨name, []⟩).fresh

/-- A node for a target as it is before its first use. -/
def Library.freshTarget (library : Library) : Target → Node
  | .action capability => .action capability
  | .node ref => library.fresh ref

/-- The node as it was before its first use. -/
def Node.reset : Node → Node
  | .action capability => .action capability
  | .competence name goal levels =>
    .competence name goal (levels.map fun level => level.map ElementState.reset)
  | .pattern name steps _ => .pattern name steps 0

/-! ## Firing -/

variable {ω ε : Type}

/-- Tries an element of a competence. It is ready if its trigger holds and its retries are
not used up, and being ready costs one retry. An action is called at once, whatever it
answers; a node waits for the next evaluation, which is what the result tells. -/
def ElementState.attempt (world : World ω ε) :
    Attempt ω ε ElementState (Option NodeRef) := fun state w =>
  match state.element.trigger.holds world w with
  | (.error e, w) => (.error e, state, w)
  | (.ok false, w) => (.ok none, state, w)
  | (.ok true, w) =>
    if state.exhausted then (.ok none, state, w)
    else
      -- From here on the element is ready, which costs a retry whatever follows.
      match state.element.target with
      | .node ref => (.ok (some (some ref)), state.spend, w)
      | .action capability =>
        match world.act capability w with
        | (.ok _, w) => (.ok (some none), state.spend, w)
        | (.error e, w) => (.error e, state.spend, w)

/-- The move of a competence in which the given element was ready. -/
def Move.ofReady : Option (Nat × Option NodeRef) → Move
  | some (position, some ref) => .enter (.element position) ref
  | _ => .home

/-- Fires a competence: a reached goal ends it, and so does an action of its first ready
element, or the lack of a ready element. -/
def fireCompetence (world : World ω ε) (goal : Trigger) (levels : List (List ElementState))
    (w : ω) : Except ε Move × List (List ElementState) × ω :=
  match goal.reached world w with
  | (.error e, w) => (.error e, levels, w)
  | (.ok true, w) => (.ok .home, levels, w)
  | (.ok false, w) =>
    match firstReadyByLevel (ElementState.attempt world) 0 levels w with
    | (.error e, levels, w) => (.error e, levels, w)
    | (.ok ready, levels, w) => (.ok (.ofReady ready), levels, w)

/-- What a pattern does after the step at `cursor` succeeded or not: on failure and after
the last step it starts over. -/
def afterStep (steps : List Step) (cursor : Nat) (succeeded : Bool) : Move × Nat :=
  if succeeded && cursor + 1 < steps.length then (.stay, cursor + 1) else (.home, 0)

/-- Takes the step of a pattern at `cursor`. -/
def firePattern (world : World ω ε) (steps : List Step) (cursor : Nat) (w : ω) :
    Except ε (Move × Nat) × ω :=
  match steps[cursor]? with
  | none => (.ok (.home, 0), w)
  | some (.competence name) => (.ok (.enter .handoff (.competence name), 0), w)
  | some (.action capability) =>
    match world.act capability w with
    | (.ok succeeded, w) => (.ok (afterStep steps cursor succeeded), w)
    | (.error e, w) => (.error e, w)
  | some (.sense sense) =>
    match sense.holds world w with
    | (.ok passed, w) => (.ok (afterStep steps cursor passed), w)
    | (.error e, w) => (.error e, w)

/-- Fires a node once. -/
def Node.fire (world : World ω ε) (node : Node) (w : ω) : Except ε Move × Node × ω :=
  match node with
  | .action capability =>
    match world.act capability w with
    | (.ok _, w) => (.ok .home, node, w)
    | (.error e, w) => (.error e, node, w)
  | .competence name goal levels =>
    match fireCompetence world goal levels w with
    | (result, levels, w) => (result, .competence name goal levels, w)
  | .pattern name steps cursor =>
    match firePattern world steps cursor w with
    | (.ok (move, cursor), w) => (.ok move, .pattern name steps cursor, w)
    | (.error e, w) => (.error e, node, w)

end SlipStack.Engine
