import SlipStack.Engine.Node

/-!
# Instances in memory

The nodes of an agent can be told by their paths (`SlipStack.Engine.Instances`), or be kept as
a program keeps them: as cells of a heap that are known by their handles. Every place that
refers to a competence or action pattern is a `Slot`, which holds the handle of the instance
that it was entered with. References are by index.

Nothing in this form rules out that two slots hold the same handle, that a handle leads
nowhere, or that instances hold each other in a circle. What goes wrong then is a `Fault`.
-/

namespace SlipStack.Engine

/-- The place of an instance in memory. -/
abbrev Handle := Nat

/-- What cannot be followed. -/
inductive Fault where
  /-- The library has no definition of this index. -/
  | undefined (ref : NodeRef Nat)
  /-- There is no instance behind the handle. -/
  | dangling (handle : Handle)
  /-- More instances are held below each other than there are. -/
  | endless (handle : Handle)
  deriving DecidableEq, Repr

/-- A fault of the agent itself, or the failure of a capability. -/
inductive Trouble (ε : Type) where
  | fault (fault : Fault)
  | raised (error : ε)
  deriving DecidableEq, Repr

/-! ## Cells -/

/-- A place that refers to a definition, with the instance of its own once it was entered. -/
structure Slot where
  ref : NodeRef Nat
  held : Option Handle
  deriving DecidableEq, Repr

/-- What an element of a competence fires. -/
inductive Aim where
  | action (capability : Capability)
  | node (slot : Slot)
  deriving DecidableEq, Repr

def Aim.ofTarget : Target Nat → Aim
  | .action capability => .action capability
  | .node ref => .node ⟨ref, none⟩

/-- The slot of an element that fires a competence or action pattern. -/
def Aim.slot? : Aim → Option Slot
  | .action _ => none
  | .node slot => some slot

/-- An element of a competence in use, with the retries spent on it. -/
structure ElementCell where
  element : Element Nat
  retries : Nat
  aim : Aim
  deriving DecidableEq, Repr

namespace ElementCell

def fresh (element : Element Nat) : ElementCell :=
  ⟨element, 0, .ofTarget element.target⟩

/-- Whether the limit on retries forbids another attempt. -/
def exhausted (cell : ElementCell) : Bool :=
  0 ≤ cell.element.maxRetries && cell.element.maxRetries < cell.retries

/-- The element with one more retry spent. -/
def spend (cell : ElementCell) : ElementCell :=
  { cell with retries := cell.retries + 1 }

/-- The element with no retries spent. Its slot is as it was. -/
def restart (cell : ElementCell) : ElementCell :=
  { cell with retries := 0 }

end ElementCell

/-- An instance. A pattern has the slot of the competence that it ends in, if it does. -/
inductive Cell where
  | action (capability : Capability)
  | competence (definition : Competence Nat) (levels : List (List ElementCell))
  | pattern (definition : Pattern Nat) (cursor : Nat) (handoff : Option Slot)
  deriving DecidableEq, Repr

/-- The instances of an agent by their handles. -/
abbrev Heap := List Cell

/-- The instance of a competence as it is before its first use. -/
def Competence.cell (definition : Competence Nat) : Cell :=
  .competence definition (definition.levels.map fun level => level.map ElementCell.fresh)

/-- The instance of an action pattern as it is before its first use. -/
def Pattern.cell (definition : Pattern Nat) : Cell :=
  .pattern definition 0 ((Step.trailing? definition.steps).map (⟨·, none⟩))

namespace Library

/-- A new instance of a definition. -/
def instantiate (library : Library Nat) : NodeRef Nat → Except Fault Cell
  | .competence index =>
    match library.competences[index]? with
    | some definition => .ok definition.cell
    | none => .error (.undefined (.competence index))
  | .pattern index =>
    match library.patterns[index]? with
    | some definition => .ok definition.cell
    | none => .error (.undefined (.pattern index))

/-- A new instance of what a target fires. -/
def instantiateTarget (library : Library Nat) : Target Nat → Except Fault Cell
  | .action capability => .ok (.action capability)
  | .node ref => library.instantiate ref

end Library

/-! ## Firing -/

/-- Where a firing leaves the cursor. -/
inductive Jump where
  /-- At the same instance. -/
  | stay
  /-- At the root. -/
  | home
  /-- At the instance that a slot holds. -/
  | enter (handle : Handle)
  deriving DecidableEq, Repr

/-- The instance of a slot, which is made when the slot is entered for the first time. -/
def Slot.enter (library : Library Nat) (slot : Slot) (heap : Heap) :
    Except Fault (Handle × Slot × Heap) :=
  match slot.held with
  | some handle => .ok (handle, slot, heap)
  | none =>
    (library.instantiate slot.ref).map fun cell =>
      (heap.length, { slot with held := some heap.length }, heap ++ [cell])

variable {ω ε : Type}

namespace ElementCell

/-- Fires an element that is ready, which costs a retry whatever follows. -/
def fire (library : Library Nat) (world : World ω ε) (cell : ElementCell) :
    Heap × ω → Except (Trouble ε) Jump × ElementCell × Heap × ω := fun (heap, w) =>
  match cell.aim with
  | .action capability =>
    match world.act capability w with
    | (.ok _, w) => (.ok .home, cell.spend, heap, w)
    | (.error e, w) => (.error (.raised e), cell.spend, heap, w)
  | .node slot =>
    match slot.enter library heap with
    | .ok (handle, slot, heap) =>
      (.ok (.enter handle), { cell.spend with aim := .node slot }, heap, w)
    | .error fault => (.error (.fault fault), cell.spend, heap, w)

/-- Tries an element of a competence. It is ready if its trigger holds and its retries are
not used up. -/
def attempt (library : Library Nat) (world : World ω ε) :
    Attempt (Heap × ω) (Trouble ε) ElementCell Jump := fun cell (heap, w) =>
  match cell.element.trigger.holds world w with
  | (.error e, w) => (.error (.raised e), cell, heap, w)
  | (.ok false, w) => (.ok none, cell, heap, w)
  | (.ok true, w) =>
    if cell.exhausted then (.ok none, cell, heap, w)
    else
      match cell.fire library world (heap, w) with
      | (.ok jump, cell, heap, w) => (.ok (some jump), cell, heap, w)
      | (.error e, cell, heap, w) => (.error e, cell, heap, w)

end ElementCell

namespace Cell

/-- Fires a competence: a reached goal ends it, and so does an action of its first ready
element, or the lack of a ready element. -/
def fireCompetence (library : Library Nat) (world : World ω ε) (definition : Competence Nat)
    (levels : List (List ElementCell)) :
    Heap × ω → Except (Trouble ε) Jump × Cell × Heap × ω := fun (heap, w) =>
  match definition.goal.reached world w with
  | (.error e, w) => (.error (.raised e), competence definition levels, heap, w)
  | (.ok true, w) => (.ok .home, competence definition levels, heap, w)
  | (.ok false, w) =>
    match firstReadyByLevel (ElementCell.attempt library world) 0 levels (heap, w) with
    | (.error e, levels, heap, w) => (.error e, competence definition levels, heap, w)
    | (.ok none, levels, heap, w) => (.ok .home, competence definition levels, heap, w)
    | (.ok (some (_, jump)), levels, heap, w) =>
      (.ok jump, competence definition levels, heap, w)

/-- A pattern after the step at its cursor was taken with the given answer. -/
def afterStep (definition : Pattern Nat) (cursor : Nat) (handoff : Option Slot) (heap : Heap) :
    Except ε Bool × ω → Except (Trouble ε) Jump × Cell × Heap × ω
  | (.error e, w) => (.error (.raised e), pattern definition cursor handoff, heap, w)
  | (.ok succeeded, w) =>
    if succeeded && cursor + 1 < definition.steps.length then
      (.ok .stay, pattern definition (cursor + 1) handoff, heap, w)
    else (.ok .home, pattern definition 0 handoff, heap, w)

/-- Takes the step of a pattern at its cursor. -/
def firePattern (library : Library Nat) (world : World ω ε) (definition : Pattern Nat)
    (cursor : Nat) (handoff : Option Slot) :
    Heap × ω → Except (Trouble ε) Jump × Cell × Heap × ω := fun (heap, w) =>
  match definition.steps[cursor]? with
  | none => (.ok .home, pattern definition 0 handoff, heap, w)
  | some (.action capability) =>
    afterStep definition cursor handoff heap (world.act capability w)
  | some (.sense sense) => afterStep definition cursor handoff heap (sense.holds world w)
  | some (.competence index) =>
    -- A pattern that has no slot gets one here, though one that ends in a competence has it.
    match (handoff.getD ⟨.competence index, none⟩).enter library heap with
    | .ok (handle, slot, heap) =>
      (.ok (.enter handle), pattern definition 0 (some slot), heap, w)
    | .error fault => (.error (.fault fault), pattern definition 0 handoff, heap, w)

/-- Fires an instance once. Instances that are made by it are added to the heap. -/
def fire (library : Library Nat) (world : World ω ε) :
    Cell → Heap × ω → Except (Trouble ε) Jump × Cell × Heap × ω
  | .action capability, (heap, w) =>
    match world.act capability w with
    | (.ok _, w) => (.ok .home, .action capability, heap, w)
    | (.error e, w) => (.error (.raised e), .action capability, heap, w)
  | .competence definition levels, state => fireCompetence library world definition levels state
  | .pattern definition cursor handoff, state =>
    firePattern library world definition cursor handoff state

end Cell

/-! ## Resetting -/

namespace Cell

/-- The slots of an instance, in order. -/
def slots : Cell → List Slot
  | .action _ => []
  | .competence _ levels => levels.flatten.filterMap (·.aim.slot?)
  | .pattern _ _ handoff => handoff.toList

/-- The instance with no retries spent, at its first step. Its slots are as they were. -/
def restart : Cell → Cell
  | .action capability => .action capability
  | .competence definition levels =>
    .competence definition (levels.map fun level => level.map ElementCell.restart)
  | .pattern definition _ handoff => .pattern definition 0 handoff

end Cell

/-- Resets an instance, and with it every one that was entered from it. `depth` is how far
down this may go. -/
def Heap.reset : Nat → Heap → Handle → Except Fault Heap
  | 0, _, handle => .error (.endless handle)
  | depth + 1, heap, handle =>
    match heap[handle]? with
    | none => .error (.dangling handle)
    | some cell =>
      (cell.slots.filterMap (·.held)).foldlM (Heap.reset depth) (heap.set handle cell.restart)

end SlipStack.Engine
