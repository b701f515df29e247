import SlipStack.Engine.Heap
import SlipStack.Engine.Index
import SlipStack.Engine.Run

/-!
# Agents over a heap

A `Machine` is an agent whose instances are in one heap. A drive element holds the handle of
its root and, while it is away from there, the one of the instance at its cursor; nothing
else says where it is. The machine of a plan is made from the built agent: references become
indices, and every drive element gets an instance of what it fires.

A machine makes the same steps as the agent (`SlipStack.Proofs.Engine.Lockstep`).
-/

namespace SlipStack.Engine

/-- A drive element over a heap. -/
structure DriveCell where
  name : String
  trigger : Trigger
  root : Handle
  /-- The instance at the cursor, unless that is the root. -/
  current : Option Handle
  /-- The least time between two firings; a negative one is none. -/
  interval : Option Int
  lastFired : Int
  deriving DecidableEq, Repr

namespace DriveCell

/-- The instance that the next firing evaluates. -/
def cursor (drive : DriveCell) : Handle :=
  drive.current.getD drive.root

/-- The drive element at its root, as if it was never fired. -/
def restart (drive : DriveCell) : DriveCell :=
  { drive with current := none, lastFired := Drive.neverFired }

/-- Whether the interval since the last firing has not passed yet. -/
def tooEarly (drive : DriveCell) (now : Int) : Bool :=
  match drive.interval with
  | some interval => 0 ≤ interval && now - drive.lastFired < interval
  | none => false

def follow (drive : DriveCell) : Jump → DriveCell
  | .stay => drive
  | .home => { drive with current := none }
  | .enter handle => { drive with current := some handle }

variable {ω ε : Type}

/-- Fires the instance at the cursor. After a failure the cursor stays. -/
def fire (library : Library Nat) (world : World ω ε) (drive : DriveCell) :
    Heap × ω → Except (Trouble ε) Unit × DriveCell × Heap × ω := fun (heap, w) =>
  match heap[drive.cursor]? with
  | none => (.error (.fault (.dangling drive.cursor)), drive, heap, w)
  | some cell =>
    match cell.fire library world (heap, w) with
    | (.ok jump, cell, heap, w) => (.ok (), drive.follow jump, heap.set drive.cursor cell, w)
    | (.error e, cell, heap, w) => (.error e, drive, heap.set drive.cursor cell, w)

/-- Tries a drive element at the time `now`. It is ready if its trigger holds and its
interval has passed; then it is fired. -/
def attempt (library : Library Nat) (world : World ω ε) (now : Int) :
    Attempt (Heap × ω) (Trouble ε) DriveCell Unit := fun drive (heap, w) =>
  match drive.trigger.holds world w with
  | (.error e, w) => (.error (.raised e), drive, heap, w)
  | (.ok false, w) => (.ok none, drive, heap, w)
  | (.ok true, w) =>
    if drive.tooEarly now then (.ok none, drive, heap, w)
    else
      -- The attempt counts as a firing even if it fails.
      match { drive with lastFired := now }.fire library world (heap, w) with
      | (.ok (), drive, heap, w) => (.ok (some ()), drive, heap, w)
      | (.error e, drive, heap, w) => (.error e, drive, heap, w)

end DriveCell

/-- An agent over a heap. -/
structure Machine where
  name : String
  discipline : Discipline
  docstring : Option Plan.Docstring
  library : Library Nat
  goal : Trigger
  levels : List (List DriveCell)
  heap : Heap
  clock : Clock
  deriving DecidableEq, Repr

namespace Machine

/-- The time that the clock of a machine shows. -/
def time (machine : Machine) : Int := machine.clock.time

/-- Resets the instances of all drive elements, one after the other, and the rest with
them. -/
def reset (machine : Machine) : Except Fault Machine := do
  let roots := machine.levels.flatten.map (·.root)
  let heap ← roots.foldlM (Heap.reset machine.heap.length) machine.heap
  return { machine with
    levels := machine.levels.map fun level => level.map DriveCell.restart
    heap := heap
    clock := machine.clock.reset }

/-- Another clock, which starts over. -/
def setClock (machine : Machine) (clock : Clock) : Machine :=
  { machine with clock := clock.reset }

/-- Another pace, with a clock of its own. -/
def setDiscipline (machine : Machine) (discipline : Discipline) : Machine :=
  { machine with discipline := discipline }.setClock
    (.ofDiscipline discipline Pacer.defaultWindow)

variable {ω ε : Type}

/-- Evaluates drive elements: a reached goal wins, else the first ready element is followed,
else the evaluation is lost. -/
def evaluate (library : Library Nat) (world : World ω ε) (goal : Trigger) (now : Int)
    (levels : List (List DriveCell)) :
    Heap × ω → Except (Trouble ε) Outcome × List (List DriveCell) × Heap × ω := fun (heap, w) =>
  match goal.reached world w with
  | (.error e, w) => (.error (.raised e), levels, heap, w)
  | (.ok true, w) => (.ok .won, levels, heap, w)
  | (.ok false, w) =>
    match firstReadyByLevel (DriveCell.attempt library world now) 0 levels (heap, w) with
    | (.error e, levels, heap, w) => (.error e, levels, heap, w)
    | (.ok (some _), levels, heap, w) => (.ok .followed, levels, heap, w)
    | (.ok none, levels, heap, w) => (.ok .lost, levels, heap, w)

/-- Evaluates the drive elements once. -/
def step (world : World ω ε) (machine : Machine) (w : ω) :
    Except (Trouble ε) Outcome × Machine × ω :=
  let clock := machine.clock.beginStep
  match evaluate machine.library world machine.goal clock.time machine.levels
    (machine.heap, w) with
  -- The step stays open: its time is not counted.
  | (.error e, levels, heap, w) => (.error e, { machine with levels, heap, clock }, w)
  | (.ok outcome, levels, heap, w) =>
    (.ok outcome, { machine with levels, heap, clock := clock.endStep }, w)

/-- Runs a machine. Its clock is replaced by the one that the configuration asks for. -/
def run (world : World ω ε) (config : Config) (machine : Machine) (w : ω) :
    Run ω (Trouble ε) Machine :=
  match config.error? with
  | some e => ⟨[], .error (.config e), machine, w⟩
  | none =>
    Run.proceed (step world) time config.stopOnLost config.maxSteps .zero []
      (machine.setClock (config.timer.clock machine.discipline)) w

/-! ## Making a machine -/

/-- A drive element at its root, which is added to the heap. -/
def install (index : Index) (library : Library Nat) (heap : Heap) (drive : Drive) :
    Except (Trouble BuildError) (DriveCell × Heap) := do
  let target ← (index.target drive.target).mapError .raised
  let root ← (library.instantiateTarget target).mapError .fault
  return (⟨drive.name, drive.trigger, heap.length, none, drive.interval, Drive.neverFired⟩,
    heap ++ [root])

/-- Makes one thing after the other, each with the heap that the ones before it left. -/
def collect {α β : Type} (make : Heap → α → Except (Trouble BuildError) (β × Heap)) :
    Heap → List α → Except (Trouble BuildError) (List β × Heap)
  | heap, [] => .ok ([], heap)
  | heap, x :: xs => do
    let (y, heap) ← make heap x
    let (ys, heap) ← collect make heap xs
    return (y :: ys, heap)

/-- The machine of a built agent. -/
def ofAgent (index : Index) (agent : Agent) : Except (Trouble BuildError) Machine := do
  let library ← (index.library agent.library).mapError .raised
  let (levels, heap) ← collect (collect (install index library)) [] agent.levels
  return {
    name := agent.name
    discipline := agent.discipline
    docstring := agent.docstring
    library := library
    goal := agent.goal
    levels := levels
    heap := heap
    clock := agent.clock }

end Machine

end SlipStack.Engine

namespace SlipStack

open Engine

/-- The machine of a plan in a world with the given registry. -/
def Plan.assemble (registry : Registry) (plan : Plan) : Except (Trouble BuildError) Machine := do
  let agent ← (plan.build registry).mapError .raised
  Machine.ofAgent (.ofPlan plan) agent

end SlipStack
