import SlipStack.Engine.Instances

/-!
# The drive collection

The root of every plan. Its elements compete for each evaluation: the first one that is
ready is fired. A drive element keeps a cursor, which stays where its last evaluation left
off: a competence or pattern that was entered is fired the next time, and slips back to the
root once it has nothing more to do. What was entered keeps its state.
-/

namespace SlipStack.Engine

/-- A drive element in use. -/
structure Drive where
  name : String
  trigger : Trigger
  target : Target
  /-- The least time between two firings; a negative one is none. -/
  interval : Option Int
  instances : Instances
  /-- The path of the node that the next firing evaluates. -/
  cursor : Path
  lastFired : Int
  deriving DecidableEq, Repr

/-- What an evaluation of the drive collection comes to. -/
inductive Outcome where
  /-- The goal is reached. -/
  | won
  /-- A drive element was fired. -/
  | followed
  /-- No drive element was ready. -/
  | lost
  deriving DecidableEq, Repr

def Outcome.toText : Outcome → String
  | .won => "won"
  | .followed => "followed"
  | .lost => "lost"

namespace Drive

/-- The time of the last firing that is assumed of an element never fired: intervals of up
to this length do not delay the first firing. -/
def neverFired : Int := -100000

/-- The path of the node that a drive element starts from. -/
def home : Path := [.root]

/-- A drive element that was never fired. -/
def fresh (library : Library) (name : String) (trigger : Trigger) (target : Target)
    (interval : Option Int) : Drive where
  name := name
  trigger := trigger
  target := target
  interval := interval
  instances := Instances.empty.set home (library.freshTarget target)
  cursor := home
  lastFired := neverFired

/-- The drive element as if it was never fired. Nodes that were entered stay, with no
retries spent and at their first steps. -/
def reset (drive : Drive) : Drive :=
  { drive with
    instances := drive.instances.map Node.reset
    cursor := home
    lastFired := neverFired }

/-- The node that the next firing evaluates. -/
def current? (drive : Drive) : Option Node :=
  drive.instances.get? drive.cursor

/-- Whether the interval since the last firing has not passed yet. -/
def tooEarly (drive : Drive) (now : Int) : Bool :=
  match drive.interval with
  | some interval => 0 ≤ interval && now - drive.lastFired < interval
  | none => false

/-- The drive element after its current node made a move. -/
def follow (library : Library) (drive : Drive) : Move → Drive
  | .stay => drive
  | .home => { drive with cursor := home }
  | .enter site ref =>
    let path := drive.cursor ++ [site]
    { drive with
      instances := drive.instances.enter path (library.fresh ref)
      cursor := path }

variable {ω ε : Type}

/-- Fires the node at the cursor. After a failure the cursor stays. -/
def fire (library : Library) (world : World ω ε) (drive : Drive) (w : ω) :
    Except ε Unit × Drive × ω :=
  let node := drive.current?.getD (library.freshTarget drive.target)
  match node.fire world w with
  | (result, node, w) =>
    -- What the node spent stays spent, also if a capability failed.
    let drive := { drive with instances := drive.instances.set drive.cursor node }
    match result with
    | .ok move => (.ok (), drive.follow library move, w)
    | .error e => (.error e, drive, w)

/-- Tries a drive element at the time `now`. It is ready if its trigger holds and its
interval has passed; then it is fired. -/
def attempt (library : Library) (world : World ω ε) (now : Int) :
    Attempt ω ε Drive Unit := fun drive w =>
  match drive.trigger.holds world w with
  | (.error e, w) => (.error e, drive, w)
  | (.ok false, w) => (.ok none, drive, w)
  | (.ok true, w) =>
    if drive.tooEarly now then (.ok none, drive, w)
    else
      -- The attempt counts as a firing even if it fails.
      match { drive with lastFired := now }.fire library world w with
      | (.ok (), drive, w) => (.ok (some ()), drive, w)
      | (.error e, drive, w) => (.error e, drive, w)

end Drive

variable {ω ε : Type}

/-- Evaluates a drive collection at the time `now`: a reached goal wins, else the first
ready element is followed, else the evaluation is lost. -/
def evaluate (library : Library) (world : World ω ε) (goal : Trigger) (now : Int)
    (levels : List (List Drive)) (w : ω) : Except ε Outcome × List (List Drive) × ω :=
  match goal.reached world w with
  | (.error e, w) => (.error e, levels, w)
  | (.ok true, w) => (.ok .won, levels, w)
  | (.ok false, w) =>
    match firstReadyByLevel (Drive.attempt library world now) 0 levels w with
    | (.error e, levels, w) => (.error e, levels, w)
    | (.ok (some _), levels, w) => (.ok .followed, levels, w)
    | (.ok none, levels, w) => (.ok .lost, levels, w)

end SlipStack.Engine
