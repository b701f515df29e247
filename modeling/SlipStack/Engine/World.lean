import SlipStack.Registry
import SlipStack.Sense.Value

/-!
# The world an agent lives in

An agent touches the world through its capabilities only: it calls actions, which succeed
or not, and reads senses. Either may fail. `World ω ε` says what that does to a world whose
state is of type `ω`, with failures of type `ε`. All evaluation is a function of the state,
so that the order of calls and reads can be seen in it (`World.traced`).
-/

namespace SlipStack.Engine

/-- The capabilities of a world with states `ω` and failures `ε`. -/
structure World (ω ε : Type) where
  /-- Calls an action. -/
  act : Capability → ω → Except ε Bool × ω
  /-- Reads a sense. -/
  read : Capability → ω → Except ε Value × ω

/-- A call of an action or a read of a sense. -/
inductive Call where
  | act (capability : Capability)
  | read (capability : Capability)
  deriving DecidableEq, Repr

/-- The same world with a record of all calls, the latest first. -/
def World.traced {ω ε : Type} (world : World ω ε) : World (ω × List Call) ε where
  act capability := fun (w, calls) =>
    let (result, w) := world.act capability w
    (result, w, .act capability :: calls)
  read capability := fun (w, calls) =>
    let (result, w) := world.read capability w
    (result, w, .read capability :: calls)

end SlipStack.Engine
