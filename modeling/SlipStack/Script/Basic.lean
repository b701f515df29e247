import SlipStack.Registry
import SlipStack.Script.Blackboard
import SlipStack.Text.Unicode

/-!
# Scripts

A script describes behaviours that stand in for a real world. An action has a sequence of
results and writes on the blackboard whenever it succeeds. A sense either replays a
sequence of values or reads the blackboard, on which it puts its initial value.
-/

namespace SlipStack

namespace Script

/-- What a sequence does after its last item. -/
inductive Repeat where
  /-- It gives the last item again and again. -/
  | last
  /-- It starts over. -/
  | cycle
  deriving DecidableEq, Repr

namespace Repeat

def toText : Repeat → String
  | .last => "last"
  | .cycle => "cycle"

def ofText? (text : String) : Option Repeat :=
  if text = "last" then some .last
  else if text = "cycle" then some .cycle
  else none

/-- The item that a sequence gives at a place, counted from zero. The empty sequence gives
none. -/
def item? {α : Type} (mode : Repeat) (items : List α) (place : Nat) : Option α :=
  match mode with
  | .last => items[place]?.or items.getLast?
  | .cycle => items[place % items.length]?

end Repeat

/-- A scripted action. Without results it always succeeds. -/
structure Action where
  name : String
  results : List Bool
  mode : Repeat
  /-- What a success writes on the blackboard. -/
  effects : Blackboard
  deriving DecidableEq, Repr

/-- A scripted sense. -/
structure Sense where
  name : String
  values : List Value
  mode : Repeat
  /-- What the sense starts from, if it reads the blackboard. -/
  initial : Option Value
  deriving DecidableEq, Repr

/-- A scripted behaviour. -/
structure Behaviour where
  name : String
  actions : List Action
  senses : List Sense
  deriving DecidableEq, Repr

end Script

/-- The scripted behaviours of a world. -/
structure Script where
  behaviours : List Script.Behaviour
  deriving DecidableEq, Repr

namespace Script

/-! ## Validity -/

/-- What is wrong with a script. -/
inductive Fault where
  | unnamedBehaviour
  | unnamedAction (behaviour : String)
  | sourceless (behaviour sense : String)
  | twoSources (behaviour sense : String)
  deriving DecidableEq, Repr

def Fault.message : Fault → String
  | .unnamedBehaviour => "behaviour name must not be empty"
  | .unnamedAction behaviour => s!"behaviour '{behaviour}': action name must not be empty"
  | .sourceless behaviour sense =>
    s!"behaviour '{behaviour}': sense '{sense}' needs either values or an initial value"
  | .twoSources behaviour sense =>
    s!"behaviour '{behaviour}': sense '{sense}' cannot have both values and an initial value"

/-- A sense has values or an initial value, and not both. -/
def Sense.fault? (behaviour : String) (sense : Sense) : Option Fault :=
  match sense.values, sense.initial with
  | [], none => some (.sourceless behaviour sense.name)
  | _ :: _, some _ => some (.twoSources behaviour sense.name)
  | _, _ => none

def Action.fault? (behaviour : String) (action : Action) : Option Fault :=
  if Text.allBlank action.name then some (.unnamedAction behaviour) else none

def Behaviour.fault? (behaviour : Behaviour) : Option Fault :=
  if Text.allBlank behaviour.name then some .unnamedBehaviour
  else
    (behaviour.actions.findSome? (Action.fault? behaviour.name)).or
      (behaviour.senses.findSome? (Sense.fault? behaviour.name))

/-- The first fault of a script. -/
def fault? (script : Script) : Option Fault :=
  script.behaviours.findSome? Behaviour.fault?

/-! ## Registering -/

/-- What a scripted behaviour provides. -/
def Behaviour.provides (behaviour : Behaviour) : SlipStack.Behaviour :=
  ⟨behaviour.name, behaviour.actions.map (·.name), behaviour.senses.map (·.name)⟩

/-- Why a script makes no world. -/
inductive BuildError where
  | invalid (fault : Fault)
  | refused (behaviour : String) (error : RegistryError)
  deriving DecidableEq, Repr

def BuildError.message : BuildError → String
  | .invalid fault => fault.message
  | .refused behaviour error => s!"register behaviour '{behaviour}': {error.message}"

/-- Registers scripted behaviours one after the other. -/
def register (registry : Registry) : List Behaviour → Except BuildError Registry
  | [] => .ok registry
  | behaviour :: rest =>
    match registry.register behaviour.provides with
    | .ok registry => register registry rest
    | .error e => .error (.refused behaviour.name e)

/-- The registry of what a valid script provides. -/
def registry (script : Script) : Except BuildError Registry :=
  match script.fault? with
  | some fault => .error (.invalid fault)
  | none => register Registry.empty script.behaviours

end Script

end SlipStack
