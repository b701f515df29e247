import SlipStack.Engine.World
import SlipStack.Script.Basic

/-!
# Scripted worlds

The world that a script describes. Its state is the blackboard, the number of times each
capability was used, and the record of all actions called. What a sequence gives depends on
nothing but how often its own capability was used before.

Reading fails only if the blackboard lost the value of a sense to someone else than the
script.
-/

namespace SlipStack.Script

/-- An action called, and whether it succeeded. -/
structure Activity where
  behaviour : String
  action : String
  succeeded : Bool
  deriving DecidableEq, Repr

/-- How often each capability was used; those that are not listed never were. -/
abbrev Uses := List (Capability × Nat)

namespace Uses

/-- How often a capability was used. -/
def count (capability : Capability) : Uses → Nat
  | [] => 0
  | (other, n) :: rest => if other = capability then n else count capability rest

/-- One more use of a capability. -/
def add (capability : Capability) : Uses → Uses
  | [] => [(capability, 1)]
  | (other, n) :: rest =>
    if other = capability then (other, n + 1) :: rest else (other, n) :: add capability rest

theorem count_add (capability other : Capability) (uses : Uses) :
    count other (add capability uses) =
      count other uses + if capability = other then 1 else 0 := by
  induction uses with
  | nil => simp [add, count]
  | cons entry rest ih =>
    obtain ⟨first, n⟩ := entry
    by_cases h : first = capability
    · subst h
      by_cases hother : first = other <;> simp [add, count, hother]
    · by_cases hfirst : first = other
      · subst hfirst
        simp [add, count, h, Ne.symm h]
      · simp [add, count, h, hfirst, ih]

end Uses

/-- The state of a scripted world. -/
structure State where
  board : Blackboard
  uses : Uses
  /-- All actions called, the latest first. -/
  history : List Activity
  deriving DecidableEq, Repr

namespace State

/-- All actions called, in order. -/
def activity (state : State) : List Activity :=
  state.history.reverse

/-- The names of the actions called, in order. -/
def actionNames (state : State) : List String :=
  state.activity.map (·.action)

/-- How often an action was called, with or without success. -/
def fired (state : State) (action : String) : Nat :=
  state.activity.countP (·.action = action)

end State

/-- Why a sense cannot be read. -/
inductive ReadError where
  | unset (name : String)
  | noValues (name : String)
  deriving DecidableEq, Repr

def ReadError.message : ReadError → String
  | .unset name => s!"blackboard has no value for '{name}'"
  | .noValues name => s!"sense '{name}' has no values"

/-! ## Capabilities -/

def behaviour? (script : Script) (name : String) : Option Behaviour :=
  script.behaviours.find? (·.name = name)

def action? (script : Script) (capability : Capability) : Option Action :=
  (script.behaviour? capability.owner).bind fun behaviour =>
    behaviour.actions.find? (·.name = capability.name)

def sense? (script : Script) (capability : Capability) : Option Sense :=
  (script.behaviour? capability.owner).bind fun behaviour =>
    behaviour.senses.find? (·.name = capability.name)

/-- Calls an action. One that the script does not describe succeeds and writes nothing. -/
def act (script : Script) (capability : Capability) (state : State) : Bool × State :=
  let action := (script.action? capability).getD ⟨capability.name, [], .last, .empty⟩
  let succeeded :=
    (action.mode.item? action.results (state.uses.count capability)).getD true
  (succeeded, {
    board := if succeeded then state.board.write action.effects.entries else state.board
    uses := state.uses.add capability
    history := ⟨capability.owner, capability.name, succeeded⟩ :: state.history })

/-- Reads a sense. One that the script does not describe has no values. -/
def read (script : Script) (capability : Capability) (state : State) :
    Except ReadError Value × State :=
  let sense := (script.sense? capability).getD ⟨capability.name, [], .last, none⟩
  match sense.initial with
  | some _ =>
    match state.board.get? capability.name with
    | some value => (.ok value, state)
    | none => (.error (.unset capability.name), state)
  | none =>
    let used := { state with uses := state.uses.add capability }
    match sense.mode.item? sense.values (state.uses.count capability) with
    | some value => (.ok value, used)
    | none => (.error (.noValues capability.name), used)

/-- The world of a script. -/
def world (script : Script) : Engine.World State ReadError where
  act capability state :=
    let (succeeded, state) := script.act capability state
    (.ok succeeded, state)
  read capability state := script.read capability state

/-- What the senses of a script put on the blackboard. -/
def initialBoard (script : Script) : Blackboard :=
  .ofEntries (script.behaviours.flatMap fun behaviour =>
    behaviour.senses.filterMap fun sense => sense.initial.map (sense.name, ·))

/-- The state that a scripted world starts in. -/
def start (script : Script) : State :=
  ⟨script.initialBoard, [], []⟩

end SlipStack.Script
