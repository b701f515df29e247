import SlipStack.Data.Settings
import SlipStack.Eval.Check
import SlipStack.Script.Document

/-!
# Cases

A case is a plan with the scripted behaviours to run it against, settings of the run, and
the checks that it has to pass. The plan is a path relative to the file of the case. The
identifier of a case also names the directory of its results, which is why it may hold only
lower-case letters, digits, hyphens and underscores.
-/

namespace SlipStack.Eval

/-- A case. -/
structure Case where
  id : String
  description : String
  plan : String
  maxSteps : Option Nat
  stopOnLost : Option Bool
  script : Script
  checks : List Check
  deriving DecidableEq, Repr

/-! ## Validity -/

/-- What a case must not be. -/
inductive CaseFault where
  | noId
  | separatorInId
  | dotsInId
  | otherInId
  | noDescription
  | noPlan
  | noSteps
  | script (fault : Script.Fault)
  | noChecks
  | check (index : Nat) (fault : CheckFault)
  deriving DecidableEq, Repr

def CaseFault.message : CaseFault → String
  | .noId => "case.id must be non-empty"
  | .separatorInId => "case.id must not contain path separators"
  | .dotsInId => "case.id must not contain '..'"
  | .otherInId => "case.id must use [a-z0-9_-] only"
  | .noDescription => "case.description must be non-empty"
  | .noPlan => "case.plan must be non-empty"
  | .noSteps => "config.max_steps must be > 0"
  | .script fault => s!"behaviour invalid: {fault.message}"
  | .noChecks => "checks must be a non-empty array"
  | .check index fault => s!"checks[{index}] invalid: {fault.message}"

/-- Whether the character may stand in an identifier. -/
def isIdChar (c : Char) : Bool :=
  ('a' ≤ c && c ≤ 'z') || Text.isAsciiDigit c || c = '-' || c = '_'

/-- Whether two dots stand next to each other. -/
def hasDots : List Char → Bool
  | '.' :: '.' :: _ => true
  | _ :: rest => hasDots rest
  | [] => false

/-- What is wrong with an identifier. -/
def idFault? (id : String) : Option CaseFault :=
  if Text.allBlank id then some .noId
  else if id.toList.any fun c => c = '/' || c = '\\' then some .separatorInId
  else if hasDots id.toList then some .dotsInId
  else if id.toList.all isIdChar then none
  else some .otherInId

/-- The first fault among checks, which are counted from `index`. -/
def checksFault? (index : Nat) : List Check → Option CaseFault
  | [] => none
  | check :: rest =>
    match check.fault? with
    | some fault => some (.check index fault)
    | none => checksFault? (index + 1) rest

/-- What is wrong with a case. -/
def Case.fault? (case : Case) : Option CaseFault :=
  match idFault? case.id with
  | some fault => some fault
  | none =>
    if Text.allBlank case.description then some .noDescription
    else if case.plan = "" then some .noPlan
    else if case.maxSteps = some 0 then some .noSteps
    else
      match case.script.fault? with
      | some fault => some (.script fault)
      | none => if case.checks.isEmpty then some .noChecks else checksFault? 0 case.checks

/-- The configuration of a run of a case. -/
def Case.config (case : Case) (base : Engine.Config) : Engine.Config :=
  base.override case.maxSteps case.stopOnLost

/-! ## Documents -/

open Data

/-- Identifier, description and plan. -/
def Case.headOfData? (data : Data) : Option (String × String × String) :=
  match data.settings? ["id", "description", "plan"] 3 true with
  | some [id, description, plan] =>
    return (← required? text? id, ← required? text? description, ← required? text? plan)
  | _ => none

/-- Greatest number of steps, and whether a lost step ends the run. -/
def Case.limitsOfData? (data : Data) : Option (Option Nat × Option Bool) :=
  match data.settings? ["max_steps", "stop_on_lost"] 2 true with
  | some [maxSteps, stopOnLost] =>
    return (← optional? nat64? maxSteps, ← optional? bool? stopOnLost)
  | _ => none

/-- The case that a document holds. -/
def Case.ofData? (data : Data) : Option Case :=
  match data.settings? ["case", "config", "behaviour", "checks"] 1 true with
  | some [head, limits, behaviours, checks] => do
    let (id, description, plan) ← required? headOfData? head
    let (maxSteps, stopOnLost) ← defaulted? (none, none) limitsOfData? limits
    let behaviours ← defaulted? [] (list? Script.Behaviour.ofData?) behaviours
    let checks ← defaulted? [] (list? Check.ofData?) checks
    return ⟨id, description, plan, maxSteps, stopOnLost, ⟨behaviours⟩, checks⟩
  | _ => none

/-- The case that a settings file holds. -/
def Case.ofToml (text : String) : Except (Refusal CaseFault) Case :=
  Toml.load ofData? fault? text

end SlipStack.Eval
