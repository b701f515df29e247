import SlipStack.Data.Decode
import SlipStack.Engine.Run
import SlipStack.Text.Unicode

/-!
# Checks

A check is a condition on a finished run. Judging a run by a check gives a `Finding`: the
check, what was found instead of or as expected, and whether the run passed. The `Verdict`
on a run says whether it passed all checks, or ended before it could be judged.

Findings are aggregated under the label of their check.
-/

namespace SlipStack.Eval

open Engine (Stop)

/-- A condition on a finished run. -/
inductive Check where
  /-- It stopped for the given reason. -/
  | outcome (expect : Stop)
  /-- It stopped within so many steps. -/
  | stepsAtMost (steps : Nat)
  /-- The action was called exactly so many times. -/
  | actionCount (name : String) (count : Nat)
  /-- The actions called start with the given ones. -/
  | actionSequence (names : List String)
  deriving DecidableEq, Repr

/-- What a run did, as far as checks can see. A run that a failure ended has no reason to
stop. -/
structure Record where
  stop : Option Stop
  steps : Nat
  /-- The names of the actions called, in order. -/
  actions : List String
  deriving DecidableEq, Repr

/-- The result of a check. -/
inductive Finding where
  | outcome (expect : Stop) (actual : Option Stop) (passed : Bool)
  | stepsAtMost (steps actual : Nat) (passed : Bool)
  | actionCount (name : String) (count actual : Nat) (passed : Bool)
  | actionSequence (names actual : List String) (passed : Bool)
  deriving DecidableEq, Repr

/-- How a run is classified. -/
inductive Verdict where
  | success
  | fail
  | error
  deriving DecidableEq, Repr

/-! ## Judging -/

namespace Check

/-- Judges a run. -/
def judge (record : Record) : Check → Finding
  | outcome expect => .outcome expect record.stop (record.stop = some expect)
  | stepsAtMost steps =>
    .stepsAtMost steps record.steps (record.stop.isSome && record.steps ≤ steps)
  | actionCount name count =>
    let actual := record.actions.count name
    .actionCount name count actual (actual = count)
  | actionSequence names =>
    let actual := record.actions.take names.length
    .actionSequence names actual (actual = names)

/-- The name under which findings of a check are aggregated. -/
def label : Check → String
  | outcome expect => s!"outcome({expect.toText})"
  | stepsAtMost steps => s!"steps_at_most({steps})"
  | actionCount name count => s!"action_count({name}={count})"
  | actionSequence names => "action_sequence(" ++ " ".intercalate names ++ ")"

end Check

namespace Finding

/-- The check that was made. -/
def check : Finding → Check
  | outcome expect _ _ => .outcome expect
  | stepsAtMost steps _ _ => .stepsAtMost steps
  | actionCount name count _ _ => .actionCount name count
  | actionSequence names _ _ => .actionSequence names

def passed : Finding → Bool
  | outcome _ _ passed => passed
  | stepsAtMost _ _ passed => passed
  | actionCount _ _ _ passed => passed
  | actionSequence _ _ passed => passed

def label (finding : Finding) : String := finding.check.label

end Finding

/-- The findings of all checks, in order. -/
def judge (checks : List Check) (record : Record) : List Finding :=
  checks.map (Check.judge record)

namespace Verdict

/-- The verdict on a run with the given findings. -/
def ofFindings (record : Record) (findings : List Finding) : Verdict :=
  match record.stop with
  | none => .error
  | some _ => if findings.all Finding.passed then .success else .fail

def toText : Verdict → String
  | success => "success"
  | fail => "fail"
  | error => "error"

/-- The verdict with a capital letter. -/
def title : Verdict → String
  | success => "Success"
  | fail => "Fail"
  | error => "Error"

def all : List Verdict := [.success, .fail, .error]

def ofText? (text : String) : Option Verdict :=
  all.find? (·.toText = text)

end Verdict

/-! ## Validity -/

/-- What a check must not be. -/
inductive CheckFault where
  | noSteps
  | unnamedAction
  | unnamedSequence
  deriving DecidableEq, Repr

def CheckFault.message : CheckFault → String
  | .noSteps => "steps_at_most.steps must be > 0"
  | .unnamedAction => "action_count.name must be non-empty"
  | .unnamedSequence => "action_sequence.names must be a non-empty array of names"

/-- What is wrong with a check. -/
def Check.fault? : Check → Option CheckFault
  | .outcome _ => none
  | .stepsAtMost steps => if steps = 0 then some .noSteps else none
  | .actionCount name _ => if Text.allBlank name then some .unnamedAction else none
  | .actionSequence names =>
    if names.isEmpty || names.any Text.allBlank then some .unnamedSequence else none

/-! ## Documents -/

open Data

/-- An absence, or a table with nothing in it. -/
def isBlank : Data → Bool
  | .null => true
  | .table [] => true
  | _ => false

/-- A reason to stop inside of a check. -/
def stopOfData? (data : Data) : Option Stop :=
  (data.word? isBlank).bind Stop.ofText?

def Check.ofData? (data : Data) : Option Check :=
  match data.tagged? "type" with
  | some ("outcome", fields) =>
    match fields.record? ["expect"] with
    | some [expect] => return .outcome (← required? stopOfData? expect)
    | _ => none
  | some ("steps_at_most", fields) =>
    match fields.record? ["steps"] with
    | some [steps] => return .stepsAtMost (← required? nat64? steps)
    | _ => none
  | some ("action_count", fields) =>
    match fields.record? ["name", "count"] with
    | some [name, count] =>
      return .actionCount (← required? text? name) (← required? nat64? count)
    | _ => none
  | some ("action_sequence", fields) =>
    match fields.record? ["names"] with
    | some [names] => return .actionSequence (← required? (list? text?) names)
    | _ => none
  | _ => none

namespace Finding

def toData : Finding → Data
  | outcome expect actual passed =>
    .table [("type", .text "outcome"), ("expect", .text expect.toText),
      ("actual", .ofOption (fun stop => .text (Stop.toText stop)) actual),
      ("passed", .bool passed)]
  | stepsAtMost steps actual passed =>
    .table [("type", .text "steps_at_most"), ("steps", .int steps), ("actual", .int actual),
      ("passed", .bool passed)]
  | actionCount name count actual passed =>
    .table [("type", .text "action_count"), ("name", .text name), ("count", .int count),
      ("actual", .int actual), ("passed", .bool passed)]
  | actionSequence names actual passed =>
    .table [("type", .text "action_sequence"), ("names", .texts names),
      ("actual", .texts actual), ("passed", .bool passed)]

def ofData? (data : Data) : Option Finding :=
  match data.tagged? "type" with
  | some ("outcome", fields) =>
    match fields.record? ["expect", "actual", "passed"] with
    | some [expect, actual, passed] =>
      return .outcome (← required? stopOfData? expect) (← optional? stopOfData? actual)
        (← required? bool? passed)
    | _ => none
  | some ("steps_at_most", fields) =>
    match fields.record? ["steps", "actual", "passed"] with
    | some [steps, actual, passed] =>
      return .stepsAtMost (← required? nat64? steps) (← required? nat64? actual)
        (← required? bool? passed)
    | _ => none
  | some ("action_count", fields) =>
    match fields.record? ["name", "count", "actual", "passed"] with
    | some [name, count, actual, passed] =>
      return .actionCount (← required? text? name) (← required? nat64? count)
        (← required? nat64? actual) (← required? bool? passed)
    | _ => none
  | some ("action_sequence", fields) =>
    match fields.record? ["names", "actual", "passed"] with
    | some [names, actual, passed] =>
      return .actionSequence (← required? (list? text?) names)
        (← required? (list? text?) actual) (← required? bool? passed)
    | _ => none
  | _ => none

end Finding

/-- The document of all findings on a run. -/
def findingsToData (findings : List Finding) : Data :=
  .table [("checks", .list (findings.map Finding.toData))]

def findingsOfData? (data : Data) : Option (List Finding) :=
  match data.record? ["checks"] with
  | some [checks] => required? (list? Finding.ofData?) checks
  | _ => none

end SlipStack.Eval
