import SlipStack.Data.Json
import SlipStack.Eval.Meta
import SlipStack.Files.Tree

/-!
# Summaries

All recorded trials of a case taken together: how many had each verdict and each reason to
stop, average steps and duration, and how often each check was passed. A trial whose record
cannot be read is left out, with a warning.
-/

namespace SlipStack.Eval

/-- What is read about a trial. -/
structure Recorded where
  record : Meta
  findings : List Finding

/-- How often a check was passed, and how often it was made. -/
structure Rate where
  label : String
  passed : Nat
  total : Nat
  deriving DecidableEq, Repr

/-- Recorded trials taken together. -/
structure Summary where
  runs : Nat
  success : Nat
  fail : Nat
  error : Nat
  won : Nat
  lost : Nat
  stepLimit : Nat
  averageSteps : Option Binary64
  averageDuration : Option Binary64
  /-- In ascending order of labels. -/
  rates : List Rate
  deriving DecidableEq, Repr

namespace Summary

/-- No trials. -/
def empty : Summary := ⟨0, 0, 0, 0, 0, 0, 0, none, none, []⟩

/-- The mean of `count` values, given that of all but the last one. Each operation is
rounded. -/
def runningMean (mean : Option Binary64) (value count : Binary64) : Binary64 :=
  match mean with
  | none => value
  | some mean => ((mean.mul (count.sub (Binary64.ofNat 1))).add value).div count

/-- Counts one more finding of a check. -/
def count (label : String) (passed : Bool) : List Rate → List Rate
  | [] => [⟨label, if passed then 1 else 0, 1⟩]
  | rate :: rest =>
    if rate.label = label then
      { rate with passed := rate.passed + (if passed then 1 else 0), total := rate.total + 1 }
        :: rest
    -- The labels ascend, so a new one belongs in front of the first greater one.
    else if label < rate.label then ⟨label, if passed then 1 else 0, 1⟩ :: rate :: rest
    else rate :: count label passed rest

def countAll (rates : List Rate) (findings : List Finding) : List Rate :=
  findings.foldl (fun rates finding => count finding.label finding.passed rates) rates

/-- One if so, else zero. -/
def tally (condition : Bool) : Nat := if condition then 1 else 0

/-- The summary with one more trial. A trial without verdict counts as an error. -/
def add (summary : Summary) (trial : Recorded) : Summary :=
  let verdict := trial.record.verdict.getD .error
  let runs := summary.runs + 1
  { runs := runs
    success := summary.success + tally (verdict = .success)
    fail := summary.fail + tally (verdict = .fail)
    error := summary.error + tally (verdict = .error)
    won := summary.won + tally (trial.record.stop = some .won)
    lost := summary.lost + tally (trial.record.stop = some .lost)
    stepLimit := summary.stepLimit + tally (trial.record.stop = some .stepLimit)
    averageSteps := some (runningMean summary.averageSteps (Binary64.ofNat trial.record.steps)
      (Binary64.ofNat runs))
    averageDuration := some (runningMean summary.averageDuration trial.record.duration
      (Binary64.ofNat runs))
    rates := countAll summary.rates trial.findings }

/-- The lines of a report on a case. -/
def lines (caseId : String) (summary : Summary) : List String :=
  [s!"report: case={caseId} runs={summary.runs}",
    s!"report: success={summary.success} fail={summary.fail} error={summary.error}",
    s!"report: won={summary.won} lost={summary.lost} step_limit={summary.stepLimit}"] ++
  (summary.averageSteps.toList.map fun mean => "report: avg_steps=" ++ mean.toFixed 1) ++
  (summary.averageDuration.toList.map fun mean =>
    "report: avg_duration_secs=" ++ mean.toFixed 3) ++
  (summary.rates.map fun rate =>
    s!"report: check {rate.label} {rate.passed}/{rate.total}")

end Summary

/-! ## Reading records -/

/-- Why the record of a trial is left out: the file, and what could not be done to it. -/
structure Skipped where
  directory : String
  file : String
  problem : String
  deriving DecidableEq, Repr

def Skipped.message (skipped : Skipped) : String :=
  s!"skip {skipped.directory}: {skipped.file} invalid " ++
    s!"({skipped.problem} {Path.join skipped.directory skipped.file})"

/-- The content of a document in the directory of a trial. -/
def readDocument {α : Type} (tree : FileTree) (directory file : String)
    (ofData? : Data → Option α) : Except Skipped α :=
  match tree.readText (Path.join directory file) with
  | .error _ => .error ⟨directory, file, "read"⟩
  | .ok text =>
    match (Json.read? text).bind ofData? with
    | some content => .ok content
    | none => .error ⟨directory, file, "parse"⟩

/-- What is recorded in the directory of a trial. -/
def readTrial (tree : FileTree) (directory : String) : Except Skipped Recorded := do
  let record ← readDocument tree directory "meta.json" Meta.ofData?
  let findings ← readDocument tree directory "checks.json" findingsOfData?
  return ⟨record, findings⟩

/-- Takes trials together, with warnings about those left out. -/
def summarise (trials : List (Except Skipped Recorded)) : Summary × List Skipped :=
  trials.foldl (fun (summary, skipped) trial =>
    match trial with
    | .ok trial => (summary.add trial, skipped)
    | .error warning => (summary, skipped ++ [warning])) (Summary.empty, [])

end SlipStack.Eval
