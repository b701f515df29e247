import SlipStack.Data.Json
import SlipStack.Digest.Sha256
import SlipStack.Eval.Meta
import SlipStack.Load

/-!
# Trials

A trial runs a case: it builds the plan of the case against its script, runs it, judges the
run and records everything in a directory of its own. A plan or script that cannot be used
is not a failure of the trial but its result, under the verdict `error`.
-/

namespace SlipStack.Eval

/-- What a trial did. -/
structure Execution where
  reports : List Engine.Report
  activity : List Script.Activity
  result : Except Failure Engine.Summary

namespace Execution

/-- Why the run stopped; nothing if it failed. -/
def stop (execution : Execution) : Option Engine.Stop :=
  match execution.result with
  | .ok summary => some summary.stop
  | .error _ => none

def lostSteps (execution : Execution) : Nat :=
  match execution.result with
  | .ok summary => summary.lost
  | .error _ => 0

def error? (execution : Execution) : Option String :=
  match execution.result with
  | .ok _ => none
  | .error failure => some failure.message

/-- What the checks see of the run. -/
def record (execution : Execution) : Record :=
  ⟨execution.stop, execution.reports.length, execution.activity.map (·.action)⟩

end Execution

/-- Runs the agent of a case. -/
def Case.runAgent (case : Case) (config : Engine.Config) (agent : Engine.Agent) : Execution :=
  let run := agent.run case.script.world config case.script.start
  ⟨run.reports, run.world.activity, run.result.mapError Failure.ofRun⟩

/-- The agent of a case, from its plan file. -/
def Case.agent (case : Case) (source : Source) (planPath : String) :
    Except Failure Engine.Agent := do
  let plan ← Plan.load source planPath
  let registry ← case.script.buildRegistry.mapError (Failure.during "build behaviours")
  plan.buildFrom planPath registry

/-- Builds and runs a case. -/
def Case.execute (case : Case) (source : Source) (planPath : String)
    (config : Engine.Config) : Execution :=
  match case.agent source planPath with
  | .ok agent => case.runAgent config agent
  | .error failure => ⟨[], [], .error failure⟩

/-- The circumstances of a trial, which are none of its own. -/
structure Occasion where
  runId : String
  startTime : String
  endTime : String
  milliseconds : Int
  /-- The revision of the program, or why it is not known. -/
  revision : Except String String

/-- The digest of a file, and what is noted if it cannot be read. -/
def digestOf (tree : FileTree) (label path : String) : String × List String :=
  match tree.read path with
  | .ok bytes => (Sha256.hex bytes, [])
  | .error _ => ("", [label ++ ": read " ++ path])

/-- The bytes of a document in a file. -/
def documentBytes (data : Data) : ByteArray :=
  (Json.pretty data ++ "\n").toUTF8

/-- The directory of the trials of a case. -/
def resultsDirectory (root id : String) : String :=
  Path.join (Path.join (Path.join root "eval") "results") id

/-- A finished trial. -/
structure Trial where
  runId : String
  /-- Where it is recorded. -/
  directory : String
  verdict : Verdict
  deriving DecidableEq, Repr

/-- Writes a document into a directory. -/
def writeDocument (tree : FileTree) (directory name : String) (data : Data) :
    Except Failure FileTree :=
  let path := Path.join directory name
  (tree.write path (documentBytes data)).mapError fun e =>
    (Failure.of (.file e)).during ("write " ++ path)

/-- Records a trial in its directory, which is made first. -/
def recordTrial (tree : FileTree) (directory : String) (execution : Execution)
    (findings : List Finding) (record : Meta) : Except Failure FileTree := do
  let tree ← (tree.makeDirectories (FileTree.plain directory)).mapError fun e =>
    (Failure.of (.file e)).during ("create results dir " ++ directory)
  let tree ← writeDocument tree directory "trace.json" (traceToData execution.reports)
  let tree ← writeDocument tree directory "activity.json" (activityToData execution.activity)
  let tree ← writeDocument tree directory "checks.json" (findingsToData findings)
  writeDocument tree directory "meta.json" record.toData

/-- Makes a trial of a case, whose file is at `path`. -/
def Case.conduct (case : Case) (tree : FileTree) (root path : String) (occasion : Occasion) :
    Except Failure (Trial × FileTree) := do
  let planPath := case.planPath path
  let config := case.config Engine.Config.default
  let execution := case.execute tree.source planPath config
  let findings := judge case.checks execution.record
  let verdict := Verdict.ofFindings execution.record findings
  -- The directory is named for the case first, so the trials of a case stand together.
  let directory := Path.join (resultsDirectory root case.id) occasion.runId
  let (caseHash, caseErrors) := digestOf tree "case hash" path
  let (planHash, planErrors) := digestOf tree "plan hash" planPath
  let (revision, revisionErrors) := match occasion.revision with
    | .ok revision => (some revision, [])
    | .error message => (none, ["engine git sha: " ++ message])
  let record : Meta := {
    caseId := case.id
    runId := occasion.runId
    caseHash := caseHash
    planHash := planHash
    revision := revision
    verdict := some verdict
    stop := execution.stop
    steps := execution.reports.length
    lostSteps := execution.lostSteps
    error := execution.error?
    startTime := occasion.startTime
    endTime := occasion.endTime
    duration := (Binary64.ofInt occasion.milliseconds).div (Binary64.ofNat 1000)
    errors := caseErrors ++ planErrors ++ revisionErrors }
  let tree ← (recordTrial tree directory execution findings record).mapError
    (Failure.during "capture results")
  return (⟨occasion.runId, directory, verdict⟩, tree)

end SlipStack.Eval
