import SlipStack.Eval.Check
import SlipStack.Script.World

/-!
# Records of runs

What is written down about a run of a case, besides its findings and traces: the case and
plan it was made with, how it ended, and when. The document form is written with all fields
and read with all of them present, except those that may be null.
-/

namespace SlipStack.Eval

open Engine (Stop)

/-- The record of a run. -/
structure Meta where
  caseId : String
  runId : String
  /-- The digest of the file of the case; empty if it could not be read. -/
  caseHash : String
  /-- The digest of the plan file; empty if it could not be read. -/
  planHash : String
  /-- The revision of the program that made the run. -/
  revision : Option String
  verdict : Option Verdict
  stop : Option Stop
  steps : Nat
  lostSteps : Nat
  /-- The failure that ended the run. -/
  error : Option String
  startTime : String
  endTime : String
  /-- Seconds. -/
  duration : Binary64
  /-- What could not be recorded. -/
  errors : List String
  deriving DecidableEq, Repr

namespace Meta

open Data

def toData (record : Meta) : Data :=
  .table [("case_id", .text record.caseId), ("eval_run_id", .text record.runId),
    ("case_hash", .text record.caseHash), ("plan_hash", .text record.planHash),
    ("engine_git_sha", .ofOption .text record.revision),
    ("outcome", .ofOption (fun verdict => .text (Verdict.toText verdict)) record.verdict),
    ("stop", .ofOption (fun stop => .text (Stop.toText stop)) record.stop),
    ("steps", .int record.steps), ("lost_steps", .int record.lostSteps),
    ("error", .ofOption .text record.error), ("start_time", .text record.startTime),
    ("end_time", .text record.endTime), ("duration_secs", .real record.duration),
    ("errors", .texts record.errors)]

/-- Whether the content of a word is absent. -/
def isNull : Data → Bool
  | .null => true
  | _ => false

def verdictOfData? (data : Data) : Option Verdict :=
  (data.word? isNull).bind Verdict.ofText?

def stopOfData? (data : Data) : Option Stop :=
  (data.word? isNull).bind Stop.ofText?

def ofData? (data : Data) : Option Meta :=
  match data.record? ["case_id", "eval_run_id", "case_hash", "plan_hash", "engine_git_sha",
    "outcome", "stop", "steps", "lost_steps", "error", "start_time", "end_time",
    "duration_secs", "errors"] with
  | some [caseId, runId, caseHash, planHash, revision, verdict, stop, steps, lostSteps, error,
      startTime, endTime, duration, errors] =>
    return ⟨← required? text? caseId, ← required? text? runId, ← required? text? caseHash,
      ← required? text? planHash, ← optional? text? revision,
      ← optional? verdictOfData? verdict, ← optional? stopOfData? stop,
      ← required? nat64? steps, ← required? nat64? lostSteps, ← optional? text? error,
      ← required? text? startTime, ← required? text? endTime, ← required? real? duration,
      ← required? (list? text?) errors⟩
  | _ => none

end Meta

/-! ## Traces -/

/-- The steps of a run. -/
def traceToData (reports : List Engine.Report) : Data :=
  .list (reports.map fun report =>
    .table [("step", .int report.step), ("time", .int report.time),
      ("outcome", .text report.outcome.toText)])

/-- The actions that a run called. -/
def activityToData (activity : List Script.Activity) : Data :=
  .list (activity.map fun entry =>
    .table [("behaviour", .text entry.behaviour), ("action", .text entry.action),
      ("succeeded", .bool entry.succeeded)])

end SlipStack.Eval
