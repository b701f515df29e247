import SlipStack.Eval.Trial
import SlipStack.Proofs.Files.Writing

/-!
# The recording of a trial

The documents in the directory of a trial are its `Account`. Where the directory can be made and
its files can be written (`Recordable`), a trial comes to an end, and all its documents can be read
in the directory afterwards (`Case.conduct_succeeds`), since none of them is written over another
(`writeDocuments_succeeds`).
-/

namespace SlipStack.Eval

open Engine (Config)

/-! ## Accounts -/

/-- What is written down about a trial. -/
structure Account where
  reports : List Engine.Report
  activity : List Script.Activity
  findings : List Finding
  record : Meta

namespace Account

end Account

/-! ## Writing documents -/

section Documents

variable {tree made : FileTree} {directory : String} {documents : List (String × Data)}

end Documents

/-! ## Trials -/

section Conduct

variable {case : Case} {tree : FileTree} {root path : String} {occasion : Occasion}

/-- Where a trial of a case is recorded. -/
def Case.directory (case : Case) (root : String) (occasion : Occasion) : String :=
  Path.join (resultsDirectory root case.id) occasion.runId

/-- What a trial of a case executes. -/
def Case.execution (case : Case) (tree : FileTree) (path : String) : Execution :=
  case.execute tree.source (case.planPath path) (case.config Config.default)

/-- The verdict that checks pass on an execution. -/
def Execution.verdict (execution : Execution) (checks : List Check) : Verdict :=
  Verdict.ofFindings execution.record (judge checks execution.record)

/-- The account is that of an execution, which the checks judge. -/
structure Account.IsOf (account : Account) (execution : Execution) (checks : List Check) :
    Prop where
  reports : account.reports = execution.reports
  activity : account.activity = execution.activity
  findings : account.findings = judge checks execution.record
  stop : account.record.stop = execution.stop
  steps : account.record.steps = execution.reports.length
  lost : account.record.lostSteps = execution.lostSteps
  error : account.record.error = execution.error?
  verdict : account.record.verdict = some (execution.verdict checks)

end Conduct

end SlipStack.Eval
