import SlipStack.Eval.Summary
import SlipStack.Eval.Trial

/-!
# Evaluation commands

The commands of the evaluation of plans, on a file tree: list the cases, make trials of one,
report on its trials, and remove them. Cases are the settings files in the directory
`eval/cases` below the root, and trials are recorded in `eval/results`.
-/

namespace SlipStack.Eval

/-- What a command gives: its output, warnings, the trials that it made, the failure that
ended it, and the files afterwards. -/
structure Transcript where
  output : List String
  warnings : List String
  trials : List Trial
  failure : Option Failure
  tree : FileTree

namespace Transcript

/-- A command that did nothing but fail. -/
def failed (tree : FileTree) (failure : Failure) : Transcript :=
  ⟨[], [], [], some failure, tree⟩

end Transcript

/-- The directory of the cases. -/
def casesDirectory (root : String) : String :=
  Path.join (Path.join root "eval") "cases"

/-! ## Listing -/

/-- The cases, sorted by their identifiers, which have to be distinct. -/
def sortCases (cases : List (String × Case)) : Except Failure (List (String × Case)) :=
  let sorted := cases.mergeSort fun a b => a.2.id ≤ b.2.id
  -- Sorted, equal identifiers stand side by side.
  match (sorted.zip (sorted.drop 1)).find? fun (a, b) => a.2.id = b.2.id with
  | some ((_, case), _) => .error (Failure.of (.duplicateCase case.id))
  | none => .ok sorted

/-- All cases in a directory with the paths of their files. -/
def discover (tree : FileTree) (directory : String) : Except Failure (List (String × Case)) :=
  if !tree.exists? directory then .ok []
  else do
    let names ← (tree.list directory).mapError fun e =>
      (Failure.of (.file e)).during ("read cases dir " ++ directory)
    let paths := (names.filter fun name => Path.extension? name = some "toml").map
      (Path.join directory)
    let cases ← paths.mapM fun path => (Case.load tree.source path).map (path, ·)
    sortCases cases

def performList (tree : FileTree) (root : String) : Transcript :=
  match discover tree (casesDirectory root) with
  | .error failure => .failed tree failure
  | .ok cases => ⟨cases.map fun (path, case) => case.id ++ "\t" ++ path, [], [], none, tree⟩

/-! ## Running -/

/-- The case with the given identifier and the path of its file. -/
def findCase (tree : FileTree) (root id : String) : Except Failure (String × Case) :=
  let path := Path.join (casesDirectory root) (id ++ ".toml")
  if !tree.exists? path then .error (Failure.of (.caseNotFound id path))
  else do
    let case ← (Case.load tree.source path).mapError (Failure.during "load case")
    if case.id ≠ id then .error (Failure.of (.otherCase path case.id))
    else return (path, case)

def trialLine (caseId : String) (trial : Trial) : String :=
  s!"run: case={caseId} eval_run_id={trial.runId} outcome={trial.verdict.title} " ++
    s!"results={trial.directory}"

/-- Makes trials of a case, one for each occasion, up to the first failure. -/
def runTrials (root path : String) (case : Case) :
    List Occasion → Transcript → Transcript
  | [], transcript => transcript
  | occasion :: rest, transcript =>
    match case.conduct transcript.tree root path occasion with
    | .error failure => { transcript with failure := some (failure.during "run case") }
    | .ok (trial, tree) =>
      runTrials root path case rest { transcript with
        output := transcript.output ++ [trialLine case.id trial]
        trials := transcript.trials ++ [trial]
        tree := tree }

def performRun (tree : FileTree) (root id : String) (occasions : List Occasion) :
    Transcript :=
  match findCase tree root id with
  | .error failure => .failed tree failure
  | .ok (path, case) => runTrials root path case occasions ⟨[], [], [], none, tree⟩

/-! ## Reporting -/

/-- The directories of the trials of a case, in ascending order. -/
def trialDirectories (tree : FileTree) (directory : String) : Except Failure (List String) :=
  if !tree.exists? directory then .ok []
  else do
    let names ← (tree.list directory).mapError fun e =>
      (Failure.of (.file e)).during ("read " ++ directory)
    let paths := (names.mergeSort (· ≤ ·)).map (Path.join directory)
    return paths.filter fun path => (tree.stat path).toOption = some .directory

def performReport (tree : FileTree) (root id : String) : Transcript :=
  match trialDirectories tree (resultsDirectory root id) with
  | .error failure => .failed tree failure
  | .ok directories =>
    let (summary, skipped) := summarise (directories.map (readTrial tree))
    ⟨summary.lines id, skipped.map fun warning => "warning: " ++ warning.message, [], none,
      tree⟩

/-! ## Removing -/

def performClean (tree : FileTree) (root id : String) : Transcript :=
  let directory := resultsDirectory root id
  let done (tree : FileTree) : Transcript :=
    ⟨[s!"clean: case={id} results={directory}"], [], [], none, tree⟩
  if !tree.exists? directory then done tree
  else
    match tree.removeDirectory directory with
    | (.ok (), tree) => done tree
    | (.error e, tree) =>
      .failed tree ((Failure.of (.file e)).during ("remove " ++ directory))

end SlipStack.Eval
