import SlipStack.Command.Arguments
import SlipStack.Data.Json
import SlipStack.Lap.Lexer
import SlipStack.Load
import SlipStack.Plan.Document
import SlipStack.Plan.Render

/-!
# Carrying out commands

What a command prints and which exit code it ends with, given the files it may read. A
failure ends a command; what was printed before stays.

The exit code of a run tells why it stopped.
-/

namespace SlipStack

namespace Command

/-- What carrying out a command gives. -/
structure Transcript where
  output : List String
  /-- Lines on the error stream. -/
  errors : List String
  /-- The exit code, or the failure that ended the command. -/
  result : Except Failure Nat

/-- The exit code of success. -/
def success : Nat := 0

/-- The exit code of invalid input of any kind. -/
def invalid : Nat := 1

/-- The exit code of a run that stopped for the given reason. -/
def stopCode : Engine.Stop → Nat
  | .won => success
  | .lost => 2
  | .stepLimit => 3

namespace Transcript

/-- A command that failed before it printed anything. -/
def failed (failure : Failure) : Transcript := ⟨[], [], .error failure⟩

/-- A command that succeeded. -/
def printed (output : List String) : Transcript := ⟨output, [], .ok success⟩

/-- The exit code. -/
def code (transcript : Transcript) : Nat :=
  match transcript.result with
  | .ok code => code
  | .error _ => invalid

end Transcript

/-- What was achieved, or a transcript that ends in the failure. -/
def orFail (result : Except Failure Transcript) : Transcript :=
  match result with
  | .ok transcript => transcript
  | .error failure => .failed failure

/-! ## Commands -/

def lexLines (tokens : List Lap.Token) : List String :=
  tokens.map fun token => token.kind.label ++ "\t" ++ token.text

def performLex (source : Source) (path : String) : Except Failure Transcript := do
  let text ← Plan.loadText source path
  let (tokens, errors) := Lap.tokenize text
  return ⟨lexLines tokens, errors.map fun e => path ++ ": " ++ e.message,
    .ok (if errors.isEmpty then success else invalid)⟩

/-- A plan in one line. -/
def summary (plan : Plan) : String :=
  let drives := match plan.collection with
    | some collection =>
      s!"{collection.tag} '{collection.name}' with {collection.size} drive elements"
    | none => "no drive collection"
  s!"ok: {drives}, {plan.competences.length} competences, " ++
    s!"{plan.patterns.length} action patterns"

def performCheck (source : Source) (path : String) (behaviours : Option String)
    (json : Bool) : Except Failure Transcript := do
  let plan ← Plan.load source path
  match behaviours with
  | none => pure ()
  | some behaviours =>
    let script ← Script.load source behaviours
    let registry ← script.buildRegistry
    let _ ← plan.buildFrom path registry
  return .printed [if json then Json.pretty plan.toData else summary plan]

def performFormat (source : Source) (path : String) : Except Failure Transcript := do
  let plan ← Plan.load source path
  return .printed [plan.render]

/-- A step of a run in one line. -/
def stepLine (report : Engine.Report) : String :=
  s!"{report.step}\t{report.time}\t{report.outcome.toText}"

/-- A run in one line. -/
def stopLine (summary : Engine.Summary) (fired : Nat) : String :=
  s!"stopped: {summary.stop.toText} after {summary.steps} steps " ++
    s!"({summary.lost} lost, {fired} actions fired)"

def performRun (source : Source) (path behaviours : String) (config : Option String)
    (maxSteps : Option Nat) (stopOnLost : Bool) : Except Failure Transcript := do
  let config ← match config with
    | some config => Engine.Config.load source config
    | none => pure Engine.Config.default
  let config := config.override maxSteps (some (config.stopOnLost || stopOnLost))
  let plan ← Plan.load source path
  let script ← Script.load source behaviours
  let registry ← script.buildRegistry
  let agent ← plan.buildFrom path registry
  let run := agent.run script.world config script.start
  let lines := run.reports.map stepLine
  match run.result with
  | .ok summary =>
    let fired := run.world.activity.length
    return ⟨lines ++ [stopLine summary fired], [], .ok (stopCode summary.stop)⟩
  | .error e => return ⟨lines, [], .error (.ofRun e)⟩

/-- Carries out a command. -/
def perform (source : Source) (command : Command) : Transcript :=
  orFail <|
    match command with
    | .lex plan => performLex source plan
    | .check plan behaviours json => performCheck source plan behaviours json
    | .format plan => performFormat source plan
    | .run plan behaviours config maxSteps stopOnLost =>
      performRun source plan behaviours config maxSteps stopOnLost

/-- The files that a command may read. -/
def paths : Command → List String
  | .lex plan => [plan]
  | .check plan behaviours _ => plan :: behaviours.toList
  | .format plan => [plan]
  | .run plan behaviours config _ _ => plan :: behaviours :: config.toList

end Command

end SlipStack
