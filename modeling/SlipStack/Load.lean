import SlipStack.Engine.ConfigDocument
import SlipStack.Failure
import SlipStack.Files.Source
import SlipStack.Lap.Parser

/-!
# Loading files

Plans, scripts, configurations and cases from their files, and agents from plan files. A
failure says which file it is about.
-/

namespace SlipStack

/-- The text at a path; `purpose` tells what it is read for. -/
def Source.load (source : Source) (purpose path : String) : Except Failure String :=
  (source.text path).mapError fun e => (Failure.of (.file e)).during (purpose ++ path)

/-- The text of a plan file. -/
def Plan.loadText (source : Source) (path : String) : Except Failure String :=
  source.load "read plan " path

/-- The plan in a file. -/
def Plan.load (source : Source) (path : String) : Except Failure Plan := do
  let text ← Plan.loadText source path
  (Lap.parse text).mapError fun e => (Failure.of (.plan e)).during ("parse plan " ++ path)

/-- The agent of a plan that was read from a file. -/
def Plan.buildFrom (path : String) (registry : Registry) (plan : Plan) :
    Except Failure Engine.Agent :=
  (plan.build registry).mapError fun e =>
    (Failure.of (.build e)).during ("build plan " ++ path)

/-- The agent of the plan in a file. -/
def Engine.Agent.load (source : Source) (path : String) (registry : Registry) :
    Except Failure Engine.Agent := do
  let plan ← Plan.load source path
  plan.buildFrom path registry

/-- The script in a file. -/
def Script.load (source : Source) (path : String) : Except Failure Script := do
  let text ← source.load "read " path
  (Script.ofToml text).mapError fun e =>
    (Failure.ofRefusal .script e).during ("parse " ++ path)

/-- The registry of what a script provides. -/
def Script.buildRegistry (script : Script) : Except Failure Registry :=
  script.registry.mapError fun e => Failure.of (.behaviours e)

/-- The configuration in a file; the default one if there is no such file. -/
def Engine.Config.load (source : Source) (path : String) : Except Failure Engine.Config := do
  if source.exists? path then
    let text ← source.load "read " path
    (Engine.Config.ofToml text).mapError fun e =>
      (Failure.ofRefusal .config e).during ("parse " ++ path)
  else
    return Engine.Config.default

namespace Eval

/-- The failure that a refused case is. -/
def caseRefusal : Refusal CaseFault → Failure
  | .malformed => (Failure.of .malformed).during "parse case"
  | .invalid fault => Failure.of (.case fault)

/-- The case in a file. -/
def Case.load (source : Source) (path : String) : Except Failure Case := do
  let text ← source.load "read case " path
  (Case.ofToml text).mapError fun e => (caseRefusal e).during ("load case " ++ path)

/-- The path of the plan of a case, which is relative to the file of the case. -/
def Case.planPath (case : Case) (path : String) : String :=
  match Path.parent? path with
  | some directory => Path.join directory case.plan
  | none => case.plan

end Eval

end SlipStack
