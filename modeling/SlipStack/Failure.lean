import SlipStack.Engine.Build
import SlipStack.Engine.Run
import SlipStack.Eval.Case
import SlipStack.Files.Tree
import SlipStack.Lap.SyntaxError
import SlipStack.Script.World

/-!
# Failures

Why a command fails: a `Cause`, and what was being done when it arose. The message puts the
most general circumstance first and the cause last.
-/

namespace SlipStack

/-- What went wrong. -/
inductive Cause where
  | file (error : FileError)
  /-- Settings that are not TOML or not of the right shape. -/
  | malformed
  | plan (error : Lap.SyntaxError)
  | build (error : Engine.BuildError)
  | script (fault : Script.Fault)
  | behaviours (error : Script.BuildError)
  | config (error : Engine.ConfigError)
  | case (fault : Eval.CaseFault)
  | caseNotFound (id path : String)
  | otherCase (path id : String)
  | duplicateCase (id : String)
  | capability (error : Script.ReadError)

def Cause.message : Cause → String
  | .file e => e.message
  | .malformed => "malformed settings"
  | .plan e => e.message
  | .build e => e.message
  | .script fault => fault.message
  | .behaviours e => e.message
  | .config e => e.message
  | .case fault => fault.message
  | .caseNotFound id path => s!"case {id} not found at {path}"
  | .otherCase path id => s!"case file {path} declares id {id}"
  | .duplicateCase id => s!"duplicate case.id {id}"
  | .capability e => e.message

/-- A cause with its circumstances, the most general one first. -/
structure Failure where
  circumstances : List String
  cause : Cause

namespace Failure

/-- A failure without further circumstances. -/
def of (cause : Cause) : Failure := ⟨[], cause⟩

/-- The failure with a more general circumstance. -/
def during (circumstance : String) (failure : Failure) : Failure :=
  ⟨circumstance :: failure.circumstances, failure.cause⟩

def message (failure : Failure) : String :=
  ": ".intercalate (failure.circumstances ++ [failure.cause.message])

/-- The failure that refused settings are. -/
def ofRefusal {ε : Type} (cause : ε → Cause) : Refusal ε → Failure
  | .malformed => of .malformed
  | .invalid fault => of (cause fault)

/-- The failure of a run. -/
def ofRun : Engine.RunError Script.ReadError → Failure
  | .config e => of (.config e)
  | .capability e => of (.capability e)

end Failure

end SlipStack
