import SlipStack.Data.Decode
import SlipStack.Data.Settings
import SlipStack.Engine.Config

/-!
# Configurations as documents

The document form of a configuration. All of it may be left out, and fields that are not
known are passed over.
-/

namespace SlipStack.Engine

open Data

def Pace.ofText? (text : String) : Option Pace :=
  if text = "plan" then some .plan
  else if text = "stepped" then some .stepped
  else if text = "real_time" then some .realTime
  else none

def Pace.ofData? (data : Data) : Option Pace :=
  (data.word? isEmpty).bind Pace.ofText?

def Timer.ofData? (data : Data) : Option Timer :=
  match data.settings? ["discipline", "period_ms", "window"] 0 false with
  | some [pace, period, window] =>
    return ⟨← defaulted? Timer.default.pace Pace.ofData? pace,
      ← optional? nat64? period, ← defaulted? Timer.default.window nat64? window⟩
  | _ => none

/-- The configuration that a document holds. -/
def Config.ofData? (data : Data) : Option Config :=
  match data.settings? ["max_steps", "stop_on_lost", "timer"] 0 false with
  | some [maxSteps, stopOnLost, timer] =>
    return ⟨← defaulted? Config.default.maxSteps nat64? maxSteps,
      ← defaulted? Config.default.stopOnLost bool? stopOnLost,
      ← defaulted? Config.default.timer Timer.ofData? timer⟩
  | _ => none

/-- The configuration that a settings file holds. -/
def Config.ofToml (text : String) : Except (Refusal ConfigError) Config :=
  Toml.load ofData? Config.error? text

end SlipStack.Engine
