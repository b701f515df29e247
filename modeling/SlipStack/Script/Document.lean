import SlipStack.Data.Decode
import SlipStack.Data.Settings
import SlipStack.Script.Basic

/-!
# Scripts as documents

The document form of a script: behaviours under `behaviour`, each with its actions under
`action` and its senses under `sense`. Lists may be left out, and so may the way in which a
sequence goes on. No other fields are allowed.
-/

namespace SlipStack

open Data

/-- A value as a plain scalar. A whole number beyond the signed 64-bit integers, but within
the unsigned ones, is a binary64 number. -/
def Value.ofData? : Data → Option Value
  | .bool b => some (.bool b)
  | .int n =>
    if Numeral.fitsInt64 n then some (.int n)
    else if 0 ≤ n && n < 2 ^ 64 then some (.real (Binary64.ofInt n))
    else none
  | .real x => some (.real x)
  | .text s => some (.text s)
  | _ => none

namespace Script

def Repeat.ofData? (data : Data) : Option Repeat :=
  (data.word? isEmpty).bind Repeat.ofText?

def effectOfData? (field : String × Data) : Option (String × Value) :=
  (Value.ofData? field.2).map (field.1, ·)

def effectsOfData? : Data → Option Blackboard
  | .table fields => (fields.mapM effectOfData?).map .ofEntries
  | _ => none

def Action.ofData? (data : Data) : Option Action :=
  match data.settings? ["name", "results", "repeat", "effects"] 1 true with
  | some [name, results, mode, effects] =>
    return ⟨← required? text? name, ← defaulted? [] (list? bool?) results,
      ← defaulted? .last Repeat.ofData? mode, ← defaulted? .empty effectsOfData? effects⟩
  | _ => none

def Sense.ofData? (data : Data) : Option Sense :=
  match data.settings? ["name", "values", "repeat", "initial"] 4 true with
  | some [name, values, mode, initial] =>
    return ⟨← required? text? name, ← defaulted? [] (list? Value.ofData?) values,
      ← defaulted? .last Repeat.ofData? mode, ← optional? Value.ofData? initial⟩
  | _ => none

def Behaviour.ofData? (data : Data) : Option Behaviour :=
  match data.settings? ["name", "action", "sense"] 1 true with
  | some [name, actions, senses] =>
    return ⟨← required? text? name, ← defaulted? [] (list? Action.ofData?) actions,
      ← defaulted? [] (list? Sense.ofData?) senses⟩
  | _ => none

/-- The script that a document holds. -/
def ofData? (data : Data) : Option Script :=
  match data.settings? ["behaviour"] 0 true with
  | some [behaviours] => return ⟨← defaulted? [] (list? Behaviour.ofData?) behaviours⟩
  | _ => none

/-- The script that a settings file holds. -/
def ofToml (text : String) : Except (Refusal Fault) Script :=
  Toml.load ofData? fault? text

end Script

end SlipStack
