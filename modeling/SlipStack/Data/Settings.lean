import SlipStack.Data.Toml

/-!
# Settings files

A settings file is TOML text of a fixed shape whose content obeys some rules. `Toml.load`
reads one; `Refusal` tells the two ways in which that may go wrong apart.
-/

namespace SlipStack

/-- Why a settings file is refused. -/
inductive Refusal (ε : Type) where
  /-- The text is not TOML, or not of the right shape. -/
  | malformed
  /-- The content breaks a rule. -/
  | invalid (fault : ε)
  deriving DecidableEq, Repr

/-- Reads a settings file, given how its document is decoded and what a fault in it is. -/
def Toml.load {α ε : Type} (ofData? : Data → Option α) (fault? : α → Option ε)
    (text : String) : Except (Refusal ε) α :=
  match (Toml.read? text).bind ofData? with
  | none => .error .malformed
  | some content =>
    match fault? content with
    | some fault => .error (.invalid fault)
    | none => .ok content

end SlipStack
