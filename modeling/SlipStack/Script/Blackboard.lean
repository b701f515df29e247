import SlipStack.Data.NameMap
import SlipStack.Sense.Value

/-!
# Blackboards

A blackboard holds values under names. Actions of scripted behaviours write on it and
senses read from it.
-/

namespace SlipStack

/-- Values under names. -/
abbrev Blackboard := NameMap Value

end SlipStack
