/-!
# Why plan text is rejected

A `SyntaxError` is a cause and the line on which reading got stuck. Most causes are an
expectation that the next token did not meet; `Expected` lists what can be expected. An
expectation that names a part of the plan carries that name.
-/

namespace SlipStack.Lap

/-- What a plan has to go on with at some place. -/
inductive Expected where
  | planStart
  | partOrPlanEnd
  | docText
  | docEnd
  | collectionName
  | drivesWord (collection : String)
  | driveLevelIn (collection : String)
  | driveElement
  | driveLevelEnd
  | collectionEnd (collection : String)
  | openAfterNil (owner : String)
  | openOrNil (owner : String)
  | openAfterGoal (owner : String)
  | driveElementName
  | driveTarget (element : String)
  | driveElementEnd (element : String)
  | competenceName
  | competenceSlot (competence : String)
  | elementsWord (competence : String)
  | competenceLevelIn (competence : String)
  | competenceElementIn (competence : String)
  | competenceLevelEnd
  | elementsEnd (competence : String)
  | competenceEnd (competence : String)
  | competenceElementName
  | competenceTarget (element competence : String)
  | competenceElementEnd (element competence : String)
  | patternName
  | patternSlot (pattern : String)
  | patternAfterNil (pattern : String)
  | patternAfterTime (pattern : String)
  | patternStep (pattern : String)
  | patternStepsEnd (pattern : String)
  | patternEnd (pattern : String)
  | goalEnd
  | triggerWord
  | triggerEnd
  | senseList
  | senseOrOpen
  | senseName
  | senseValue
  | operator
  | senseEnd (sense : String)
  | timeEnd
  | frequencyUnit
  | frequencyEnd
  | number
  deriving DecidableEq, Repr

/-- A name in single quotes. -/
def quoted (name : String) : String :=
  "'" ++ name ++ "'"

namespace Expected

/-- The expectation in words. -/
def text : Expected → String
  | .planStart => "'(' to start the plan"
  | .partOrPlanEnd => "'(' to open a plan element or ')' to end the plan"
  | .docText => "a quoted documentation string"
  | .docEnd => "')' to end the documentation"
  | .collectionName => "a drive collection name"
  | .drivesWord name => "'drives' in drive collection " ++ quoted name
  | .driveLevelIn name => "'(' to open a drive priority level in " ++ quoted name
  | .driveElement => "'(' to open a drive element"
  | .driveLevelEnd => "')' to end a drive priority level"
  | .collectionEnd name => "')' to end drive collection " ++ quoted name
  | .openAfterNil owner => "'(' after 'nil' in " ++ quoted owner
  | .openOrNil owner => "'(' or 'nil' in " ++ quoted owner
  | .openAfterGoal owner => "'(' after the goal of " ++ quoted owner
  | .driveElementName => "a drive element name"
  | .driveTarget element => "the target name of drive element " ++ quoted element
  | .driveElementEnd element => "')' to end drive element " ++ quoted element
  | .competenceName => "a competence name"
  | .competenceSlot name => "'(' or 'nil' after competence name " ++ quoted name
  | .elementsWord name => "'elements' in competence " ++ quoted name
  | .competenceLevelIn name => "'(' to open a competence priority level in " ++ quoted name
  | .competenceElementIn name => "'(' to open a competence element in " ++ quoted name
  | .competenceLevelEnd => "')' to end a competence priority level"
  | .elementsEnd name => "')' to end the elements of competence " ++ quoted name
  | .competenceEnd name => "')' to end competence " ++ quoted name
  | .competenceElementName => "a competence element name"
  | .competenceTarget element name =>
    "the target name of element " ++ quoted element ++ " in competence " ++ quoted name
  | .competenceElementEnd element name =>
    "')' to end element " ++ quoted element ++ " in competence " ++ quoted name
  | .patternName => "an action pattern name"
  | .patternSlot name => "'(' or 'nil' after action pattern name " ++ quoted name
  | .patternAfterNil name => "'(' after 'nil' in action pattern " ++ quoted name
  | .patternAfterTime name => "'(' after the time of action pattern " ++ quoted name
  | .patternStep name => "an action pattern step in " ++ quoted name
  | .patternStepsEnd name => "')' to end the steps of action pattern " ++ quoted name
  | .patternEnd name => "')' to end action pattern " ++ quoted name
  | .goalEnd => "')' to end the goal"
  | .triggerWord => "'trigger'"
  | .triggerEnd => "')' to end the trigger"
  | .senseList => "'(' or 'nil' to open a sense list"
  | .senseOrOpen => "a sense name or '('"
  | .senseName => "a sense name"
  | .senseValue => "a sense value"
  | .operator => "a comparison operator"
  | .senseEnd name => "')' to end sense " ++ quoted name
  | .timeEnd => "')' to end the time"
  | .frequencyUnit => "a frequency unit"
  | .frequencyEnd => "')' to end the frequency"
  | .number => "a number"

end Expected

/-- Why reading got stuck. -/
inductive Cause where
  /-- The text ends too early. -/
  | endOfInput
  /-- The next token, whose text is given, is not what was expected. -/
  | unmet (expected : Expected) (found : String)
  | lateDocumentation
  | secondCollection
  /-- A parenthesis opens something that is no part of a plan. -/
  | noPart (found : String)
  | afterEnd (found : String)
  /-- There is neither a drive collection nor exactly one other part. -/
  | noSingleRoot
  | retriesOutOfRange (count element : String)
  | zeroFrequency
  | badNumber (text : String)
  deriving DecidableEq, Repr

/-- The cause in words. -/
def Cause.text : Cause → String
  | .endOfInput => "unexpected end of input"
  | .unmet expected found => "expected " ++ expected.text ++ ", found " ++ quoted found
  | .lateDocumentation => "documentation is only allowed as the first plan element"
  | .secondCollection => "a plan allows only a single drive collection"
  | .noPart found =>
    "expected documentation, competence, action pattern or drive collection, found " ++
      quoted found
  | .afterEnd found => "unexpected " ++ quoted found ++ " after the end of the plan"
  | .noSingleRoot =>
    "a plan without a drive collection must consist of exactly one competence or one " ++
      "action pattern"
  | .retriesOutOfRange count element =>
    "retry count " ++ quoted count ++ " of element " ++ quoted element ++ " is out of range"
  | .zeroFrequency => "a frequency of zero has no period"
  | .badNumber text => quoted text ++ " is not a valid number"

/-- A rejected plan text. -/
structure SyntaxError where
  line : Nat
  cause : Cause
  deriving DecidableEq, Repr

/-- The report of a syntax error. -/
def SyntaxError.message (e : SyntaxError) : String :=
  "Line " ++ toString e.line ++ ": " ++ e.cause.text

end SlipStack.Lap
