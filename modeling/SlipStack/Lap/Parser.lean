import SlipStack.Lap.Supply
import SlipStack.Lap.SyntaxError
import SlipStack.Number.Numeral
import SlipStack.Plan.Basic

/-!
# Reading plans

A recursive descent over tokens with one token of lookahead. Each production takes the
tokens that are left and returns what it read and the tokens after it, or says why it got
stuck and in front of which tokens. The tokens come from a `Supply`; a text is read through a
`Cursor`, and the line of a syntax error is the one that its lexer has reached.

A slot that may be `nil` may also be left out where the next token tells so. Goals and
triggers without conditions are absent. Durations are converted to milliseconds and cut to
whole ones; a rate is converted to its period.
-/

namespace SlipStack.Lap

open Plan

/-- Why and in front of which tokens reading got stuck. -/
structure StuckAt (σ : Type) where
  cause : Cause
  rest : σ
  deriving DecidableEq, Repr

/-- A production: from the tokens that are left to what it reads and the tokens after it. -/
abbrev ParserOn (σ α : Type) := StateT σ (Except (StuckAt σ)) α

/-- Where reading got stuck in a list of tokens. -/
abbrev Stuck := StuckAt (List Token)

/-- A production on lists of tokens. -/
abbrev Parser (α : Type) := ParserOn (List Token) α

namespace Parser

variable {σ : Type} [Supply σ]

/-! ## Single tokens and repetition -/

/-- Gets stuck in front of the tokens that are left. -/
def stuck {α : Type} (cause : Cause) : ParserOn σ α :=
  fun tokens => .error ⟨cause, tokens⟩

/-- Gets stuck for want of the given item. -/
def unmet {α : Type} (expected : Expected) : ParserOn σ α := fun tokens =>
  match Supply.head? tokens with
  | none => .error ⟨.endOfInput, tokens⟩
  | some token => .error ⟨.unmet expected token.text, tokens⟩

/-- Consumes a token of one of the given kinds. -/
def expect (kinds : List Kind) (expected : Expected) : ParserOn σ Token := fun tokens =>
  match Supply.head? tokens with
  | none => unmet expected tokens
  | some token =>
    if token.kind ∈ kinds then .ok (token, Supply.tail tokens) else unmet expected tokens

/-- The kind of the next token, which stays. There has to be one. -/
def peek : ParserOn σ Kind := fun tokens =>
  match Supply.head? tokens with
  | none => .error ⟨.endOfInput, tokens⟩
  | some token => .ok (token.kind, tokens)

/-- Consumes the next token, which the caller has looked at. -/
def skip : ParserOn σ Unit :=
  fun tokens => .ok ((), Supply.tail tokens)

/-- Reads items as long as the next token starts one; an item is read from its first token
and what follows it. The comparison of sizes always succeeds, since no item gives back
more tokens than it got. -/
def many {α : Type} (starts : Kind → Bool) (item : Token → ParserOn σ α) :
    ParserOn σ (List α) := fun tokens =>
  match _hhead : Supply.head? tokens with
  | none => .error ⟨.endOfInput, tokens⟩
  | some token =>
    if starts token.kind then
      match item token (Supply.tail tokens) with
      | .error stuck => .error stuck
      | .ok (x, after) =>
        if _h : Supply.size after ≤ Supply.size (Supply.tail tokens) then
          match many starts item after with
          | .error stuck => .error stuck
          | .ok (xs, after) => .ok (x :: xs, after)
        else .ok ([x], after)
    else .ok ([], tokens)
termination_by tokens => Supply.size tokens
decreasing_by exact Nat.lt_of_le_of_lt _h (Supply.size_tail_lt _hhead)

def isOpening (kind : Kind) : Bool :=
  kind = .leftParen

/-- Reads one or more items in parentheses; `item` is read from what follows the opening
parenthesis. -/
def parenthesised {α : Type} (expected : Expected) (item : ParserOn σ α) :
    ParserOn σ (List α) := do
  let kind ← peek
  if isOpening kind then many isOpening fun _ => item else unmet expected

/-- Passes a quoted text, if one is next. -/
def optionalComment : ParserOn σ Unit := do
  let kind ← peek
  if kind = .comment then skip else pure ()

/-! ## Durations -/

def timeUnits : List Kind := [.hours, .minutes, .seconds, .noUnit]

def frequencyUnits : List Kind := [.hours, .minutes, .seconds, .hz, .pm, .noUnit]

/-- The duration of `value` units, as a binary64 number of milliseconds. The units of
frequency give the period of a rate; a rate of zero has none. -/
def inMillis? (unit : Kind) (value : Binary64) : Option Binary64 :=
  match unit with
  | .hours => some ((Binary64.ofNat 3600000).mul value)
  | .minutes => some ((Binary64.ofNat 60000).mul value)
  | .seconds => some ((Binary64.ofNat 1000).mul value)
  | .hz => if value.isZero then none else some ((Binary64.ofNat 1000).div value)
  | .pm => if value.isZero then none else some ((Binary64.ofNat 60000).div value)
  | _ => some value

/-- A number. -/
def number : ParserOn σ Binary64 := do
  let token ← expect [.int, .float] .number
  match Numeral.decimal? token.text.toList with
  | some value => pure value
  | none => stuck (.badNumber token.text)

/-- The number and closing parenthesis after a unit, converted to whole milliseconds. -/
def millisOf (unit : Kind) (closing : Expected) : ParserOn σ Int := do
  let value ← number
  let _ ← expect [.rightParen] closing
  match inMillis? unit value with
  | some millis => pure millis.toInt64
  | none => stuck .zeroFrequency

/-- A duration after its opening parenthesis; the next token is known to be its unit. -/
def time (unit : Kind) : ParserOn σ Int := do
  skip
  millisOf unit .timeEnd

/-- A duration or rate after its opening parenthesis. -/
def frequency : ParserOn σ Int := do
  let unit ← expect frequencyUnits .frequencyUnit
  millisOf unit.kind .frequencyEnd

/-! ## Conditions -/

/-- The kinds of token that a sense may be compared with. -/
def valueKinds : List Kind := [.int, .float, .name, .string, .nil]

/-- The operator of a sense after its value, unless the sense ends here. -/
def operatorSlot : ParserOn σ (Option String) := do
  let kind ← peek
  if kind = .rightParen then pure none
  else
    let operator ← expect [.predicate] .operator
    pure (some operator.text)

/-- The value of a sense and its operator, unless the sense ends before them. -/
def comparisonSlot : ParserOn σ (Option String × Option String) := do
  let kind ← peek
  if kind = .rightParen then pure (none, none)
  else
    let value ← expect valueKinds .senseValue
    let operator ← operatorSlot
    pure (some value.text, operator)

/-- A sense after its opening parenthesis. -/
def sense : ParserOn σ (String × Option String × Option String) := do
  let name ← expect [.name] .senseName
  let comparison ← comparisonSlot
  let _ ← expect [.rightParen] (.senseEnd name.text)
  pure (name.text, comparison)

def startsCondition (kind : Kind) : Bool :=
  kind = .name || kind = .leftParen

/-- A bare name or a sense in parentheses. -/
def condition (first : Token) : ParserOn σ Condition :=
  if first.kind = .name then pure (.bare first.text)
  else do
    let (name, value, operator) ← sense
    pure (.check name value operator)

/-- A list of conditions; `nil` has none. -/
def conditions : ParserOn σ (List Condition) := do
  let kind ← peek
  if kind = .nil then
    skip
    pure []
  else
    let _ ← expect [.leftParen] .senseList
    let conditions ← many startsCondition condition
    let _ ← expect [.rightParen] .senseOrOpen
    pure conditions

/-- Conditions of which there is at least one. -/
def present (conditions : List Condition) : Option (List Condition) :=
  if conditions.isEmpty then none else some conditions

/-- A goal, where the next token is known to be its keyword. -/
def goal : ParserOn σ (Option (List Condition)) := do
  skip
  let conditions ← conditions
  let _ ← expect [.rightParen] .goalEnd
  pure (present conditions)

/-- A goal, where the next token is known to be its keyword, and the parenthesis that opens
the element list. -/
def goalAndOpening (owner : String) : ParserOn σ (Option (List Condition)) := do
  let goal ← goal
  let _ ← expect [.leftParen] (.openAfterGoal owner)
  pure goal

/-- The slot in front of an element list, with the parenthesis that opens the list:
`nil (`, `(goal …) (`, or `(` alone. -/
def goalSlot (owner : String) : ParserOn σ (Option (List Condition)) := do
  let kind ← peek
  if kind = .nil then
    skip
    let _ ← expect [.leftParen] (.openAfterNil owner)
    pure none
  else
    let _ ← expect [.leftParen] (.openOrNil owner)
    let kind ← peek
    if kind = .goal then goalAndOpening owner else pure none

/-- The trigger of an element: `nil`, `(trigger …)`, or nothing. -/
def triggerSlot : ParserOn σ (Option (List Condition)) := do
  let kind ← peek
  if kind = .nil then
    skip
    pure none
  else if kind = .leftParen then
    skip
    let _ ← expect [.trigger] .triggerWord
    let conditions ← conditions
    let _ ← expect [.rightParen] .triggerEnd
    pure (present conditions)
  else pure none

/-! ## Drive collections -/

/-- The interval of a drive element: `nil`, a frequency in parentheses, or nothing. -/
def intervalSlot : ParserOn σ (Option Int) := do
  let kind ← peek
  if kind = .nil then
    skip
    pure none
  else if kind = .leftParen then
    skip
    let millis ← frequency
    pure (some millis)
  else pure none

/-- A drive element after its opening parenthesis. -/
def driveElement : ParserOn σ DriveElement := do
  let name ← expect [.name] .driveElementName
  let trigger ← triggerSlot
  let target ← expect [.name] (.driveTarget name.text)
  let interval ← intervalSlot
  optionalComment
  let _ ← expect [.rightParen] (.driveElementEnd name.text)
  pure ⟨name.text, trigger, target.text, interval⟩

/-- A priority level of drive elements after its opening parenthesis. -/
def driveLevel : ParserOn σ (List DriveElement) := do
  let elements ← parenthesised .driveElement driveElement
  let _ ← expect [.rightParen] .driveLevelEnd
  pure elements

/-- A drive collection after its tag. -/
def driveCollection (tag : String) : ParserOn σ DriveCollection := do
  let name ← expect [.name] .collectionName
  let goal ← goalSlot name.text
  let _ ← expect [.drives] (.drivesWord name.text)
  let levels ← parenthesised (.driveLevelIn name.text) driveLevel
  -- One parenthesis ends the levels, the other the collection.
  let _ ← expect [.rightParen] (.collectionEnd name.text)
  let _ ← expect [.rightParen] (.collectionEnd name.text)
  pure ⟨tag, name.text, goal, levels⟩

/-! ## Competences -/

/-- The retry limit of a competence element: `nil`, a whole number, or nothing. -/
def retriesSlot (element : String) : ParserOn σ Int := do
  let kind ← peek
  if kind = .nil then
    skip
    pure (-1)
  else if kind = .int then
    let token ← expect [.int] .number
    match Numeral.int64? token.text.toList with
    | some count => pure count
    | none => stuck (.retriesOutOfRange token.text element)
  else pure (-1)

/-- A competence element after its opening parenthesis. -/
def competenceElement (competence : String) : ParserOn σ CompetenceElement := do
  let name ← expect [.name] .competenceElementName
  let trigger ← triggerSlot
  let target ← expect [.name] (.competenceTarget name.text competence)
  let maxRetries ← retriesSlot name.text
  optionalComment
  let _ ← expect [.rightParen] (.competenceElementEnd name.text competence)
  pure ⟨name.text, trigger, target.text, maxRetries⟩

/-- A priority level of competence elements after its opening parenthesis. -/
def competenceLevel (competence : String) : ParserOn σ (List CompetenceElement) := do
  let elements ← parenthesised (.competenceElementIn competence) (competenceElement competence)
  let _ ← expect [.rightParen] .competenceLevelEnd
  pure elements

/-- What stands between the name of a competence and its elements, with the parenthesis
that opens the elements: a time and a goal, each of which may be `nil` or left out. -/
def competenceHead (name : String) : ParserOn σ (Option Int × Option (List Condition)) := do
  let kind ← peek
  if kind = .nil then
    skip
    let goal ← goalSlot name
    pure (none, goal)
  else
    let _ ← expect [.leftParen] (.competenceSlot name)
    let kind ← peek
    if kind ∈ timeUnits then
      let millis ← time kind
      let goal ← goalSlot name
      pure (some millis, goal)
    else if kind = .goal then
      let goal ← goalAndOpening name
      pure (none, goal)
    else pure (none, none)

/-- A competence after its keyword. -/
def competence : ParserOn σ Competence := do
  let name ← expect [.name] .competenceName
  let (time, goal) ← competenceHead name.text
  let _ ← expect [.elements] (.elementsWord name.text)
  let levels ← parenthesised (.competenceLevelIn name.text) (competenceLevel name.text)
  let _ ← expect [.rightParen] (.elementsEnd name.text)
  optionalComment
  let _ ← expect [.rightParen] (.competenceEnd name.text)
  pure ⟨name.text, time, goal, levels⟩

/-! ## Action patterns -/

/-- What stands between the name of an action pattern and its steps, with the parenthesis
that opens the steps. -/
def patternHead (name : String) : ParserOn σ (Option Int) := do
  let kind ← peek
  if kind = .nil then
    skip
    let _ ← expect [.leftParen] (.patternAfterNil name)
    pure none
  else
    let _ ← expect [.leftParen] (.patternSlot name)
    let kind ← peek
    if kind ∈ timeUnits then
      let millis ← time kind
      let _ ← expect [.leftParen] (.patternAfterTime name)
      pure (some millis)
    else pure none

/-- A bare name or a sense in parentheses. -/
def step (first : Token) : ParserOn σ Step :=
  if first.kind = .name then pure (.named first.text)
  else do
    let (name, value, operator) ← sense
    pure (.sense name value operator)

/-- One or more steps. -/
def steps (pattern : String) : ParserOn σ (List Step) := do
  let kind ← peek
  if startsCondition kind then many startsCondition step else unmet (.patternStep pattern)

/-- An action pattern after its keyword. -/
def actionPattern : ParserOn σ ActionPattern := do
  let name ← expect [.name] .patternName
  let time ← patternHead name.text
  let steps ← steps name.text
  let _ ← expect [.rightParen] (.patternStepsEnd name.text)
  optionalComment
  let _ ← expect [.rightParen] (.patternEnd name.text)
  pure ⟨name.text, time, steps⟩

/-! ## Documentation -/

/-- A text without the quotes around it. -/
def unquote (text : String) : String :=
  match text.toList with
  | '"' :: rest => if rest.getLast? = some '"' then String.ofList rest.dropLast else text
  | _ => text

/-- The documentation after its keyword. -/
def docstring : ParserOn σ Docstring := do
  let title ← expect [.comment] .docText
  let author ← expect [.comment] .docText
  let memo ← expect [.comment] .docText
  let _ ← expect [.rightParen] .docEnd
  pure ⟨unquote title.text, unquote author.text, unquote memo.text⟩

/-! ## Plans -/

/-- The plan with documentation, which has to be its first part. -/
def addDocstring (plan : Plan) : ParserOn σ Plan :=
  if plan = .empty then do
    skip
    let part ← docstring
    pure { plan with docstring := some part }
  else stuck .lateDocumentation

/-- The plan with a drive collection, which has to be its only one. -/
def addCollection (plan : Plan) (tag : String) : ParserOn σ Plan :=
  if plan.collection.isNone then do
    skip
    let part ← driveCollection tag
    pure { plan with collection := some part }
  else stuck .secondCollection

/-- The plan with one more part, which is read from its keyword on. -/
def addPart (plan : Plan) : ParserOn σ Plan := fun tokens =>
  match Supply.head? tokens with
  | none => .error ⟨.endOfInput, tokens⟩
  | some token =>
    match token.kind with
    | .documentation => addDocstring plan tokens
    | .competence => do
      let (part, rest) ← competence (Supply.tail tokens)
      pure ({ plan with competences := plan.competences ++ [part] }, rest)
    | .actionPattern => do
      let (part, rest) ← actionPattern (Supply.tail tokens)
      pure ({ plan with patterns := plan.patterns ++ [part] }, rest)
    | kind =>
      if kind.isCollectionTag then addCollection plan token.text tokens
      else stuck (.noPart token.text) tokens

/-- The plan with its remaining parts, up to its closing parenthesis. The comparison of
sizes always succeeds. -/
def addParts (plan : Plan) : ParserOn σ Plan := fun tokens =>
  match _hhead : Supply.head? tokens with
  | none => .error ⟨.endOfInput, tokens⟩
  | some token =>
    if token.kind = .rightParen then .ok (plan, Supply.tail tokens)
    else if token.kind = .leftParen then
      match addPart plan (Supply.tail tokens) with
      | .error stuck => .error stuck
      | .ok (plan, after) =>
        if _h : Supply.size after ≤ Supply.size (Supply.tail tokens) then addParts plan after
        else .ok (plan, after)
    else unmet .partOrPlanEnd tokens
termination_by tokens => Supply.size tokens
decreasing_by exact Nat.lt_of_le_of_lt _h (Supply.size_tail_lt _hhead)

/-- Nothing may follow a plan. Without a drive collection it has to consist of exactly one
competence or action pattern. -/
def finish (plan : Plan) : ParserOn σ Plan := fun tokens =>
  match Supply.head? tokens with
  | some token => .error ⟨.afterEnd token.text, tokens⟩
  | none =>
    -- The one node of such a plan is its root.
    if plan.collection.isNone && plan.competences.length + plan.patterns.length ≠ 1 then
      .error ⟨.noSingleRoot, tokens⟩
    else .ok (plan, tokens)

/-- A plan, which takes up all tokens. -/
def plan : ParserOn σ Plan := do
  let _ ← expect [.leftParen] .planStart
  let plan ← addParts .empty
  finish plan

end Parser

/-- The plan that a text holds. Illegal characters in it are passed over. -/
def parse (source : String) : Except SyntaxError Plan :=
  match Parser.plan (Cursor.ofSource source) with
  | .ok (plan, _) => .ok plan
  | .error stuck => .error ⟨stuck.rest.lexer.line, stuck.cause⟩

end SlipStack.Lap
