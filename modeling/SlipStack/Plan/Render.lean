import SlipStack.Plan.Basic

/-!
# Canonical plan text

`Plan.render` writes a plan in one fixed layout: documentation, drive collection,
competences, action patterns, each on lines of its own, with every optional slot filled.
Durations are written in plain milliseconds. A plan that was read from text is read back
from its rendering unchanged.

The texts of a plan are written as they are. A plan whose names are no names, or that has
empty lists where the language wants an item, still has a rendering, which then reads back
as something else or not at all. A condition writes its operator only beside a value.
-/

namespace SlipStack.Plan

/-- The given texts with a separator between each two. -/
def separated (separator : String) : List String → String
  | [] => ""
  | [text] => text
  | text :: rest => text ++ separator ++ separated separator rest

/-- A sense in parentheses. -/
def renderCheck (name : String) (value operator : Option String) : String :=
  match value, operator with
  | none, _ => "(" ++ name ++ ")"
  | some value, none => "(" ++ name ++ " " ++ value ++ ")"
  | some value, some operator => "(" ++ name ++ " " ++ value ++ " " ++ operator ++ ")"

def Condition.render : Condition → String
  | .bare name => name
  | .check name value operator => renderCheck name value operator

/-- A goal or trigger under its keyword; one without conditions is `nil`. -/
def renderConditions (keyword : String) : Option (List Condition) → String
  | none => "nil"
  | some [] => "nil"
  | some (condition :: rest) =>
    "(" ++ keyword ++ " (" ++ separated " " ((condition :: rest).map Condition.render) ++ "))"

/-- A duration, `nil` if absent. -/
def renderMillis : Option Int → String
  | none => "nil"
  | some millis => "(none " ++ toString millis ++ ")"

def Docstring.render (doc : Docstring) : String :=
  "  (documentation \"" ++ doc.title ++ "\" \"" ++ doc.author ++ "\" \"" ++ doc.memo ++ "\")\n"

def DriveElement.render (element : DriveElement) : String :=
  "(" ++ element.name ++ " " ++ renderConditions "trigger" element.trigger ++ " " ++
    element.target ++ " " ++ renderMillis element.interval ++ ")"

def CompetenceElement.render (element : CompetenceElement) : String :=
  "(" ++ element.name ++ " " ++ renderConditions "trigger" element.trigger ++ " " ++
    element.target ++ " " ++ toString element.maxRetries ++ ")"

/-- A priority level, its elements below each other. -/
def renderLevel (elements : List String) : String :=
  "    (" ++ separated "\n     " elements ++ ")\n"

/-- Priority levels, the most urgent first. -/
def renderLevels : List (List String) → String
  | [] => ""
  | level :: rest => renderLevel level ++ renderLevels rest

def DriveCollection.render (collection : DriveCollection) : String :=
  "  (" ++ collection.tag ++ " " ++ collection.name ++ " " ++
    renderConditions "goal" collection.goal ++ " (drives\n" ++
    renderLevels (collection.levels.map (·.map DriveElement.render)) ++ "  ))\n"

def Competence.render (competence : Competence) : String :=
  "  (C " ++ competence.name ++ " " ++ renderMillis competence.time ++ " " ++
    renderConditions "goal" competence.goal ++ " (elements\n" ++
    renderLevels (competence.levels.map (·.map CompetenceElement.render)) ++ "  ))\n"

def Step.render : Step → String
  | .named name => name
  | .sense name value operator => renderCheck name value operator

def ActionPattern.render (pattern : ActionPattern) : String :=
  "  (AP " ++ pattern.name ++ " " ++ renderMillis pattern.time ++ " (" ++
    separated " " (pattern.steps.map Step.render) ++ "))\n"

/-- The canonical text of a plan. -/
def render (plan : Plan) : String :=
  "(\n" ++
    separated "" (plan.docstring.toList.map Docstring.render) ++
    separated "" (plan.collection.toList.map DriveCollection.render) ++
    separated "" (plan.competences.map Competence.render) ++
    separated "" (plan.patterns.map ActionPattern.render) ++ ")\n"

end SlipStack.Plan
