import SlipStack.Data.Decode
import SlipStack.Plan.Basic

/-!
# Plans as documents

The document form of a plan, for other programs. Writing gives every field; reading
accepts missing ones where a field may be null, and passes over fields it does not know.
Reading does not judge the plan: names, tags and operators may be any text.
-/

namespace SlipStack.Plan

/-! ## Writing -/

def Docstring.toData (doc : Docstring) : Data :=
  .table [("title", .text doc.title), ("author", .text doc.author), ("memo", .text doc.memo)]

/-- A sense with its comparison, under the given type word. -/
def checkToData (type name : String) (value operator : Option String) : Data :=
  .table [("type", .text type), ("name", .text name), ("value", .ofOption .text value),
    ("predicate", .ofOption .text operator)]

def Condition.toData : Condition → Data
  | .bare name => .table [("type", .text "sense_act"), ("name", .text name)]
  | .check name value operator => checkToData "check" name value operator

def conditionsToData : Option (List Condition) → Data :=
  .ofOption fun conditions => .list (conditions.map Condition.toData)

/-- Priority levels, each a list of elements. -/
def levelsToData {α : Type} (element : α → Data) (levels : List (List α)) : Data :=
  .list (levels.map fun level => .list (level.map element))

def DriveElement.toData (element : DriveElement) : Data :=
  .table [("name", .text element.name), ("trigger", conditionsToData element.trigger),
    ("target", .text element.target), ("interval_ms", .ofOption .int element.interval)]

def DriveCollection.toData (collection : DriveCollection) : Data :=
  .table [("kind", .text collection.tag), ("name", .text collection.name),
    ("goal", conditionsToData collection.goal),
    ("priorities", levelsToData DriveElement.toData collection.levels)]

def CompetenceElement.toData (element : CompetenceElement) : Data :=
  .table [("name", .text element.name), ("trigger", conditionsToData element.trigger),
    ("target", .text element.target), ("max_retries", .int element.maxRetries)]

def Competence.toData (competence : Competence) : Data :=
  .table [("name", .text competence.name), ("time_ms", .ofOption .int competence.time),
    ("goal", conditionsToData competence.goal),
    ("priorities", levelsToData CompetenceElement.toData competence.levels)]

def Step.toData : Step → Data
  | .named name => .table [("type", .text "named"), ("name", .text name)]
  | .sense name value operator => checkToData "sense" name value operator

def ActionPattern.toData (pattern : ActionPattern) : Data :=
  .table [("name", .text pattern.name), ("time_ms", .ofOption .int pattern.time),
    ("steps", .list (pattern.steps.map Step.toData))]

/-- The document form of a plan. -/
def toData (plan : Plan) : Data :=
  .table [("docstring", .ofOption Docstring.toData plan.docstring),
    ("drive_collection", .ofOption DriveCollection.toData plan.collection),
    ("competences", .list (plan.competences.map Competence.toData)),
    ("action_patterns", .list (plan.patterns.map ActionPattern.toData))]

/-! ## Reading -/

open Data

def Docstring.ofData? (data : Data) : Option Docstring :=
  match data.record? ["title", "author", "memo"] with
  | some [title, author, memo] =>
    return ⟨← required? text? title, ← required? text? author, ← required? text? memo⟩
  | _ => none

/-- A bare name. -/
def nameOfData? (data : Data) : Option String :=
  match data.record? ["name"] with
  | some [name] => required? text? name
  | _ => none

/-- A sense with its comparison. -/
def checkOfData? (data : Data) : Option (String × Option String × Option String) :=
  match data.record? ["name", "value", "predicate"] with
  | some [name, value, operator] =>
    return (← required? text? name, ← optional? text? value, ← optional? text? operator)
  | _ => none

def Condition.ofData? (data : Data) : Option Condition :=
  match data.tagged? "type" with
  | some ("sense_act", fields) => (nameOfData? fields).map .bare
  | some ("check", fields) =>
    (checkOfData? fields).map fun (name, value, operator) => .check name value operator
  | _ => none

def conditionsOfData? : Option Data → Option (Option (List Condition)) :=
  optional? (list? Condition.ofData?)

def levelsOfData? {α : Type} (element? : Data → Option α) : Option Data →
    Option (List (List α)) :=
  required? (list? (list? element?))

def DriveElement.ofData? (data : Data) : Option DriveElement :=
  match data.record? ["name", "trigger", "target", "interval_ms"] with
  | some [name, trigger, target, interval] =>
    return ⟨← required? text? name, ← conditionsOfData? trigger, ← required? text? target,
      ← optional? int64? interval⟩
  | _ => none

def DriveCollection.ofData? (data : Data) : Option DriveCollection :=
  match data.record? ["kind", "name", "goal", "priorities"] with
  | some [tag, name, goal, levels] =>
    return ⟨← required? text? tag, ← required? text? name, ← conditionsOfData? goal,
      ← levelsOfData? DriveElement.ofData? levels⟩
  | _ => none

def CompetenceElement.ofData? (data : Data) : Option CompetenceElement :=
  match data.record? ["name", "trigger", "target", "max_retries"] with
  | some [name, trigger, target, maxRetries] =>
    return ⟨← required? text? name, ← conditionsOfData? trigger, ← required? text? target,
      ← required? int64? maxRetries⟩
  | _ => none

def Competence.ofData? (data : Data) : Option Competence :=
  match data.record? ["name", "time_ms", "goal", "priorities"] with
  | some [name, time, goal, levels] =>
    return ⟨← required? text? name, ← optional? int64? time, ← conditionsOfData? goal,
      ← levelsOfData? CompetenceElement.ofData? levels⟩
  | _ => none

def Step.ofData? (data : Data) : Option Step :=
  match data.tagged? "type" with
  | some ("named", fields) => (nameOfData? fields).map .named
  | some ("sense", fields) =>
    (checkOfData? fields).map fun (name, value, operator) => .sense name value operator
  | _ => none

def ActionPattern.ofData? (data : Data) : Option ActionPattern :=
  match data.record? ["name", "time_ms", "steps"] with
  | some [name, time, steps] =>
    return ⟨← required? text? name, ← optional? int64? time,
      ← required? (list? Step.ofData?) steps⟩
  | _ => none

/-- The plan that a document holds. -/
def ofData? (data : Data) : Option Plan :=
  match data.record? ["docstring", "drive_collection", "competences", "action_patterns"] with
  | some [docstring, collection, competences, patterns] =>
    return ⟨← optional? Docstring.ofData? docstring,
      ← optional? DriveCollection.ofData? collection,
      ← required? (list? Competence.ofData?) competences,
      ← required? (list? ActionPattern.ofData?) patterns⟩
  | _ => none

end SlipStack.Plan
