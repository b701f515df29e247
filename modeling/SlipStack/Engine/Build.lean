import SlipStack.Engine.Agent

/-!
# Building agents

A plan refers to capabilities, competences and action patterns by name. `Plan.build` binds
every name to what a registry provides or the plan defines, and makes an agent of the
result. It goes through the plan in a fixed order (names, goals of competences, elements of
competences, patterns, drive collection) and stops at the first fault.

A plan without drive collection is built around its root: one drive element, without
trigger and interval, that fires it.
-/

namespace SlipStack.Engine

/-- The two kinds of node that a plan defines. -/
inductive NodeKind where
  | competence
  | pattern
  deriving DecidableEq, Repr

def NodeKind.toText : NodeKind → String
  | .competence => "competence"
  | .pattern => "action pattern"

/-- What a step of a pattern must not be. -/
inductive StepFault where
  | competenceNotLast
  | nestedPattern
  deriving DecidableEq, Repr

def StepFault.toText : StepFault → String
  | .competenceNotLast => "a competence may only be the last step"
  | .nestedPattern => "action patterns cannot be nested"

/-- Why a plan cannot be built. -/
inductive BuildError where
  | duplicateNode (kind : NodeKind) (name : String)
  | nodeClash (kind : NodeKind) (name : String) (other : NodeKind)
  | capabilityClash (kind : NodeKind) (name : String) (capability : CapabilityKind)
  | notFound (name : String)
  | capabilityNotFound (kind : CapabilityKind) (name : String)
  | actionClash (name : String)
  | illegalStep (pattern name : String) (fault : StepFault)
  | noRoot
  | unsupportedTag (tag : String)
  deriving DecidableEq, Repr

def BuildError.message : BuildError → String
  | .duplicateNode kind name => s!"more than one {kind.toText} named '{name}'"
  | .nodeClash kind name other =>
    s!"{kind.toText} name '{name}' clashes with {other.toText} of the same name"
  | .capabilityClash kind name capability =>
    s!"{kind.toText} name '{name}' clashes with {capability.toText} of the same name"
  | .notFound name => s!"no action, competence or action pattern named '{name}' found"
  | .capabilityNotFound kind name => s!"{kind.toText} '{name}' not provided by any behaviour"
  | .actionClash name => s!"action '{name}' is also the name of a competence or action pattern"
  | .illegalStep pattern name fault =>
    s!"action pattern '{pattern}' cannot use '{name}' here: {fault.toText}"
  | .noRoot => "plan has no drive collection, competence or action pattern to run"
  | .unsupportedTag tag =>
    s!"drive collection of type '{tag}' not supported (expected SDC, SRDC, DC or RDC)"

/-- The pace that the tag of a drive collection asks for. -/
def Discipline.ofTag? (tag : String) : Option Discipline :=
  if tag = "SDC" || tag = "DC" then some .stepped
  else if tag = "SRDC" || tag = "RDC" then some (.realTime defaultPeriod)
  else none

/-! ## Names -/

/-- The nodes that a plan defines, competences first. -/
def definedNodes (plan : Plan) : List (NodeKind × String) :=
  plan.competences.map (fun competence => (.competence, competence.name)) ++
    plan.patterns.map (fun pattern => (.pattern, pattern.name))

/-- The kind of capability that a name is registered as. -/
def capabilityKind? (registry : Registry) (name : String) : Option CapabilityKind :=
  if (registry.action? name).isSome then some .action
  else if (registry.sense? name).isSome then some .sense
  else none

/-- The first node whose name is taken, be it by a node before it (those in `seen`) or by a
capability. -/
def nameClash? (registry : Registry) (seen : List (NodeKind × String)) :
    List (NodeKind × String) → Option BuildError
  | [] => none
  | (kind, name) :: rest =>
    match seen.find? (·.2 = name) with
    | some (other, _) =>
      some (if other = kind then .duplicateNode kind name else .nodeClash kind name other)
    | none =>
      -- A clash with another node is told before one with a capability.
      match capabilityKind? registry name with
      | some capability => some (.capabilityClash kind name capability)
      | none => nameClash? registry ((kind, name) :: seen) rest

/-! ## Resolving -/

/-- What the names in a plan are looked up in. -/
structure Scope where
  registry : Registry
  plan : Plan

namespace Scope

def definesCompetence (scope : Scope) (name : String) : Bool :=
  scope.plan.competences.any (·.name = name)

def definesPattern (scope : Scope) (name : String) : Bool :=
  scope.plan.patterns.any (·.name = name)

/-- A sense with the test that a value and an operator ask for. -/
def sense (scope : Scope) (name : String) (value operator : Option String) :
    Except BuildError Sense :=
  match scope.registry.sense? name with
  | some capability => .ok ⟨capability, .ofText value operator⟩
  | none => .error (.capabilityNotFound .sense name)

def condition (scope : Scope) : Plan.Condition → Except BuildError Sense
  | .bare name => scope.sense name none none
  | .check name value operator => scope.sense name value operator

/-- A goal or trigger. -/
def trigger (scope : Scope) (conditions : Option (List Plan.Condition)) :
    Except BuildError Trigger :=
  (conditions.getD []).mapM scope.condition

/-- An action, whose name no node may have. -/
def action (scope : Scope) (capability : Capability) : Except BuildError Capability :=
  if scope.definesCompetence capability.name || scope.definesPattern capability.name then
    .error (.actionClash capability.name)
  else .ok capability

/-- What an element fires: an action, a competence or a pattern. -/
def target (scope : Scope) (name : String) : Except BuildError Target :=
  match scope.registry.action? name with
  | some capability => (scope.action capability).map .action
  | none =>
    if scope.definesCompetence name then .ok (.node (.competence name))
    else if scope.definesPattern name then .ok (.node (.pattern name))
    else .error (.notFound name)

/-- A step given by its name: a sense, an action or, in the last place, a competence. -/
def namedStep (scope : Scope) (pattern name : String) (last : Bool) :
    Except BuildError Step :=
  match scope.registry.sense? name with
  | some capability => .ok (.sense ⟨capability, .truthy⟩)
  | none =>
    match scope.registry.action? name with
    | some capability => (scope.action capability).map .action
    | none =>
      if scope.definesCompetence name then
        if last then .ok (.competence name)
        else .error (.illegalStep pattern name .competenceNotLast)
      else if scope.definesPattern name then
        .error (.illegalStep pattern name .nestedPattern)
      else .error (.notFound name)

/-- The steps of a pattern. -/
def steps (scope : Scope) (pattern : String) : List Plan.Step → Except BuildError (List Step)
  | [] => .ok []
  | step :: rest => do
    let resolved ← match step with
      | .sense name value operator => (scope.sense name value operator).map .sense
      -- The last step is the one without steps after it.
      | .named name => scope.namedStep pattern name rest.isEmpty
    return resolved :: (← scope.steps pattern rest)

def element (scope : Scope) (element : Plan.CompetenceElement) :
    Except BuildError Element := do
  let trigger ← scope.trigger element.trigger
  let target ← scope.target element.target
  return ⟨element.name, trigger, target, element.maxRetries⟩

/-- A competence whose goal is already resolved. -/
def competence (scope : Scope) (competence : Plan.Competence) (goal : Trigger) :
    Except BuildError Competence := do
  let levels ← competence.levels.mapM fun level => level.mapM scope.element
  return ⟨competence.name, goal, levels⟩

def pattern (scope : Scope) (pattern : Plan.ActionPattern) : Except BuildError Pattern := do
  return ⟨pattern.name, ← scope.steps pattern.name pattern.steps⟩

/-- The definitions of the plan: all goals of competences, then their elements, then the
patterns. -/
def library (scope : Scope) : Except BuildError Library := do
  let goals ← scope.plan.competences.mapM fun competence => scope.trigger competence.goal
  let competences ← (scope.plan.competences.zip goals).mapM fun (competence, goal) =>
    scope.competence competence goal
  let patterns ← scope.plan.patterns.mapM scope.pattern
  return ⟨competences, patterns⟩

def drive (scope : Scope) (library : Library) (element : Plan.DriveElement) :
    Except BuildError Drive := do
  let trigger ← scope.trigger element.trigger
  let target ← scope.target element.target
  return .fresh library element.name trigger target element.interval

/-- The agent of a plan with a drive collection. -/
def collection (scope : Scope) (library : Library) (collection : Plan.DriveCollection) :
    Except BuildError Agent := do
  let discipline ← match Discipline.ofTag? collection.tag with
    | some discipline => pure discipline
    | none => .error (.unsupportedTag collection.tag)
  let goal ← scope.trigger collection.goal
  let levels ← collection.levels.mapM fun level => level.mapM (scope.drive library)
  return {
    name := collection.name
    discipline := discipline
    docstring := scope.plan.docstring
    library := library
    goal := goal
    levels := levels
    clock := .ofDiscipline discipline Pacer.defaultWindow }

/-- The agent of a plan without drive collection. -/
def implicitCollection (scope : Scope) (library : Library) : Except BuildError Agent := do
  let root ← match scope.plan.rootName? with
    | some root => pure root
    | none => .error .noRoot
  let target ← scope.target root
  return {
    name := root
    discipline := .stepped
    docstring := scope.plan.docstring
    library := library
    goal := []
    levels := [[.fresh library root [] target none]]
    clock := .stepped 0 }

end Scope

end SlipStack.Engine

namespace SlipStack

open Engine

/-- The agent of a plan in a world with the given registry. -/
def Plan.build (registry : Registry) (plan : Plan) : Except BuildError Agent := do
  match nameClash? registry [] (definedNodes plan) with
  | some clash => .error clash
  | none =>
    let scope : Scope := ⟨registry, plan⟩
    let library ← scope.library
    match plan.collection with
    | some collection => scope.collection library collection
    | none => scope.implicitCollection library

end SlipStack
