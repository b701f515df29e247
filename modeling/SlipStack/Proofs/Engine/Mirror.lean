import Mathlib.Data.List.Forall2
import SlipStack.Proofs.Engine.Built
import SlipStack.Proofs.Registered

/-!
# What a plan is built into

An agent mirrors a plan (`Agent.Mirrors`) if it has the parts of the plan in the same order
and with the same numbers, and every name in the plan is bound: that of a capability to the
registered one, that of a node to the definition of that name. An absent list of conditions
and an empty one are the same trigger.

Where the names of nodes differ from each other and from those of capabilities (`Apart`),
every part of a plan has one mirror image at most (`Agent.Mirrors.unique`).
-/

namespace SlipStack.Engine

/-- The name that a reference goes by. -/
def NodeRef.name : NodeRef → String
  | .competence name => name
  | .pattern name => name

/-! ## Parts -/

/-- The sense is the one that a condition asks for. -/
inductive Sense.Mirrors (registry : Registry) : Plan.Condition → Sense → Prop
  | bare {name : String} {capability : Capability} : registry.Binds .sense name capability →
      Mirrors registry (.bare name) ⟨capability, .truthy⟩
  | check {name : String} {value operator : Option String} {capability : Capability} :
      registry.Binds .sense name capability →
      Mirrors registry (.check name value operator) ⟨capability, .ofText value operator⟩

/-- The goal or trigger is the one that the conditions, if any, ask for. -/
def Trigger.Mirrors (registry : Registry) (conditions : Option (List Plan.Condition))
    (trigger : Trigger) : Prop :=
  List.Forall₂ (Sense.Mirrors registry) (conditions.getD []) trigger

/-- The target is what its name in the plan stands for. -/
inductive Target.Mirrors (registry : Registry) (defines : NodeRef → Bool) :
    String → Target → Prop
  | action {name : String} {capability : Capability} : registry.Binds .action name capability →
      Mirrors registry defines name (.action capability)
  | node {ref : NodeRef} : defines ref → Mirrors registry defines ref.name (.node ref)

/-- The step is what the step of a pattern in the plan stands for. -/
inductive Step.Mirrors (registry : Registry) (defines : NodeRef → Bool) :
    Plan.Step → Step → Prop
  | check {name : String} {value operator : Option String} {capability : Capability} :
      registry.Binds .sense name capability →
      Mirrors registry defines (.sense name value operator)
        (.sense ⟨capability, .ofText value operator⟩)
  | sense {name : String} {capability : Capability} : registry.Binds .sense name capability →
      Mirrors registry defines (.named name) (.sense ⟨capability, .truthy⟩)
  | action {name : String} {capability : Capability} : registry.Binds .action name capability →
      Mirrors registry defines (.named name) (.action capability)
  | competence {name : String} : defines (.competence name) →
      Mirrors registry defines (.named name) (.competence name)

structure Element.Mirrors (registry : Registry) (defines : NodeRef → Bool)
    (source : Plan.CompetenceElement) (element : Element) : Prop where
  name : element.name = source.name
  trigger : Trigger.Mirrors registry source.trigger element.trigger
  target : Target.Mirrors registry defines source.target element.target
  maxRetries : element.maxRetries = source.maxRetries

structure Competence.Mirrors (registry : Registry) (defines : NodeRef → Bool)
    (source : Plan.Competence) (competence : Competence) : Prop where
  name : competence.name = source.name
  goal : Trigger.Mirrors registry source.goal competence.goal
  levels : List.Forall₂ (List.Forall₂ (Element.Mirrors registry defines)) source.levels
    competence.levels

structure Pattern.Mirrors (registry : Registry) (defines : NodeRef → Bool)
    (source : Plan.ActionPattern) (pattern : Pattern) : Prop where
  name : pattern.name = source.name
  steps : List.Forall₂ (Step.Mirrors registry defines) source.steps pattern.steps

structure Library.Mirrors (registry : Registry) (defines : NodeRef → Bool) (plan : Plan)
    (library : Library) : Prop where
  competences : List.Forall₂ (Competence.Mirrors registry defines) plan.competences
    library.competences
  patterns : List.Forall₂ (Pattern.Mirrors registry defines) plan.patterns library.patterns

/-- The drive element is the one that the plan describes, as it is before its first use. -/
structure Drive.Mirrors (registry : Registry) (library : Library) (source : Plan.DriveElement)
    (drive : Drive) : Prop where
  name : drive.name = source.name
  trigger : Trigger.Mirrors registry source.trigger drive.trigger
  target : Target.Mirrors registry library.defines source.target drive.target
  interval : drive.interval = source.interval
  unused : drive.unused library = drive

end SlipStack.Engine

namespace SlipStack.Plan

open Engine

/-- Whether the plan defines what a reference refers to. -/
def defines (plan : Plan) : NodeRef → Bool
  | .competence name => plan.competences.any (·.name = name)
  | .pattern name => plan.patterns.any (·.name = name)

theorem defines_competence {plan : Plan} {name : String} :
    plan.defines (.competence name) ↔ name ∈ plan.competences.map (·.name) := by
  simp [defines]

theorem defines_pattern {plan : Plan} {name : String} :
    plan.defines (.pattern name) ↔ name ∈ plan.patterns.map (·.name) := by
  simp [defines]

/-- The drive collection of a plan. A plan without one has a drive element that fires its
root, whenever it can. -/
def collection? (plan : Plan) : Option DriveCollection :=
  plan.collection.or (plan.rootName?.map fun root =>
    { tag := "SDC", name := root, goal := none, levels := [[⟨root, none, root, none⟩]] })

end SlipStack.Plan

namespace SlipStack.Engine

/-- The agent is the one that the plan describes, as it is before its first step. -/
structure Agent.Mirrors (registry : Registry) (plan : Plan) (agent : Agent) : Prop where
  docstring : agent.docstring = plan.docstring
  library : agent.library.Mirrors registry agent.library.defines plan
  clock : agent.clock = .ofDiscipline agent.discipline Pacer.defaultWindow
  root : ∃ collection, plan.collection? = some collection ∧ agent.name = collection.name ∧
    Discipline.ofTag? collection.tag = some agent.discipline ∧
    Trigger.Mirrors registry collection.goal agent.goal ∧
    List.Forall₂ (List.Forall₂ (Drive.Mirrors registry agent.library)) collection.levels
      agent.levels

/-! ## One mirror image -/

/-- The names of nodes differ from each other and from those of capabilities. -/
structure Apart (registry : Registry) (defines : NodeRef → Bool) : Prop where
  nodes : ∀ name, defines (.competence name) → ¬ defines (.pattern name)
  capabilities : ∀ ref kind, defines ref → ¬ registry.Registered kind ref.name

section Unique

variable {registry : Registry} {defines : NodeRef → Bool} {library : Library}

/-- Names that are apart tell nodes apart across both kinds: a competence and a pattern never
share one. -/
theorem Apart.ref_unique (h : Apart registry defines) {ref ref' : NodeRef} (href : defines ref)
    (href' : defines ref') (hname : ref.name = ref'.name) : ref = ref' := by
  cases ref with
  | competence name =>
    cases ref' with
    | competence name' => exact congrArg NodeRef.competence hname
    | pattern name' =>
      subst hname
      exact absurd href' (h.nodes name href)
  | pattern name =>
    cases ref' with
    | pattern name' => exact congrArg NodeRef.pattern hname
    | competence name' =>
      subst hname
      exact absurd href (h.nodes name href')

open Relator

theorem Sense.Mirrors.unique : RightUnique (Sense.Mirrors registry) := by
  intro condition sense sense' h h'
  cases h with
  | bare hbinds =>
    cases h' with
    | bare hbinds' => rw [(hbinds.eq hbinds').2]
  | check hbinds =>
    cases h' with
    | check hbinds' => rw [(hbinds.eq hbinds').2]

theorem Trigger.Mirrors.unique : RightUnique (Trigger.Mirrors registry) :=
  fun _ _ _ h h' => Sense.Mirrors.unique.forall₂ h h'

/-- A name has one target at most, since nodes and capabilities are named apart. Without that, a
name could be mirrored by an action and by a node. -/
theorem Target.Mirrors.unique (hapart : Apart registry defines) :
    RightUnique (Target.Mirrors registry defines) := by
  intro name target target' h h'
  cases h with
  | action hbinds =>
    cases h' with
    | action hbinds' => rw [(hbinds.eq hbinds').2]
    | node href => exact absurd hbinds.registered (hapart.capabilities _ _ href)
  | node href =>
    generalize hname : NodeRef.name _ = name at h'
    cases h' with
    | action hbinds => exact absurd (hname ▸ hbinds.registered) (hapart.capabilities _ _ href)
    | node href' => rw [hapart.ref_unique href href' hname]

/-- A step of the plan is mirrored by one step at most, as its name stands for one thing. -/
theorem Step.Mirrors.unique (hapart : Apart registry defines) :
    RightUnique (Step.Mirrors registry defines) := by
  intro source step step' h h'
  cases h with
  | check hbinds =>
    cases h' with
    | check hbinds' => rw [(hbinds.eq hbinds').2]
  | sense hbinds =>
    cases h' with
    | sense hbinds' => rw [(hbinds.eq hbinds').2]
    | action hbinds' => cases (hbinds.eq hbinds').1
    | competence hname => exact absurd hbinds.registered (hapart.capabilities _ _ hname)
  | action hbinds =>
    cases h' with
    | sense hbinds' => cases (hbinds.eq hbinds').1
    | action hbinds' => rw [(hbinds.eq hbinds').2]
    | competence hname => exact absurd hbinds.registered (hapart.capabilities _ _ hname)
  | competence hname =>
    cases h' with
    | sense hbinds' => exact absurd hbinds'.registered (hapart.capabilities _ _ hname)
    | action hbinds' => exact absurd hbinds'.registered (hapart.capabilities _ _ hname)
    | competence => rfl

theorem Element.Mirrors.unique (hapart : Apart registry defines) :
    RightUnique (Element.Mirrors registry defines) := by
  rintro source ⟨name, trigger, target, maxRetries⟩ ⟨name', trigger', target', maxRetries'⟩ h h'
  obtain rfl : name = name' := h.name.trans h'.name.symm
  obtain rfl : trigger = trigger' := Trigger.Mirrors.unique h.trigger h'.trigger
  obtain rfl : target = target' := Target.Mirrors.unique hapart h.target h'.target
  obtain rfl : maxRetries = maxRetries' := h.maxRetries.trans h'.maxRetries.symm
  rfl

/-- A competence of the plan is mirrored by one competence at most, element by element. -/
theorem Competence.Mirrors.unique (hapart : Apart registry defines) :
    RightUnique (Competence.Mirrors registry defines) := by
  rintro source ⟨name, goal, levels⟩ ⟨name', goal', levels'⟩ h h'
  obtain rfl : name = name' := h.name.trans h'.name.symm
  obtain rfl : goal = goal' := Trigger.Mirrors.unique h.goal h'.goal
  obtain rfl : levels = levels' :=
    (Element.Mirrors.unique hapart).forall₂.forall₂ h.levels h'.levels
  rfl

theorem Pattern.Mirrors.unique (hapart : Apart registry defines) :
    RightUnique (Pattern.Mirrors registry defines) := by
  rintro source ⟨name, steps⟩ ⟨name', steps'⟩ h h'
  obtain rfl : name = name' := h.name.trans h'.name.symm
  obtain rfl : steps = steps' := (Step.Mirrors.unique hapart).forall₂ h.steps h'.steps
  rfl

/-- A plan is mirrored by one library at most: the nodes come in its order, and each is determined
by its source. -/
theorem Library.Mirrors.unique (hapart : Apart registry defines) :
    RightUnique (Library.Mirrors registry defines) := by
  rintro plan ⟨competences, patterns⟩ ⟨competences', patterns'⟩ h h'
  obtain rfl : competences = competences' :=
    (Competence.Mirrors.unique hapart).forall₂ h.competences h'.competences
  obtain rfl : patterns = patterns' :=
    (Pattern.Mirrors.unique hapart).forall₂ h.patterns h'.patterns
  rfl

/-- A drive element of the plan is mirrored by one drive element at most; what is not written
there, as in its tree, is what it starts with. -/
theorem Drive.Mirrors.unique (hapart : Apart registry library.defines) :
    RightUnique (Drive.Mirrors registry library) := by
  intro source drive drive' h h'
  have hunused : drive.unused library = drive'.unused library := by
    rw [Drive.unused, Drive.unused, h.name, h'.name, h.interval, h'.interval,
      Trigger.Mirrors.unique h.trigger h'.trigger, Target.Mirrors.unique hapart h.target h'.target]
  rw [← h.unused, hunused, h'.unused]

end Unique

/-! ## What the library defines -/

section Defines

variable {registry : Registry} {plan : Plan} {library : Library} {defines : NodeRef → Bool}

/-- Names that are looked up by the same names are found alike. -/
theorem any_name_congr {α β : Type} {f : α → String} {g : β → String} {as : List α}
    {bs : List β} (h : List.Forall₂ (fun a b => g b = f a) as bs) (name : String) :
    bs.any (g · = name) = as.any (f · = name) := by
  induction h with
  | nil => rfl
  | cons hname _ ih => simp [hname, ih]

/-- A library defines what its plan defines. -/
theorem Library.Mirrors.defines_eq (h : library.Mirrors registry defines plan) :
    library.defines = plan.defines := by
  funext ref
  cases ref with
  | competence name =>
    rw [Library.defines, competence?, List.isSome_find?, Plan.defines]
    exact any_name_congr (h.competences.imp fun _ _ h => h.name) name
  | pattern name =>
    rw [Library.defines, pattern?, List.isSome_find?, Plan.defines]
    exact any_name_congr (h.patterns.imp fun _ _ h => h.name) name

/-- A plan describes one agent at most. -/
theorem Agent.Mirrors.unique (hapart : Apart registry plan.defines) {agent agent' : Agent}
    (h : agent.Mirrors registry plan) (h' : agent'.Mirrors registry plan) : agent = agent' := by
  have hlibrary : agent.library = agent'.library := by
    have hmirrors := h.library
    have hmirrors' := h'.library
    rw [h.library.defines_eq] at hmirrors
    rw [h'.library.defines_eq] at hmirrors'
    exact Library.Mirrors.unique hapart hmirrors hmirrors'
  have hapart' : Apart registry agent'.library.defines := h'.library.defines_eq ▸ hapart
  obtain ⟨collection, hcollection, hname, htag, hgoal, hlevels⟩ := h.root
  obtain ⟨collection', hcollection', hname', htag', hgoal', hlevels'⟩ := h'.root
  obtain rfl := Option.some.inj (hcollection.symm.trans hcollection')
  have hdiscipline := Option.some.inj (htag.symm.trans htag')
  rw [hlibrary] at hlevels
  have hlevels := (Drive.Mirrors.unique hapart').forall₂.forall₂ hlevels hlevels'
  have hgoal := Trigger.Mirrors.unique hgoal hgoal'
  have hdocstring := h.docstring.trans h'.docstring.symm
  have hclock := h.clock
  rw [hdiscipline, ← h'.clock] at hclock
  have hname := hname.trans hname'.symm
  cases agent
  cases agent'
  simp_all

end Defines

end SlipStack.Engine
