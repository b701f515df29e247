import SlipStack.Proofs.Engine.Mirror

/-!
# Steps of building

Each step of building succeeds with what mirrors its source, and with nothing else. This goes
from a single sense (`Scope.sense_eq_ok`) up to the library (`Scope.library_eq_ok`) and the
drive collection (`Scope.collection_eq_ok`).

Names are resolved in an order, senses before actions before nodes. Where the names of nodes
are apart from those of capabilities (`Apart`) the order makes no difference, so that a
name is bound to the one thing it stands for.
-/

namespace SlipStack.Engine

/-! ## Names of nodes -/

section Names

variable {registry : Registry}

/-- A name is free in the registry exactly if neither a sense nor an action is registered under
it. -/
theorem capabilityKind?_eq_none {name : String} :
    capabilityKind? registry name = none ↔ ∀ kind, ¬ registry.Registered kind name := by
  rw [← Registry.free_iff, capabilityKind?]
  constructor
  · intro h
    split at h
    · cases h
    · split at h
      · cases h
      · rename_i hnotAction hnotSense
        exact ⟨Option.not_isSome_iff_eq_none.1 hnotAction,
          Option.not_isSome_iff_eq_none.1 hnotSense⟩
  · intro h
    obtain ⟨haction, hsense⟩ := h
    simp [haction, hsense]

/-- The search for clashes, which goes through the nodes with those seen so far, finds none
exactly if the names are distinct and none of them is a capability. -/
theorem nameClash?_eq_none {seen nodes : List (NodeKind × String)} :
    nameClash? registry seen nodes = none ↔
      (nodes.map Prod.snd).Nodup ∧ ∀ name ∈ nodes.map Prod.snd,
        name ∉ seen.map Prod.snd ∧ ∀ kind, ¬ registry.Registered kind name := by
  -- `seen` grows by each name that passes, so the statement is about any of it.
  induction nodes generalizing seen with
  | nil => simp [nameClash?]
  | cons node rest ih =>
    obtain ⟨kind, name⟩ := node
    rw [nameClash?, List.map_cons, List.nodup_cons, List.forall_mem_cons]
    cases hfind : seen.find? (·.2 = name) with
    | some other =>
      have hseen : name ∈ seen.map Prod.snd :=
        List.mem_map.2
          ⟨other, List.mem_of_find?_eq_some hfind, by simpa using List.find?_some hfind⟩
      simp [hseen]
    | none =>
      have hseen : name ∉ seen.map Prod.snd := by
        intro hmem
        obtain ⟨other, hother, hname⟩ := List.mem_map.1 hmem
        have hne := List.find?_eq_none.1 hfind other hother
        simp [hname] at hne
      cases hkind : capabilityKind? registry name with
      | some capability =>
        have hfree := mt capabilityKind?_eq_none.2 (hkind ▸ Option.some_ne_none capability)
        simp [hfree]
      | none =>
        have hfree := capabilityKind?_eq_none.1 hkind
        have hseen' : ∀ other, (other ∉ ((kind, name) :: seen).map Prod.snd ↔
            other ≠ name ∧ other ∉ seen.map Prod.snd) := by simp
        simp only [ih]
        constructor
        · rintro ⟨hnodup, hrest⟩
          refine ⟨⟨fun hmem => ?_, hnodup⟩, ⟨hseen, hfree⟩, fun other hother => ?_⟩
          · exact ((hseen' name).1 (hrest name hmem).1).1 rfl
          · exact ⟨((hseen' other).1 (hrest other hother).1).2, (hrest other hother).2⟩
        · rintro ⟨⟨hname, hnodup⟩, -, hrest⟩
          refine ⟨hnodup, fun other hother => ⟨?_, (hrest other hother).2⟩⟩
          exact (hseen' other).2 ⟨fun heq => hname (heq ▸ hother), (hrest other hother).1⟩

end Names

/-! ## Steps of building -/

namespace Scope

variable {scope : Scope}

/-- A sense can be built exactly if its name is bound in the registry; what it tests for is read
from its value and operator in any case. -/
theorem sense_eq_ok (hreached : scope.registry.Reached) {name : String}
    {value operator : Option String} {sense : Sense} :
    scope.sense name value operator = .ok sense ↔
      ∃ capability, scope.registry.Binds .sense name capability ∧
        sense = ⟨capability, .ofText value operator⟩ := by
  rw [Scope.sense]
  cases hfound : scope.registry.sense? name with
  | none =>
    have hunbound := Registry.sense?_eq_none.1 hfound
    simp only [reduceCtorEq, false_iff]
    rintro ⟨capability, hbinds, -⟩
    exact hunbound hbinds.registered
  | some found =>
    have hbound := hreached.sense?_eq_some.1 hfound
    simp only [Except.ok.injEq]
    constructor
    · rintro rfl
      exact ⟨found, hbound, rfl⟩
    · rintro ⟨capability, hbinds, rfl⟩
      rw [(hbound.eq hbinds).2]

/-- A condition can be built exactly into the senses that mirror it. -/
theorem condition_eq_ok (hreached : scope.registry.Reached) {condition : Plan.Condition}
    {sense : Sense} :
    scope.condition condition = .ok sense ↔ sense.Mirrors scope.registry condition := by
  cases condition with
  | bare name =>
    rw [Scope.condition, sense_eq_ok hreached]
    constructor
    · rintro ⟨capability, hbinds, rfl⟩
      exact .bare hbinds
    · intro h
      cases h with
      | bare hbinds => exact ⟨_, hbinds, rfl⟩
  | check name value operator =>
    rw [Scope.condition, sense_eq_ok hreached]
    constructor
    · rintro ⟨capability, hbinds, rfl⟩
      exact .check hbinds
    · intro h
      cases h with
      | check hbinds => exact ⟨_, hbinds, rfl⟩

/-- A trigger can be built exactly if all its conditions can, and is then the list of their senses
in the order of the plan. -/
theorem trigger_eq_ok (hreached : scope.registry.Reached)
    {conditions : Option (List Plan.Condition)} {trigger : Trigger} :
    scope.trigger conditions = .ok trigger ↔
      Trigger.Mirrors scope.registry conditions trigger := by
  simp only [Scope.trigger, mapM_eq_ok, condition_eq_ok hreached, Trigger.Mirrors]

theorem eq_of_action {capability found : Capability}
    (h : scope.action capability = .ok found) : found = capability := by
  rw [Scope.action] at h
  split at h
  · cases h
  · cases h
    rfl

section Apart

variable (hreached : scope.registry.Reached) (hapart : Apart scope.registry scope.plan.defines)
include hapart

theorem action_eq_ok {name : String} {capability : Capability}
    (h : scope.registry.Binds .action name capability) :
    scope.action capability = .ok capability := by
  have hregistered := h.provides.registered
  have hcompetence : scope.definesCompetence capability.name = false :=
    Bool.eq_false_iff.2 fun hdefines =>
      hapart.capabilities (.competence capability.name) .action hdefines hregistered
  have hpattern : scope.definesPattern capability.name = false :=
    Bool.eq_false_iff.2 fun hdefines =>
      hapart.capabilities (.pattern capability.name) .action hdefines hregistered
  simp [Scope.action, hcompetence, hpattern]

/-- A node has no name of a capability, so it is not passed over for one. -/
theorem capability?_of_defines {ref : NodeRef} (h : scope.plan.defines ref)
    (kind : CapabilityKind) : scope.registry.capability? kind ref.name = none :=
  Registry.capability?_eq_none.2 (hapart.capabilities ref kind h)

include hreached

/-- A name can be resolved exactly if it is that of an action which is no node of the plan too, or
that of a node of the plan. -/
theorem target_eq_ok {name : String} {target : Target} :
    scope.target name = .ok target ↔
      target.Mirrors scope.registry scope.plan.defines name := by
  constructor
  · intro h
    rw [Scope.target] at h
    split at h
    · rename_i capability hfound
      obtain ⟨found, haction, rfl⟩ := map_eq_ok.1 h
      rw [eq_of_action haction]
      exact .action (hreached.action?_eq_some.1 hfound)
    · split at h
      · rename_i hdefines
        cases h
        exact .node (show scope.plan.defines (.competence name) from hdefines)
      · split at h
        · rename_i hdefines
          cases h
          exact .node (show scope.plan.defines (.pattern name) from hdefines)
        · cases h
  · intro h
    rw [Scope.target]
    cases h with
    | action hbinds =>
      rw [hreached.action?_eq_some.2 hbinds]
      dsimp only
      rw [action_eq_ok hapart hbinds]
      rfl
    | @node ref hdefines =>
      -- Actions are looked up first, but no action has the name of a node.
      have hnone : scope.registry.action? ref.name = none :=
        capability?_of_defines hapart hdefines .action
      rw [hnone]
      cases ref with
      | competence name => exact if_pos hdefines
      | pattern name =>
        have hcompetence : ¬ scope.definesCompetence name := fun hcompetence =>
          hapart.nodes name hcompetence hdefines
        exact (if_neg hcompetence).trans (if_pos hdefines)

/-- A named step can be built exactly if its name can be resolved and a competence, if it is one,
is the last step. -/
theorem namedStep_eq_ok {pattern name : String} {last : Bool} {step : Step} :
    scope.namedStep pattern name last = .ok step ↔
      step.Mirrors scope.registry scope.plan.defines (.named name) ∧
        ∀ next, step = .competence next → last = true := by
  constructor
  · intro h
    refine ⟨?_, fun next hnext => last_of_namedStep (hnext ▸ h)⟩
    rw [namedStep] at h
    split at h
    · rename_i capability hfound
      cases h
      exact .sense (hreached.sense?_eq_some.1 hfound)
    · split at h
      · rename_i capability hfound
        obtain ⟨found, haction, rfl⟩ := map_eq_ok.1 h
        rw [eq_of_action haction]
        exact .action (hreached.action?_eq_some.1 hfound)
      · split at h
        · rename_i hdefines
          split at h <;> cases h
          exact .competence hdefines
        · split at h <;> cases h
  · rintro ⟨h, hlast⟩
    rw [namedStep]
    cases h with
    | sense hbinds => rw [hreached.sense?_eq_some.2 hbinds]
    | @action _ capability hbinds =>
      -- Senses are looked up first, but no sense has the name of an action.
      have hnone : scope.registry.sense? name = none := by
        rw [Option.eq_none_iff_forall_ne_some]
        intro found hfound
        cases (hbinds.eq (hreached.sense?_eq_some.1 hfound)).1
      rw [hnone, hreached.action?_eq_some.2 hbinds]
      dsimp only
      rw [action_eq_ok hapart hbinds]
      rfl
    | competence hdefines =>
      have hsense : scope.registry.sense? name = none :=
        capability?_of_defines hapart hdefines .sense
      have haction : scope.registry.action? name = none :=
        capability?_of_defines hapart hdefines .action
      rw [hsense, haction]
      exact (if_pos hdefines).trans (if_pos (hlast name rfl))

/-- The first step by itself; it names a competence only if there is no other. -/
theorem steps_cons_eq_ok {pattern : String} {step : Plan.Step} {rest : List Plan.Step}
    {steps : List Step} :
    scope.steps pattern (step :: rest) = .ok steps ↔ ∃ first others, steps = first :: others ∧
      first.Mirrors scope.registry scope.plan.defines step ∧
      (∀ next, first = .competence next → rest = []) ∧ scope.steps pattern rest = .ok others := by
  cases step with
  | sense name value operator =>
    rw [Scope.steps, bind_eq_ok]
    simp only [bind_eq_ok]
    constructor
    · rintro ⟨first, hfirst, others, hothers, h⟩
      obtain ⟨sense, hsense, rfl⟩ := map_eq_ok.1 hfirst
      obtain ⟨capability, hbinds, rfl⟩ := (sense_eq_ok hreached).1 hsense
      cases h
      exact ⟨_, others, rfl, .check hbinds, by rintro _ ⟨⟩, hothers⟩
    · rintro ⟨first, others, rfl, hfirst, -, hothers⟩
      cases hfirst with
      | check hbinds =>
        exact ⟨_, map_eq_ok.2 ⟨_, (sense_eq_ok hreached).2 ⟨_, hbinds, rfl⟩, rfl⟩, others,
          hothers, rfl⟩
  | named name =>
    rw [Scope.steps, bind_eq_ok]
    simp only [bind_eq_ok, namedStep_eq_ok hreached hapart, List.isEmpty_iff]
    constructor
    · rintro ⟨first, ⟨hfirst, hlast⟩, others, hothers, h⟩
      cases h
      exact ⟨first, others, rfl, hfirst, hlast, hothers⟩
    · rintro ⟨first, others, rfl, hfirst, hlast, hothers⟩
      exact ⟨first, ⟨hfirst, hlast⟩, others, hothers, rfl⟩

/-- The steps of a pattern can be built exactly if each of them can; the place of a competence at
the end is part of that. -/
theorem steps_eq_ok {pattern : String} {source : List Plan.Step} {steps : List Step} :
    scope.steps pattern source = .ok steps ↔
      List.Forall₂ (Step.Mirrors scope.registry scope.plan.defines) source steps ∧
        (Pattern.fresh ⟨pattern, steps⟩).CompetenceLast := by
  -- A step is judged by whether it is the last, which the rest of the list tells.
  induction source generalizing steps with
  | nil =>
    rw [Scope.steps, Except.ok.injEq, eq_comm, List.forall₂_nil_left_iff, iff_self_and]
    rintro rfl position next hstep
    cases hstep
  | cons step rest ih =>
    rw [steps_cons_eq_ok hreached hapart]
    simp only [ih, List.forall₂_cons_left_iff]
    constructor
    · rintro ⟨first, others, rfl, hfirst, hlast, hothers, hlast'⟩
      refine ⟨⟨first, others, hfirst, hothers, rfl⟩, ?_⟩
      rintro (_ | position) next hstep
      · rw [List.getElem?_cons_zero, Option.some.injEq] at hstep
        rw [hlast next hstep, List.forall₂_nil_left_iff] at hothers
        rw [hothers, List.length_singleton]
      · rw [List.getElem?_cons_succ] at hstep
        rw [List.length_cons, hlast' position next hstep]
    · rintro ⟨⟨first, others, hfirst, hothers, rfl⟩, hlast⟩
      refine ⟨first, others, rfl, hfirst, ?_, hothers, ?_⟩
      · rintro next rfl
        have hlength := hlast 0 next rfl
        rw [List.length_cons, ← hothers.length_eq] at hlength
        exact List.eq_nil_of_length_eq_zero (by omega)
      · intro position next hstep
        have hlength := hlast (position + 1) next (by rwa [List.getElem?_cons_succ])
        rw [List.length_cons] at hlength
        exact Nat.succ.inj hlength

/-- An element of a competence can be built exactly if its trigger and its action can, and keeps
its name, retries and order. -/
theorem element_eq_ok {source : Plan.CompetenceElement} {element : Element} :
    scope.element source = .ok element ↔
      element.Mirrors scope.registry scope.plan.defines source := by
  rw [Scope.element, bind_eq_ok]
  simp only [bind_eq_ok, trigger_eq_ok hreached, target_eq_ok hreached hapart]
  constructor
  · rintro ⟨trigger, htrigger, target, htarget, h⟩
    cases h
    exact ⟨rfl, htrigger, htarget, rfl⟩
  · rintro ⟨hname, htrigger, htarget, hmaxRetries⟩
    refine ⟨_, htrigger, _, htarget, ?_⟩
    rw [← hname, ← hmaxRetries]
    rfl

/-- A competence with the goal that was resolved before. -/
theorem competence_eq_ok {source : Plan.Competence} {competence : Competence} :
    (∃ goal, Trigger.Mirrors scope.registry source.goal goal ∧
        scope.competence source goal = .ok competence) ↔
      competence.Mirrors scope.registry scope.plan.defines source := by
  simp only [Scope.competence, bind_eq_ok, mapM_eq_ok, element_eq_ok hreached hapart]
  constructor
  · rintro ⟨goal, hgoal, levels, hlevels, h⟩
    cases h
    exact ⟨rfl, hgoal, hlevels⟩
  · rintro ⟨hname, hgoal, hlevels⟩
    refine ⟨_, hgoal, _, hlevels, ?_⟩
    rw [← hname]
    rfl

/-- A pattern can be built exactly into those that mirror it and have no competence before their
last step. -/
theorem pattern_eq_ok {source : Plan.ActionPattern} {pattern : Pattern} :
    scope.pattern source = .ok pattern ↔
      pattern.Mirrors scope.registry scope.plan.defines source ∧
        pattern.fresh.CompetenceLast := by
  rw [Scope.pattern, bind_eq_ok]
  simp only [steps_eq_ok hreached hapart]
  constructor
  · rintro ⟨steps, ⟨hsteps, hlast⟩, h⟩
    cases h
    exact ⟨⟨rfl, hsteps⟩, hlast⟩
  · rintro ⟨⟨hname, hsteps⟩, hlast⟩
    refine ⟨_, ⟨hsteps, hlast⟩, ?_⟩
    rw [← hname]
    rfl

/-- The nodes of a plan can be built exactly if each competence and each pattern can. The two
halves are folded by one lemma on lists of results. -/
theorem library_eq_ok {library : Library} :
    scope.library = .ok library ↔
      library.Mirrors scope.registry scope.plan.defines scope.plan ∧ library.CompetencesLast := by
  have hpasses := @forall₂_of_passes _ _ _
    (fun source goal => Trigger.Mirrors scope.registry source.goal goal)
    (fun source goal competence => scope.competence source goal = .ok competence)
    scope.plan.competences library.competences
  simp only [competence_eq_ok hreached hapart] at hpasses
  rw [Scope.library, bind_eq_ok]
  simp only [bind_eq_ok, mapM_eq_ok, trigger_eq_ok hreached, pattern_eq_ok hreached hapart]
  constructor
  · rintro ⟨goals, hgoals, competences, hcompetences, patterns, hpatterns, h⟩
    cases h
    obtain ⟨hpatterns, hlast⟩ := forall₂_and_right.1 hpatterns
    exact ⟨⟨hpasses.1 ⟨goals, hgoals, hcompetences⟩, hpatterns⟩, hlast⟩
  · rintro ⟨⟨hcompetences, hpatterns⟩, hlast⟩
    obtain ⟨goals, hgoals, hcompetences⟩ := hpasses.2 hcompetences
    exact ⟨goals, hgoals, _, hcompetences, _, forall₂_and_right.2 ⟨hpatterns, hlast⟩, rfl⟩

/-- A drive element can be built exactly if its trigger and its target can; with a library of the
same names the target is a node of that library. -/
theorem drive_eq_ok {library : Library} (hdefines : library.defines = scope.plan.defines)
    {source : Plan.DriveElement} {drive : Drive} :
    scope.drive library source = .ok drive ↔ drive.Mirrors scope.registry library source := by
  rw [Scope.drive, bind_eq_ok]
  simp only [bind_eq_ok, trigger_eq_ok hreached, target_eq_ok hreached hapart, ← hdefines]
  constructor
  · rintro ⟨trigger, htrigger, target, htarget, h⟩
    cases h
    exact ⟨rfl, htrigger, htarget, rfl, rfl⟩
  · rintro ⟨hname, htrigger, htarget, hinterval, hunused⟩
    refine ⟨_, htrigger, _, htarget, ?_⟩
    rw [← hname, ← hinterval]
    exact congrArg Except.ok hunused

/-- A drive collection can be built exactly if its goal and all drive elements can, and gives an
agent with the clock of its discipline. -/
theorem collection_eq_ok {library : Library} (hdefines : library.defines = scope.plan.defines)
    {source : Plan.DriveCollection} {agent : Agent} :
    scope.collection library source = .ok agent ↔
      agent.library = library ∧ agent.docstring = scope.plan.docstring ∧
        agent.clock = .ofDiscipline agent.discipline Pacer.defaultWindow ∧
        agent.name = source.name ∧ Discipline.ofTag? source.tag = some agent.discipline ∧
        Trigger.Mirrors scope.registry source.goal agent.goal ∧
        List.Forall₂ (List.Forall₂ (Drive.Mirrors scope.registry library)) source.levels
          agent.levels := by
  rw [Scope.collection]
  cases htag : Discipline.ofTag? source.tag with
  | none => simp [bind, Except.bind]
  | some discipline =>
    simp only [bind_eq_ok, mapM_eq_ok, trigger_eq_ok hreached,
      drive_eq_ok hreached hapart hdefines]
    constructor
    · rintro ⟨_, hdiscipline, goal, hgoal, levels, hlevels, h⟩
      cases hdiscipline
      cases h
      exact ⟨rfl, rfl, rfl, rfl, rfl, hgoal, hlevels⟩
    · rintro ⟨rfl, hdocstring, hclock, hname, hdiscipline, hgoal, hlevels⟩
      cases hdiscipline
      refine ⟨_, rfl, _, hgoal, _, hlevels, ?_⟩
      rw [← hdocstring, ← hname, ← hclock]
      rfl

end Apart

/-- What is built around the root of a plan is built from the collection around it. -/
theorem implicitCollection_eq (scope : Scope) (library : Library)
    (hcollection : scope.plan.collection = none) :
    scope.implicitCollection library =
      match scope.plan.collection? with
      | some collection => scope.collection library collection
      | none => .error .noRoot := by
  rw [Scope.implicitCollection, Plan.collection?, hcollection]
  cases scope.plan.rootName? with
  | none => rfl
  | some root =>
    have hdiscipline : Discipline.ofTag? "SDC" = some .stepped := rfl
    have htrigger : scope.trigger none = .ok [] := rfl
    simp only [Option.map_some, Option.none_or, Scope.collection, hdiscipline, htrigger,
      Scope.drive, List.mapM_cons, List.mapM_nil, pure_bind]
    cases scope.target root <;> rfl

end Scope

end SlipStack.Engine
