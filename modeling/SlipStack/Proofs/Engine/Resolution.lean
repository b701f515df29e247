import SlipStack.Proofs.Engine.Building

/-!
# Which plans can be built

A plan can be built exactly if it is resolvable (`Plan.Resolvable`): its nodes have names of
their own, every name that it uses stands for something, and there is something to run. The
agent that is built is the one that mirrors the plan (`build_eq_ok`).

Each part of a plan has a lemma that says when it has a mirror image.
-/

/-! ## Resolvable plans -/

namespace SlipStack.Plan

open Engine

/-- The sense that a condition reads. -/
def Condition.senseName : Condition → String
  | .bare name => name
  | .check name _ _ => name

/-- The names of the nodes that a plan defines. -/
def nodeNames (plan : Plan) : List String :=
  plan.competences.map (·.name) ++ plan.patterns.map (·.name)

/-- All goals and triggers of a plan, the absent ones too. -/
def conditionLists (plan : Plan) : List (Option (List Condition)) :=
  (plan.competences.flatMap fun competence =>
      competence.goal :: competence.levels.flatten.map (·.trigger)) ++
    plan.collection.toList.flatMap fun collection =>
      collection.goal :: collection.levels.flatten.map (·.trigger)

/-- The names that elements fire. -/
def targetNames (plan : Plan) : List String :=
  (plan.competences.flatMap fun competence => competence.levels.flatten.map (·.target)) ++
    plan.collection.toList.flatMap fun collection => collection.levels.flatten.map (·.target)

section Lists

variable {plan : Plan}

theorem forall_conditionLists {p : Option (List Condition) → Prop} :
    (∀ conditions ∈ plan.conditionLists, p conditions) ↔
      (∀ competence ∈ plan.competences,
          p competence.goal ∧ ∀ element ∈ competence.levels.flatten, p element.trigger) ∧
        ∀ collection, plan.collection = some collection →
          p collection.goal ∧ ∀ element ∈ collection.levels.flatten, p element.trigger := by
  simp only [conditionLists, List.forall_mem_append, List.forall_mem_flatMap,
    List.forall_mem_cons, List.forall_mem_map, Option.mem_toList]

theorem forall_targetNames {p : String → Prop} :
    (∀ name ∈ plan.targetNames, p name) ↔
      (∀ competence ∈ plan.competences,
          ∀ element ∈ competence.levels.flatten, p element.target) ∧
        ∀ collection, plan.collection = some collection →
          ∀ element ∈ collection.levels.flatten, p element.target := by
  simp only [targetNames, List.forall_mem_append, List.forall_mem_flatMap, List.forall_mem_map,
    Option.mem_toList]

end Lists

/-- Every name in the plan can be bound, and there is something to run. -/
structure Resolvable (registry : Registry) (plan : Plan) : Prop where
  distinct : plan.nodeNames.Nodup
  free : ∀ name ∈ plan.nodeNames, ∀ kind, ¬ registry.Registered kind name
  conditions : ∀ conditions ∈ plan.conditionLists, ∀ condition ∈ conditions.getD [],
    registry.Registered .sense condition.senseName
  checks : ∀ pattern ∈ plan.patterns, ∀ name value operator,
    .sense name value operator ∈ pattern.steps → registry.Registered .sense name
  targets : ∀ name ∈ plan.targetNames, registry.Registered .action name ∨
    plan.defines (.competence name) ∨ plan.defines (.pattern name)
  /-- A competence is the last step, the one that no other follows. -/
  names : ∀ pattern ∈ plan.patterns, ∀ before name after,
    pattern.steps = before ++ .named name :: after →
      registry.Registered .sense name ∨ registry.Registered .action name ∨
        after = [] ∧ plan.defines (.competence name)
  root : match plan.collection with
    | some collection => collection.tag ∈ ["SDC", "SRDC", "DC", "RDC"]
    | none => plan.competences ≠ [] ∨ plan.patterns ≠ []

end SlipStack.Plan

namespace SlipStack.Engine

/-! ## When there is a mirror image -/

section Exists

variable {registry : Registry} (hreached : registry.Reached) {defines : NodeRef → Bool}
include hreached

/-- A condition is mirrored by some sense exactly if its name is registered as one. Value and
operator can be read in any case. -/
theorem exists_sense {condition : Plan.Condition} :
    (∃ sense : Sense, sense.Mirrors registry condition) ↔
      registry.Registered .sense condition.senseName := by
  rw [← hreached.exists_binds]
  constructor
  · rintro ⟨_, hbinds | hbinds⟩
    · exact ⟨_, hbinds⟩
    · exact ⟨_, hbinds⟩
  · rintro ⟨capability, hbinds⟩
    cases condition with
    | bare => exact ⟨_, .bare hbinds⟩
    | check => exact ⟨_, .check hbinds⟩

/-- Conditions are mirrored by some trigger exactly if all their names are registered as senses.
-/
theorem exists_trigger {conditions : Option (List Plan.Condition)} :
    (∃ trigger, Trigger.Mirrors registry conditions trigger) ↔
      ∀ condition ∈ conditions.getD [], registry.Registered .sense condition.senseName := by
  simp only [← exists_sense hreached]
  exact exists_forall₂

/-- A name is mirrored by some target exactly if it is that of an action, of a competence or of a
pattern. -/
theorem exists_target {name : String} :
    (∃ target : Target, target.Mirrors registry defines name) ↔
      registry.Registered .action name ∨ defines (.competence name) ∨
        defines (.pattern name) := by
  rw [← hreached.exists_binds]
  constructor
  · rintro ⟨_, hbinds | hdefines⟩
    · exact .inl ⟨_, hbinds⟩
    · rename_i ref
      cases ref with
      | competence => exact .inr (.inl hdefines)
      | pattern => exact .inr (.inr hdefines)
  · rintro (⟨capability, hbinds⟩ | hdefines | hdefines)
    · exact ⟨_, .action hbinds⟩
    · exact ⟨_, .node hdefines⟩
    · exact ⟨_, .node hdefines⟩

theorem exists_element {source : Plan.CompetenceElement} :
    (∃ element : Element, element.Mirrors registry defines source) ↔
      (∀ condition ∈ source.trigger.getD [],
          registry.Registered .sense condition.senseName) ∧
        (registry.Registered .action source.target ∨ defines (.competence source.target) ∨
          defines (.pattern source.target)) := by
  rw [← exists_trigger hreached, ← exists_target hreached]
  constructor
  · rintro ⟨element, h⟩
    exact ⟨⟨_, h.trigger⟩, _, h.target⟩
  · rintro ⟨⟨trigger, htrigger⟩, target, htarget⟩
    exact ⟨⟨source.name, trigger, target, source.maxRetries⟩, rfl, htrigger, htarget, rfl⟩

theorem exists_drive {library : Library} {source : Plan.DriveElement} :
    (∃ drive : Drive, drive.Mirrors registry library source) ↔
      (∀ condition ∈ source.trigger.getD [],
          registry.Registered .sense condition.senseName) ∧
        (registry.Registered .action source.target ∨
          library.defines (.competence source.target) ∨
          library.defines (.pattern source.target)) := by
  rw [← exists_trigger hreached, ← exists_target hreached]
  constructor
  · rintro ⟨drive, h⟩
    exact ⟨⟨_, h.trigger⟩, _, h.target⟩
  · rintro ⟨⟨trigger, htrigger⟩, target, htarget⟩
    exact ⟨.fresh library source.name trigger target source.interval, rfl, htrigger, htarget,
      rfl, rfl⟩

theorem exists_competence {source : Plan.Competence} :
    (∃ competence : Competence, competence.Mirrors registry defines source) ↔
      (∀ condition ∈ source.goal.getD [], registry.Registered .sense condition.senseName) ∧
        ∀ element ∈ source.levels.flatten,
          ∃ mirror : Element, mirror.Mirrors registry defines element := by
  rw [← exists_trigger hreached, ← exists_levels]
  constructor
  · rintro ⟨competence, h⟩
    exact ⟨⟨_, h.goal⟩, _, h.levels⟩
  · rintro ⟨⟨goal, hgoal⟩, levels, hlevels⟩
    exact ⟨⟨source.name, goal, levels⟩, rfl, hgoal, hlevels⟩

/-- A step has a mirror image that may stand in front of the others. -/
theorem exists_first {step : Plan.Step} {rest : List Plan.Step} :
    (∃ first : Step, first.Mirrors registry defines step ∧
        ∀ next, first = .competence next → rest = []) ↔
      match step with
      | .sense name _ _ => registry.Registered .sense name
      | .named name => registry.Registered .sense name ∨ registry.Registered .action name ∨
          rest = [] ∧ defines (.competence name) := by
  cases step with
  | sense name value operator =>
    dsimp only
    rw [← hreached.exists_binds]
    constructor
    · rintro ⟨_, ⟨hbinds⟩, -⟩
      exact ⟨_, hbinds⟩
    · rintro ⟨capability, hbinds⟩
      exact ⟨_, .check hbinds, fun _ h => nomatch h⟩
  | named name =>
    dsimp only
    rw [← hreached.exists_binds, ← hreached.exists_binds]
    constructor
    · rintro ⟨first, hfirst, hlast⟩
      cases hfirst with
      | sense hbinds => exact .inl ⟨_, hbinds⟩
      | action hbinds => exact .inr (.inl ⟨_, hbinds⟩)
      | competence hdefines => exact .inr (.inr ⟨hlast name rfl, hdefines⟩)
    · rintro (⟨capability, hbinds⟩ | ⟨capability, hbinds⟩ | ⟨hrest, hdefines⟩)
      · exact ⟨_, .sense hbinds, fun _ h => nomatch h⟩
      · exact ⟨_, .action hbinds, fun _ h => nomatch h⟩
      · exact ⟨_, .competence hdefines, fun _ _ => hrest⟩

end Exists

namespace Scope

variable {scope : Scope} (hreached : scope.registry.Reached)
  (hapart : Apart scope.registry scope.plan.defines)
include hreached hapart

/-- Which steps can be built: their senses must be registered, and a name must be that of a sense,
of an action or, in the last place, of a competence. -/
theorem exists_steps {pattern : String} {source : List Plan.Step} :
    (∃ steps, scope.steps pattern source = .ok steps) ↔
      (∀ name value operator, .sense name value operator ∈ source →
          scope.registry.Registered .sense name) ∧
        ∀ before name after, source = before ++ .named name :: after →
          scope.registry.Registered .sense name ∨ scope.registry.Registered .action name ∨
            after = [] ∧ scope.plan.defines (.competence name) := by
  induction source with
  | nil =>
    refine iff_of_true ⟨[], rfl⟩ ⟨(fun _ _ _ h => nomatch h), fun before name after h => ?_⟩
    simp at h
  | cons step rest ih =>
    -- First the list is taken apart; then names and places are counted on by one.
    have hsplit : (∃ steps, scope.steps pattern (step :: rest) = .ok steps) ↔
        (∃ first : Step, first.Mirrors scope.registry scope.plan.defines step ∧
          ∀ next, first = .competence next → rest = []) ∧
        ∃ others, scope.steps pattern rest = .ok others := by
      simp only [steps_cons_eq_ok hreached hapart]
      constructor
      · rintro ⟨_, first, others, rfl, hfirst, hlast, hothers⟩
        exact ⟨⟨first, hfirst, hlast⟩, others, hothers⟩
      · rintro ⟨⟨first, hfirst, hlast⟩, others, hothers⟩
        exact ⟨_, first, others, rfl, hfirst, hlast, hothers⟩
    rw [hsplit, exists_first hreached, ih]
    constructor
    · rintro ⟨hfirst, hchecks, hnames⟩
      refine ⟨fun name value operator hmem => ?_, fun before name after heq => ?_⟩
      · rcases List.mem_cons.1 hmem with rfl | hmem
        · exact hfirst
        · exact hchecks name value operator hmem
      · cases before with
        | nil =>
          cases heq
          exact hfirst
        | cons other before =>
          cases heq
          exact hnames before name after rfl
    · rintro ⟨hchecks, hnames⟩
      refine ⟨?_, fun name value operator hmem => ?_, fun before name after heq => ?_⟩
      · cases step with
        | sense name value operator => exact hchecks name value operator List.mem_cons_self
        | named name => exact hnames [] name rest rfl
      · exact hchecks name value operator (List.mem_cons_of_mem _ hmem)
      · exact hnames (step :: before) name after (by rw [heq, List.cons_append])

/-- The nodes of a plan can be built exactly if each of them can be built for itself. -/
theorem exists_library :
    (∃ library, scope.library = .ok library) ↔
      (∀ source ∈ scope.plan.competences, ∃ competence : Competence,
          competence.Mirrors scope.registry scope.plan.defines source) ∧
        ∀ source ∈ scope.plan.patterns, ∃ steps,
          scope.steps source.name source.steps = .ok steps := by
  have hpattern : ∀ source, (∃ pattern : Pattern,
      pattern.Mirrors scope.registry scope.plan.defines source ∧ pattern.fresh.CompetenceLast) ↔
        ∃ steps, scope.steps source.name source.steps = .ok steps := by
    intro source
    simp only [steps_eq_ok hreached hapart]
    constructor
    · rintro ⟨pattern, hmirrors, hlast⟩
      exact ⟨pattern.steps, hmirrors.steps, hlast⟩
    · rintro ⟨steps, hsteps, hlast⟩
      exact ⟨⟨source.name, steps⟩, ⟨rfl, hsteps⟩, hlast⟩
  simp only [library_eq_ok hreached hapart, ← hpattern, ← exists_forall₂]
  constructor
  · rintro ⟨library, ⟨hcompetences, hpatterns⟩, hlast⟩
    exact ⟨⟨_, hcompetences⟩, _, forall₂_and_right.2 ⟨hpatterns, hlast⟩⟩
  · rintro ⟨⟨competences, hcompetences⟩, patterns, hpatterns⟩
    obtain ⟨hpatterns, hlast⟩ := forall₂_and_right.1 hpatterns
    exact ⟨⟨competences, patterns⟩, ⟨hcompetences, hpatterns⟩, hlast⟩

end Scope

/-! ## Building -/

section Build

variable {registry : Registry} {plan : Plan} {agent : Agent}

/-- The check of names before building passes exactly if the names of nodes are distinct and none
is that of a capability. -/
theorem nameClash?_definedNodes :
    nameClash? registry [] (definedNodes plan) = none ↔
      plan.nodeNames.Nodup ∧
        ∀ name ∈ plan.nodeNames, ∀ kind, ¬ registry.Registered kind name := by
  have hnames : (definedNodes plan).map Prod.snd = plan.nodeNames := by
    simp [definedNodes, Plan.nodeNames, Function.comp_def]
  rw [nameClash?_eq_none, hnames]
  simp

/-- Names that pass the check keep the nodes of the plan and the capabilities apart. -/
theorem apart_of_names (hdistinct : plan.nodeNames.Nodup)
    (hfree : ∀ name ∈ plan.nodeNames, ∀ kind, ¬ registry.Registered kind name) :
    Apart registry plan.defines := by
  refine ⟨fun name hcompetence hpattern => ?_, fun ref kind hdefines => ?_⟩
  · rw [Plan.defines_competence] at hcompetence
    rw [Plan.defines_pattern] at hpattern
    exact (List.nodup_append.1 hdistinct).2.2 name hcompetence name hpattern rfl
  · refine hfree ref.name ?_ kind
    cases ref with
    | competence name => exact List.mem_append_left _ (Plan.defines_competence.1 hdefines)
    | pattern name => exact List.mem_append_right _ (Plan.defines_pattern.1 hdefines)

/-- Both ways to the agent are one, by way of the collection around the root. -/
theorem build_eq (hclash : nameClash? registry [] (definedNodes plan) = none) :
    plan.build registry = Scope.library ⟨registry, plan⟩ >>= fun library =>
      match plan.collection? with
      | some collection => Scope.collection ⟨registry, plan⟩ library collection
      | none => .error .noRoot := by
  rw [Plan.build, hclash]
  dsimp only
  cases hcollection : plan.collection with
  | some collection => simp only [Plan.collection?, hcollection, Option.some_or]
  | none =>
    exact bind_congr fun library =>
      Scope.implicitCollection_eq ⟨registry, plan⟩ library hcollection

/-- What is built has names apart, competences in last steps only, and mirrors its plan. -/
theorem build_eq_ok_of_names (hreached : registry.Reached) :
    plan.build registry = .ok agent ↔
      (plan.nodeNames.Nodup ∧ ∀ name ∈ plan.nodeNames, ∀ kind, ¬ registry.Registered kind name) ∧
        agent.library.CompetencesLast ∧ agent.Mirrors registry plan := by
  rw [← nameClash?_definedNodes]
  cases hclash : nameClash? registry [] (definedNodes plan) with
  | some clash => simp [Plan.build, hclash]
  | none =>
    obtain ⟨hdistinct, hfree⟩ := nameClash?_definedNodes.1 hclash
    have hapart := apart_of_names hdistinct hfree
    -- From here on names are apart, so that each part mirrors its source.
    have hlibrary_eq_ok := @Scope.library_eq_ok ⟨registry, plan⟩ hreached hapart
    have hcollection_eq_ok := @Scope.collection_eq_ok ⟨registry, plan⟩ hreached hapart
    rw [build_eq hclash, bind_eq_ok]
    simp only [true_and]
    constructor
    · rintro ⟨library, hlibrary, h⟩
      obtain ⟨hmirrors, hlast⟩ := hlibrary_eq_ok.1 hlibrary
      have hdefines := hmirrors.defines_eq
      split at h
      · rename_i collection hcollection
        obtain ⟨rfl, hdocstring, hclock, hroot⟩ := (hcollection_eq_ok hdefines).1 h
        exact ⟨hlast, hdocstring, hdefines.symm ▸ hmirrors, hclock, collection, hcollection, hroot⟩
      · cases h
    · rintro ⟨hlast, hdocstring, hmirrors, hclock, collection, hcollection, hroot⟩
      have hdefines := hmirrors.defines_eq
      refine ⟨agent.library, hlibrary_eq_ok.2 ⟨hdefines ▸ hmirrors, hlast⟩, ?_⟩
      rw [hcollection]
      exact (hcollection_eq_ok hdefines).2 ⟨rfl, hdocstring, hclock, hroot⟩

theorem exists_ofTag? {tag : String} :
    (∃ discipline, Discipline.ofTag? tag = some discipline) ↔
      tag ∈ ["SDC", "SRDC", "DC", "RDC"] := by
  rw [Discipline.ofTag?]
  split
  · rename_i htag
    refine iff_of_true ⟨_, rfl⟩ ?_
    simp only [Bool.or_eq_true, decide_eq_true_eq] at htag
    rcases htag with rfl | rfl <;> simp
  · split
    · rename_i htag
      refine iff_of_true ⟨_, rfl⟩ ?_
      simp only [Bool.or_eq_true, decide_eq_true_eq] at htag
      rcases htag with rfl | rfl <;> simp
    · rename_i hstepped hrealTime
      refine iff_of_false (fun ⟨_, h⟩ => nomatch h) ?_
      simp_all

/-- A plan has a drive collection that can be built, once its library is. -/
theorem exists_agent (hreached : registry.Reached) (hapart : Apart registry plan.defines) :
    (∃ agent : Agent, agent.library.CompetencesLast ∧ agent.Mirrors registry plan) ↔
      (∃ library, Scope.library ⟨registry, plan⟩ = .ok library) ∧
        ∃ collection, plan.collection? = some collection ∧
          collection.tag ∈ ["SDC", "SRDC", "DC", "RDC"] ∧
          (∀ condition ∈ collection.goal.getD [],
            registry.Registered .sense condition.senseName) ∧
          ∀ source ∈ collection.levels.flatten,
            (∀ condition ∈ source.trigger.getD [],
              registry.Registered .sense condition.senseName) ∧
            (registry.Registered .action source.target ∨
              plan.defines (.competence source.target) ∨
              plan.defines (.pattern source.target)) := by
  have hlibrary_eq_ok := @Scope.library_eq_ok ⟨registry, plan⟩ hreached hapart
  simp only [← exists_ofTag?, ← exists_trigger hreached]
  constructor
  · rintro ⟨agent, hlast, -, hmirrors, -, collection, hcollection, -, htag, hgoal, hlevels⟩
    have hdefines := hmirrors.defines_eq
    refine ⟨⟨_, hlibrary_eq_ok.2 ⟨hdefines ▸ hmirrors, hlast⟩⟩, collection, hcollection,
      ⟨_, htag⟩, ⟨_, hgoal⟩, fun source hsource => ?_⟩
    have hdrive := exists_levels.1 ⟨_, hlevels⟩ source hsource
    rw [exists_drive hreached, ← exists_trigger hreached, hdefines] at hdrive
    exact hdrive
  · rintro ⟨⟨library, hlibrary⟩, collection, hcollection, ⟨discipline, htag⟩, ⟨goal, hgoal⟩,
      hlevels⟩
    obtain ⟨hmirrors, hlast⟩ := hlibrary_eq_ok.1 hlibrary
    have hdefines := hmirrors.defines_eq
    simp only [exists_trigger hreached, ← hdefines, ← exists_drive hreached,
      ← exists_levels] at hlevels
    obtain ⟨levels, hlevels⟩ := hlevels
    let agent : Agent :=
      ⟨collection.name, discipline, plan.docstring, library, goal, levels,
        .ofDiscipline discipline Pacer.defaultWindow⟩
    exact ⟨agent, hlast, rfl, hdefines.symm ▸ hmirrors, rfl, collection, hcollection, rfl, htag,
      hgoal, hlevels⟩

/-- What a plan without drive collection runs is one of its nodes. -/
theorem defines_of_rootName? (hcollection : plan.collection = none) {root : String}
    (h : plan.rootName? = some root) :
    plan.defines (.competence root) ∨ plan.defines (.pattern root) := by
  rw [Plan.defines_competence, Plan.defines_pattern]
  cases hcompetences : plan.competences with
  | cons competence rest =>
    simp only [Plan.rootName?, hcollection, hcompetences, Option.some.injEq] at h
    exact .inl (by simp [h])
  | nil =>
    cases hpatterns : plan.patterns with
    | cons pattern rest =>
      simp only [Plan.rootName?, hcollection, hcompetences, hpatterns, Option.some.injEq] at h
      exact .inr (by simp [h])
    | nil => simp [Plan.rootName?, hcollection, hcompetences, hpatterns] at h

/-- A plan without a drive collection has a root to run exactly if it has any node. -/
theorem exists_rootName? (hcollection : plan.collection = none) :
    (∃ root, plan.rootName? = some root) ↔ plan.competences ≠ [] ∨ plan.patterns ≠ [] := by
  cases hcompetences : plan.competences <;> cases hpatterns : plan.patterns <;>
    simp [Plan.rootName?, hcollection, hcompetences, hpatterns]

/-- There is a collection to run if one is given or there is a node to put into one. What is to
hold of its conditions and targets is to hold of those that are given. -/
theorem exists_collection?_iff {p : Option (List Plan.Condition) → Prop} {q : String → Prop}
    (hnone : p none)
    (hroot : plan.collection = none → ∀ root, plan.rootName? = some root → q root) :
    (∃ collection, plan.collection? = some collection ∧
        collection.tag ∈ ["SDC", "SRDC", "DC", "RDC"] ∧ p collection.goal ∧
          ∀ source ∈ collection.levels.flatten, p source.trigger ∧ q source.target) ↔
      (match plan.collection with
        | some collection => collection.tag ∈ ["SDC", "SRDC", "DC", "RDC"]
        | none => plan.competences ≠ [] ∨ plan.patterns ≠ []) ∧
      ∀ collection, plan.collection = some collection → p collection.goal ∧
        ∀ source ∈ collection.levels.flatten, p source.trigger ∧ q source.target := by
  cases hgiven : plan.collection with
  | some given => simp [Plan.collection?, hgiven]
  | none =>
    rw [← exists_rootName? hgiven]
    constructor
    · rintro ⟨collection, hcollection, -⟩
      rw [Plan.collection?, hgiven, Option.none_or, Option.map_eq_some_iff] at hcollection
      obtain ⟨root, hname, -⟩ := hcollection
      exact ⟨⟨root, hname⟩, fun _ hsome => by cases hsome⟩
    · rintro ⟨⟨root, hname⟩, -⟩
      refine ⟨_, by rw [Plan.collection?, hgiven, hname]; rfl, by simp, hnone, ?_⟩
      intro source hsource
      obtain rfl : source = ⟨root, none, root, none⟩ := by simpa using hsource
      exact ⟨hnone, hroot hgiven root hname⟩

/-- The library of a plan can be built if its nodes are resolvable. -/
theorem exists_library_iff (hreached : registry.Reached) (hapart : Apart registry plan.defines) :
    (∃ library, Scope.library ⟨registry, plan⟩ = .ok library) ↔
      (∀ source ∈ plan.competences,
        (∀ condition ∈ source.goal.getD [], registry.Registered .sense condition.senseName) ∧
          ∀ element ∈ source.levels.flatten,
            (∀ condition ∈ element.trigger.getD [],
              registry.Registered .sense condition.senseName) ∧
            (registry.Registered .action element.target ∨
              plan.defines (.competence element.target) ∨
              plan.defines (.pattern element.target))) ∧
        ∀ source ∈ plan.patterns,
          (∀ name value operator, .sense name value operator ∈ source.steps →
            registry.Registered .sense name) ∧
          ∀ before name after, source.steps = before ++ .named name :: after →
            registry.Registered .sense name ∨ registry.Registered .action name ∨
              after = [] ∧ plan.defines (.competence name) := by
  have hlibrary := @Scope.exists_library ⟨registry, plan⟩ hreached hapart
  have hsteps := @Scope.exists_steps ⟨registry, plan⟩ hreached hapart
  simp only [exists_competence hreached, exists_element hreached, hsteps] at hlibrary
  exact hlibrary

/-- The plans that can be resolved are those that can be built. -/
theorem resolvable_iff (hreached : registry.Reached) :
    plan.Resolvable registry ↔
      (plan.nodeNames.Nodup ∧ ∀ name ∈ plan.nodeNames, ∀ kind, ¬ registry.Registered kind name) ∧
        ∃ agent : Agent, agent.library.CompetencesLast ∧ agent.Mirrors registry plan := by
  have hcollection := @exists_collection?_iff plan
    (fun conditions => ∀ condition ∈ conditions.getD [],
      registry.Registered .sense condition.senseName)
    (fun name => registry.Registered .action name ∨ plan.defines (.competence name) ∨
      plan.defines (.pattern name))
    (List.forall_mem_nil _) fun hnone _ hroot => .inr (defines_of_rootName? hnone hroot)
  constructor
  · intro h
    have hapart := apart_of_names h.distinct h.free
    obtain ⟨hconditions, hconditions'⟩ := Plan.forall_conditionLists.1 h.conditions
    obtain ⟨htargets, htargets'⟩ := Plan.forall_targetNames.1 h.targets
    have hlibrary := (exists_library_iff hreached hapart).2
      ⟨fun source hsource => ⟨(hconditions source hsource).1, fun element helement =>
          ⟨(hconditions source hsource).2 element helement,
            htargets source hsource element helement⟩⟩,
        fun source hsource => ⟨h.checks source hsource, h.names source hsource⟩⟩
    refine ⟨⟨h.distinct, h.free⟩, (exists_agent hreached hapart).2
      ⟨hlibrary, hcollection.2 ⟨h.root, fun given hgiven => ?_⟩⟩⟩
    obtain ⟨hgoal, htriggers⟩ := hconditions' given hgiven
    exact ⟨hgoal, fun element helement =>
      ⟨htriggers element helement, htargets' given hgiven element helement⟩⟩
  · rintro ⟨⟨hdistinct, hfree⟩, hagent⟩
    have hapart := apart_of_names hdistinct hfree
    obtain ⟨hlibrary, hcollection'⟩ := (exists_agent hreached hapart).1 hagent
    obtain ⟨hcompetences, hpatterns⟩ := (exists_library_iff hreached hapart).1 hlibrary
    obtain ⟨hroot, hgiven⟩ := hcollection.1 hcollection'
    exact
      { distinct := hdistinct
        free := hfree
        conditions := Plan.forall_conditionLists.2
          ⟨fun source hsource => ⟨(hcompetences source hsource).1, fun element helement =>
              ((hcompetences source hsource).2 element helement).1⟩,
            fun given hsome => ⟨(hgiven given hsome).1, fun element helement =>
              ((hgiven given hsome).2 element helement).1⟩⟩
        checks := fun pattern hpattern => (hpatterns pattern hpattern).1
        targets := Plan.forall_targetNames.2
          ⟨fun source hsource element helement =>
              ((hcompetences source hsource).2 element helement).2,
            fun given hsome element helement => ((hgiven given hsome).2 element helement).2⟩
        names := fun pattern hpattern => (hpatterns pattern hpattern).2
        root := hroot }

/-- A plan is built into the agent that mirrors it. -/
theorem build_eq_ok (hreached : registry.Reached) :
    plan.build registry = .ok agent ↔
      plan.Resolvable registry ∧ agent.Mirrors registry plan := by
  rw [build_eq_ok_of_names hreached, resolvable_iff hreached]
  constructor
  · rintro ⟨hnames, hlast, hmirrors⟩
    exact ⟨⟨hnames, agent, hlast, hmirrors⟩, hmirrors⟩
  · rintro ⟨⟨hnames, other, hlast, hother⟩, hmirrors⟩
    obtain rfl := Agent.Mirrors.unique (apart_of_names hnames.1 hnames.2) hother hmirrors
    exact ⟨hnames, hlast, hmirrors⟩

/-- The plans that can be built are the resolvable ones. -/
theorem builds_iff_resolvable (hreached : registry.Reached) :
    (∃ agent, plan.build registry = .ok agent) ↔ plan.Resolvable registry := by
  simp only [build_eq_ok_of_names hreached, resolvable_iff hreached]
  exact exists_and_left

/-- Building succeeds exactly on resolvable plans, and what it makes is the agent that
mirrors the plan. -/
theorem builds_exactly_resolvable (hreached : registry.Reached) :
    ((∃ agent, plan.build registry = .ok agent) ↔ plan.Resolvable registry) ∧
      ∀ agent, plan.build registry = .ok agent ↔
        plan.Resolvable registry ∧ agent.Mirrors registry plan :=
  ⟨builds_iff_resolvable hreached, fun _ => build_eq_ok hreached⟩

end Build

/-! ## A pattern and a competence that lead to each other -/

/-- A guard can walk and greet, and knows whether it is alone and how tired it is. -/
def guardBehaviour : Behaviour :=
  ⟨"guard", ["walk", "greet"], ["alone", "tired"]⟩

def guards : Registry :=
  .grow .empty guardBehaviour.offer

theorem guards_reached : guards.Reached :=
  have hregister : Registry.empty.register guardBehaviour = .ok guards := rfl
  .register .empty hregister

/-- A pattern that ends in a competence, whose first element fires the pattern again. -/
def patrolPlan : Plan where
  docstring := none
  collection := some
    { tag := "SDC", name := "duty", goal := none
      levels := [[⟨"rounds", some [.check "tired" (some "3") (some "<")], "patrol", none⟩],
        [⟨"chat", none, "greet", some 5⟩]] }
  competences := [⟨"rest", none, some [.bare "alone"], [[⟨"again", some [], "patrol", 2⟩]]⟩]
  patterns := [⟨"patrol", none, [.named "walk", .sense "alone" none none, .named "rest"]⟩]

def patrolLibrary : Library where
  competences := [⟨"rest", [⟨⟨"guard", "alone"⟩, .truthy⟩],
    [[⟨"again", [], .node (.pattern "patrol"), 2⟩]]⟩]
  patterns := [⟨"patrol", [.action ⟨"guard", "walk"⟩, .sense ⟨⟨"guard", "alone"⟩, .truthy⟩,
    .competence "rest"]⟩]

/-- The agent of `patrolPlan`. -/
def patroller : Agent where
  name := "duty"
  discipline := .stepped
  docstring := none
  library := patrolLibrary
  goal := []
  levels :=
    [[.fresh patrolLibrary "rounds" [⟨⟨"guard", "tired"⟩, .ofText (some "3") (some "<")⟩]
        (.node (.pattern "patrol")) none],
      [.fresh patrolLibrary "chat" [] (.action ⟨"guard", "greet"⟩) (some 5)]]
  clock := .stepped 0

theorem build_patrolPlan : patrolPlan.build guards = .ok patroller := by
  rfl

/-- The patrol is resolvable and built into its mirror image. -/
theorem builds_exactly_resolvable_patrol :
    guards.Reached ∧ patrolPlan.build guards = .ok patroller ∧ patrolPlan.Resolvable guards ∧
      patroller.Mirrors guards patrolPlan :=
  ⟨guards_reached, build_patrolPlan,
    ((builds_exactly_resolvable guards_reached).2 patroller).1 build_patrolPlan⟩

end SlipStack.Engine
