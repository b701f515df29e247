import SlipStack.Proofs.Engine.Faults
import SlipStack.Proofs.Lap.RoundTrip

/-!
# Agents of plans in text

What was read from text has checks with values that are not empty, and with operators that stand
for something (`Operator.exists_of_predicate`). So in the agent of such a plan every check
compares as it is written (`Agent.Spelled`), and building it fails with faults of names only
(`compiled_as_written`).
-/

namespace SlipStack

/-! ## Operators in text -/

namespace Operator

/-- The texts that stand for an operator. -/
def spellings : Operator → List String
  | .eq => ["==", "="]
  | .ne => ["!="]
  | .lt => ["<"]
  | .gt => [">"]
  | .le => ["<="]
  | .ge => [">="]

theorem ofText?_of_mem_spellings {text : String} {operator : Operator}
    (h : text ∈ operator.spellings) : ofText? text = some operator := by
  cases operator with
  | eq =>
    rcases List.mem_pair.1 h with rfl | rfl
    · decide
    · decide
  | ne | lt | gt | le | ge =>
    obtain rfl := List.mem_singleton.1 h
    decide

/-- Whatever is read as an operator is the spelling of one. -/
theorem exists_of_predicate {text : String}
    (h : Lap.Word.kindOf? text.toList = some .predicate) :
    ∃ operator : Operator, text ∈ operator.spellings := by
  have hword : text ∈ ["==", "=", "!=", "<", ">", "<=", ">="] := by
    rcases Lap.Word.kindOf?_cases h with h | ⟨h, -⟩ | ⟨-, h⟩ | ⟨-, h⟩ | ⟨-, h⟩ | ⟨-, h⟩
    · -- No reserved word is read as an operator.
      exact absurd (Lap.Word.kind_of_reserved? h) (by decide)
    · obtain ⟨spelling, hmem, hspelling⟩ := List.any_eq_true.1 h
      rw [String.toList_inj.1 (of_decide_eq_true hspelling)]
      exact hmem
    all_goals cases h
  have hall : ∀ spelling ∈ ["==", "=", "!=", "<", ">", "<=", ">="],
      ∃ operator ∈ all, spelling ∈ operator.spellings := by decide
  obtain ⟨operator, -, hspelling⟩ := hall text hword
  exact ⟨operator, hspelling⟩

end Operator

namespace Engine

/-! ## What is written -/

/-- The test is written as the value and the operator. An operator is written after a value only.
-/
inductive Test.Spelled : Option String → Option String → Test → Prop
  | bare : Spelled none none .truthy
  | value (text : String) : Spelled (some text) none (.compare .eq (.ofLiteral text))
  | compared (text : String) {spelling : String} {operator : Operator} :
      spelling ∈ operator.spellings →
      Spelled (some text) (some spelling) (.compare operator (.ofLiteral text))

/-- The sense reads what the condition names, and tests what it says. -/
inductive Sense.Spelled : Plan.Condition → Sense → Prop
  | bare (capability : Capability) : Spelled (.bare capability.name) ⟨capability, .truthy⟩
  | check (capability : Capability) {value operator : Option String} {test : Test} :
      test.Spelled value operator →
      Spelled (.check capability.name value operator) ⟨capability, test⟩

/-- The step of a pattern tests what is written. Where only a name is written, it compares
nothing. -/
inductive Step.Spelled : Plan.Step → Step → Prop
  | check (capability : Capability) {value operator : Option String} {test : Test} :
      test.Spelled value operator →
      Spelled (.sense capability.name value operator) (.sense ⟨capability, test⟩)
  | named {name : String} {step : Step} :
      (∀ sense, step = .sense sense → sense.test = .truthy) → Spelled (.named name) step

/-- The trigger has the conditions in their order, each as it is written. -/
def Trigger.Spelled (conditions : Option (List Plan.Condition)) (trigger : Trigger) : Prop :=
  List.Forall₂ Sense.Spelled (conditions.getD []) trigger

/-- All goals, triggers and steps of the agent are as they are written in the plan. -/
structure Agent.Spelled (plan : Plan) (agent : Agent) : Prop where
  competences : List.Forall₂ (fun (source : Plan.Competence) (competence : Competence) =>
    Trigger.Spelled source.goal competence.goal ∧
      List.Forall₂ (List.Forall₂ fun written element =>
        Trigger.Spelled written.trigger element.trigger) source.levels competence.levels)
    plan.competences agent.library.competences
  patterns : List.Forall₂ (fun (source : Plan.ActionPattern) (pattern : Pattern) =>
    List.Forall₂ Step.Spelled source.steps pattern.steps) plan.patterns agent.library.patterns
  collection : ∃ collection, plan.collection? = some collection ∧
    Trigger.Spelled collection.goal agent.goal ∧
      List.Forall₂ (List.Forall₂ fun written drive =>
        Trigger.Spelled written.trigger drive.trigger) collection.levels agent.levels

/-! ## What is built -/

section Mirrors

variable {registry : Registry}

/-- The test that is read from a written check is spelled by it: value and operator in a plan of
the right form are read as what they denote. -/
theorem Test.spelled_ofText {name : String} {value operator : Option String}
    (h : Plan.CheckWellFormed name value operator) :
    (Test.ofText value operator).Spelled value operator := by
  cases value with
  | none =>
    cases operator with
    | none => exact .bare
    | some spelling => cases (h.isOperator spelling rfl).1
  | some text =>
    obtain ⟨kind, -, hkind⟩ := h.isValue text rfl
    have hne : text ≠ "" := by
      rintro rfl
      exact Lap.Word.ne_nil_of_kindOf? hkind rfl
    cases operator with
    | none =>
      rw [Test.ofText, if_neg hne]
      exact .value text
    | some spelling =>
      obtain ⟨-, kind', hmem, hspelling⟩ := h.isOperator spelling rfl
      obtain rfl := List.mem_singleton.1 hmem
      obtain ⟨operator, hoperator⟩ := Operator.exists_of_predicate hspelling
      rw [Test.ofText, if_neg hne, Operator.ofText?_of_mem_spellings hoperator]
      exact .compared text hoperator

/-- A sense built for a condition of the right form tests what the condition spells. -/
theorem Sense.Mirrors.spelled {condition : Plan.Condition} {sense : Sense}
    (h : sense.Mirrors registry condition) (hwritten : condition.WellFormed) :
    sense.Spelled condition := by
  cases h with
  | bare hbinds =>
    obtain rfl := hbinds.name_eq
    exact .bare _
  | check hbinds =>
    obtain rfl := hbinds.name_eq
    exact .check _ (Test.spelled_ofText hwritten)

/-- A trigger built for conditions of the right form has their tests, one for each and in their
order. -/
theorem Trigger.Mirrors.spelled {conditions : Option (List Plan.Condition)} {trigger : Trigger}
    (h : Trigger.Mirrors registry conditions trigger) (hwritten : Plan.GuardWellFormed conditions) :
    trigger.Spelled conditions := by
  cases conditions with
  | none => exact List.forall₂_nil_left_iff.2 (List.forall₂_nil_left_iff.1 h)
  | some conditions =>
    exact forall₂_imp_of_forall h (hwritten conditions rfl).2
      fun condition sense hcondition hmirrors => hmirrors.spelled hcondition

/-- A step built from one of the right form does what the step spells. -/
theorem Step.Mirrors.spelled {defines : NodeRef → Bool} {source : Plan.Step} {step : Step}
    (h : step.Mirrors registry defines source) (hwritten : source.WellFormed) :
    step.Spelled source := by
  cases h with
  | check hbinds =>
    obtain rfl := hbinds.name_eq
    exact .check _ (Test.spelled_ofText hwritten)
  | sense hbinds =>
    refine .named fun sense hsense => ?_
    cases hsense
    rfl
  | action | competence => exact .named nofun

theorem Competence.Mirrors.spelled {defines : NodeRef → Bool} {source : Plan.Competence}
    {competence : Competence} (h : competence.Mirrors registry defines source)
    (hwritten : source.WellFormed) :
    competence.goal.Spelled source.goal ∧ List.Forall₂ (List.Forall₂ fun written element =>
      Trigger.Spelled written.trigger element.trigger) source.levels competence.levels := by
  have helements : ∀ level ∈ source.levels, ∀ element ∈ level,
      Plan.CompetenceElement.WellFormed element := fun level hlevel =>
    (hwritten.levels.2 level hlevel).2
  refine ⟨h.goal.spelled hwritten.goal, levels_imp_of_forall h.levels helements ?_⟩
  exact fun written element helement hmirrors => hmirrors.trigger.spelled helement.trigger

/-- The collection that a plan in text comes to can be paced, and its conditions are well-formed.
A node that is run without one has none. -/
theorem collection?_of_wellFormed {plan : Plan} (hwritten : plan.WellFormed) :
    ∃ collection, plan.collection? = some collection ∧
      collection.tag ∈ ["SDC", "SRDC", "DC", "RDC"] ∧ Plan.GuardWellFormed collection.goal ∧
      ∀ level ∈ collection.levels, ∀ element ∈ level, Plan.GuardWellFormed element.trigger := by
  cases hgiven : plan.collection with
  | some given =>
    obtain ⟨htag, -, hgoal, -, hlevels⟩ := hwritten.collection given hgiven
    refine ⟨given, by rw [Plan.collection?, hgiven, Option.some_or], ?_, hgoal, ?_⟩
    · have hall : ∀ tag ∈ ["DC", "RDC", "SDC", "SRDC"], tag ∈ ["SDC", "SRDC", "DC", "RDC"] := by
        decide
      exact hall _ htag
    · exact fun level hlevel element helement => ((hlevels level hlevel).2 element helement).trigger
  | none =>
    -- A plan of the right form without a collection has one node, which is its root.
    have hnode : plan.competences ≠ [] ∨ plan.patterns ≠ [] := by
      have hone := hwritten.one_root hgiven
      rcases Nat.eq_zero_or_pos plan.competences.length with hnone | hsome
      · exact .inr (List.ne_nil_of_length_pos (by omega))
      · exact .inl (List.ne_nil_of_length_pos hsome)
    obtain ⟨root, hroot⟩ := (exists_rootName? hgiven).2 hnode
    refine ⟨_, by rw [Plan.collection?, hgiven, hroot]; rfl, List.mem_cons_self,
      Lap.Grammar.guardWellFormed_none, fun level hlevel element helement => ?_⟩
    obtain rfl := List.mem_singleton.1 hlevel
    obtain rfl := List.mem_singleton.1 helement
    exact Lap.Grammar.guardWellFormed_none

/-- An agent that mirrors a plan of the right form is spelled by it in all its parts: building
keeps the structure, and each check is read as it is written. -/
theorem Agent.Mirrors.spelled {plan : Plan} {agent : Agent} (h : agent.Mirrors registry plan)
    (hwritten : plan.WellFormed) : agent.Spelled plan := by
  obtain ⟨collection, hcollection, -, -, hgoal, hlevels⟩ := h.root
  obtain ⟨_, hsame, -, hgoalWritten, hlevelsWritten⟩ := collection?_of_wellFormed hwritten
  cases hcollection.symm.trans hsame
  refine ⟨?_, ?_, collection, hcollection, hgoal.spelled hgoalWritten, ?_⟩
  · exact forall₂_imp_of_forall h.library.competences hwritten.competences
      fun source competence hsource hmirrors => hmirrors.spelled hsource
  · refine forall₂_imp_of_forall h.library.patterns hwritten.patterns
      fun source pattern hsource hmirrors => ?_
    exact forall₂_imp_of_forall hmirrors.steps hsource.steps
      fun written step hstep hmirrors => hmirrors.spelled hstep
  · exact levels_imp_of_forall hlevels hlevelsWritten
      fun written drive hdrive hmirrors => hmirrors.trigger.spelled hdrive

end Mirrors

/-- A plan that was read from text cannot be built only because of its names, and in its agent
every check compares as it is written. -/
theorem compiled_as_written {registry : Registry} (hreached : registry.Reached) {source : String}
    {plan : Plan} (hparse : Lap.parse source = .ok plan) :
    (∀ e, plan.build registry = .error e → e.OfNames) ∧
      ∀ agent, plan.build registry = .ok agent → agent.Spelled plan := by
  have hwritten := Lap.wellFormed_of_parse hparse
  refine ⟨?_, fun agent hbuild => ((build_eq_ok hreached).1 hbuild).2.spelled hwritten⟩
  obtain ⟨collection, hcollection, htag, -, -⟩ := collection?_of_wellFormed hwritten
  exact build_failsOnly hreached hcollection htag

/-! ## A guard that is told when to rest -/

/-- A check with an operator, one with a value only, and one with neither. -/
def watchPlan : Plan where
  docstring := none
  collection := some
    { tag := "SDC", name := "watch", goal := some [.check "alone" (some "true") none]
      levels := [[⟨"rest", some [.check "tired" (some "3") (some ">=")], "pause", none⟩]] }
  competences := []
  patterns := [⟨"pause", none, [.named "alone", .named "greet"]⟩]

def watchLibrary : Library where
  competences := []
  patterns := [⟨"pause", [.sense ⟨⟨"guard", "alone"⟩, .truthy⟩, .action ⟨"guard", "greet"⟩]⟩]

/-- The agent of `watchPlan`. -/
def watcher : Agent where
  name := "watch"
  discipline := .stepped
  docstring := none
  library := watchLibrary
  goal := [⟨⟨"guard", "alone"⟩, .ofText (some "true") none⟩]
  levels := [[.fresh watchLibrary "rest" [⟨⟨"guard", "tired"⟩, .ofText (some "3") (some ">=")⟩]
    (.node (.pattern "pause")) none]]
  clock := .stepped 0

theorem compiled_as_written_watch :
    guards.Reached ∧ Lap.parse watchPlan.render = .ok watchPlan ∧
      watchPlan.build guards = .ok watcher ∧ watcher.Spelled watchPlan := by
  have hparse : Lap.parse watchPlan.render = .ok watchPlan := Lap.parse_render (by decide)
  have hbuild : watchPlan.build guards = .ok watcher := by rfl
  exact ⟨guards_reached, hparse, hbuild,
    (compiled_as_written guards_reached hparse).2 watcher hbuild⟩

end Engine

end SlipStack
