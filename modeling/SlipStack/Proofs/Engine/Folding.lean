import SlipStack.Proofs.Engine.Renaming
import SlipStack.Proofs.Engine.Resolution

/-!
# Plans with a definition under several names

A plan folds into another (`Plan.Folds`) if replacing the names of nodes makes its parts parts
of the other: two definitions that only differ in their names become one. If the other plan is
resolvable, so is the first (`Plan.Folds.resolvable`). The agents of both then do the same
(`Agent.Mirrors.renames`): what a part mirrors, it mirrors under other names as well, and mirror
images are unique.
-/

/-! ## Replacing names in plans -/

namespace SlipStack.Plan

open Engine

section Rename

variable (f : String → String)

def CompetenceElement.rename (element : CompetenceElement) : CompetenceElement :=
  { element with target := f element.target }

def Competence.rename (competence : Competence) : Competence :=
  { competence with
    name := f competence.name
    levels := competence.levels.map fun level => level.map (CompetenceElement.rename f) }

def Step.rename : Step → Step
  | .named name => .named (f name)
  | .sense name value operator => .sense name value operator

def ActionPattern.rename (pattern : ActionPattern) : ActionPattern :=
  { pattern with
    name := f pattern.name
    steps := pattern.steps.map (Step.rename f) }

def DriveElement.rename (element : DriveElement) : DriveElement :=
  { element with target := f element.target }

def DriveCollection.rename (collection : DriveCollection) : DriveCollection :=
  { collection with
    levels := collection.levels.map fun level => level.map (DriveElement.rename f) }

end Rename

/-- The parts of the first plan are parts of the second once names are replaced. The names that
are replaced are no names of capabilities. -/
structure Folds (registry : Registry) (f : String → String) (plan plan' : Plan) : Prop where
  collection : ∃ collection, plan.collection = some collection ∧
    plan'.collection = some (collection.rename f)
  competences : ∀ competence ∈ plan.competences, competence.rename f ∈ plan'.competences
  patterns : ∀ pattern ∈ plan.patterns, pattern.rename f ∈ plan'.patterns
  defines : ∀ ref, plan.defines ref = plan'.defines (ref.rename f)
  distinct : plan.nodeNames.Nodup
  registered : ∀ kind name, registry.Registered kind (f name) → registry.Registered kind name
  fixed : ∀ kind name, registry.Registered kind name → f name = name

namespace Folds

variable {registry : Registry} {f : String → String} {plan plan' : Plan}

/-- The nodes keep the names that they had, or have others that are free. -/
theorem free (h : plan.Folds registry f plan')
    (hfree : ∀ name ∈ plan'.nodeNames, ∀ kind, ¬ registry.Registered kind name) :
    ∀ name ∈ plan.nodeNames, ∀ kind, ¬ registry.Registered kind name := by
  intro name hname kind hregistered
  refine hfree (f name) ?_ kind (by rwa [h.fixed kind name hregistered])
  rw [nodeNames, List.mem_append, List.mem_map, List.mem_map] at hname
  rcases hname with ⟨competence, hmem, rfl⟩ | ⟨pattern, hmem, rfl⟩
  · exact List.mem_append_left _
      (List.mem_map_of_mem (f := Competence.name) (h.competences competence hmem))
  · exact List.mem_append_right _
      (List.mem_map_of_mem (f := ActionPattern.name) (h.patterns pattern hmem))

/-- The conditions of a plan are those of the plan that it folds into. -/
theorem forall_conditionLists (h : plan.Folds registry f plan')
    {p : Option (List Condition) → Prop} (hp : ∀ conditions ∈ plan'.conditionLists, p conditions) :
    ∀ conditions ∈ plan.conditionLists, p conditions := by
  obtain ⟨hcompetences, hcollection⟩ := Plan.forall_conditionLists.1 hp
  refine Plan.forall_conditionLists.2 ⟨fun competence hmem => ?_, fun collection hsome => ?_⟩
  · have hrenamed := hcompetences _ (h.competences competence hmem)
    simpa only [Competence.rename, CompetenceElement.rename, ← List.map_flatten,
      List.forall_mem_map] using hrenamed
  · obtain ⟨given, hgiven, hgiven'⟩ := h.collection
    cases hgiven.symm.trans hsome
    have hrenamed := hcollection _ hgiven'
    simpa only [DriveCollection.rename, DriveElement.rename, ← List.map_flatten,
      List.forall_mem_map] using hrenamed

/-- The targets of a plan have other names in the plan that it folds into. -/
theorem forall_targetNames (h : plan.Folds registry f plan') {p : String → Prop}
    (hp : ∀ name ∈ plan'.targetNames, p name) : ∀ name ∈ plan.targetNames, p (f name) := by
  obtain ⟨hcompetences, hcollection⟩ := Plan.forall_targetNames.1 hp
  refine (Plan.forall_targetNames (p := fun name => p (f name))).2
    ⟨fun competence hmem => ?_, fun collection hsome => ?_⟩
  · have hrenamed := hcompetences _ (h.competences competence hmem)
    simpa only [Competence.rename, CompetenceElement.rename, ← List.map_flatten,
      List.forall_mem_map] using hrenamed
  · obtain ⟨given, hgiven, hgiven'⟩ := h.collection
    cases hgiven.symm.trans hsome
    have hrenamed := hcollection _ hgiven'
    simpa only [DriveCollection.rename, DriveElement.rename, ← List.map_flatten,
      List.forall_mem_map] using hrenamed

/-- If the plan that is folded into can be resolved, so can the one before: each of its names has
its image there, and names of capabilities stay. -/
theorem resolvable (h : plan.Folds registry f plan') (hplan : plan'.Resolvable registry) :
    plan.Resolvable registry := by
  refine ⟨h.distinct, h.free hplan.free, h.forall_conditionLists hplan.conditions, ?_, ?_, ?_, ?_⟩
  · intro pattern hpattern name value operator hstep
    refine hplan.checks _ (h.patterns pattern hpattern) name value operator ?_
    exact List.mem_map_of_mem (f := Step.rename f) hstep
  · intro name hname
    have htarget := h.forall_targetNames hplan.targets name hname
    rw [← NodeRef.rename, ← NodeRef.rename, ← h.defines, ← h.defines] at htarget
    exact htarget.imp_left (h.registered .action name)
  · intro pattern hpattern before name after hsteps
    have hsteps' : (pattern.rename f).steps =
        before.map (Step.rename f) ++ .named (f name) :: after.map (Step.rename f) := by
      simp [ActionPattern.rename, hsteps, Step.rename]
    -- The place of a step in its pattern is that of its image.
    rcases hplan.names _ (h.patterns pattern hpattern) _ _ _ hsteps' with hsense | haction | hlast
    · exact .inl (h.registered .sense name hsense)
    · exact .inr (.inl (h.registered .action name haction))
    · obtain ⟨hafter, hdefines⟩ := hlast
      rw [← NodeRef.rename, ← h.defines] at hdefines
      exact .inr (.inr ⟨by simpa using hafter, hdefines⟩)
  · obtain ⟨collection, hcollection, hcollection'⟩ := h.collection
    have hroot := hplan.root
    rw [hcollection'] at hroot
    rw [hcollection]
    exact hroot

end Folds

end SlipStack.Plan

/-! ## Mirror images under other names -/

namespace SlipStack.Engine

variable {registry : Registry} {f : String → String}

theorem NodeRef.name_rename (ref : NodeRef) : (ref.rename f).name = f ref.name := by
  cases ref <;> rfl

section Mirrors

variable {defines defines' : NodeRef → Bool}
  (hfixed : ∀ kind name, registry.Registered kind name → f name = name)
  (hdefines : ∀ ref, defines ref → defines' (ref.rename f))
include hfixed hdefines

/-- A target that mirrors a name mirrors, renamed, the new name: actions keep their names and
nodes get the new ones. -/
theorem Target.Mirrors.rename {name : String} {target : Target}
    (h : target.Mirrors registry defines name) :
    (target.rename f).Mirrors registry defines' (f name) := by
  cases h with
  | action hbinds =>
    rw [hfixed .action name hbinds.registered]
    exact .action hbinds
  | @node ref href =>
    rw [← NodeRef.name_rename (f := f)]
    exact .node (hdefines ref href)

theorem Step.Mirrors.rename {source : Plan.Step} {step : Step}
    (h : step.Mirrors registry defines source) :
    (step.rename f).Mirrors registry defines' (source.rename f) := by
  cases h with
  | check hbinds => exact .check hbinds
  | @sense name _ hbinds =>
    rw [Plan.Step.rename, hfixed .sense name hbinds.registered]
    exact .sense hbinds
  | @action name _ hbinds =>
    rw [Plan.Step.rename, hfixed .action name hbinds.registered]
    exact .action hbinds
  | @competence name hname => exact .competence (hdefines (.competence name) hname)

theorem Element.Mirrors.rename {source : Plan.CompetenceElement} {element : Element}
    (h : element.Mirrors registry defines source) :
    (element.rename f).Mirrors registry defines' (source.rename f) :=
  ⟨h.name, h.trigger, h.target.rename hfixed hdefines, h.maxRetries⟩

/-- A competence that mirrors one of the plan mirrors, renamed in all references, the renamed one.
-/
theorem Competence.Mirrors.rename {source : Plan.Competence} {competence : Competence}
    (h : competence.Mirrors registry defines source) :
    (competence.rename f).Mirrors registry defines' (source.rename f) := by
  refine ⟨congrArg f h.name, h.goal, ?_⟩
  simp only [Competence.rename, Plan.Competence.rename, List.forall₂_map_left_iff,
    List.forall₂_map_right_iff]
  exact h.levels.imp fun _ _ hlevel => hlevel.imp fun _ _ helement =>
    helement.rename hfixed hdefines

/-- A pattern that mirrors one of the plan mirrors, renamed in all references, the renamed one. -/
theorem Pattern.Mirrors.rename {source : Plan.ActionPattern} {pattern : Pattern}
    (h : pattern.Mirrors registry defines source) :
    (pattern.rename f).Mirrors registry defines' (source.rename f) := by
  refine ⟨congrArg f h.name, ?_⟩
  simp only [Pattern.rename, Plan.ActionPattern.rename, List.forall₂_map_left_iff,
    List.forall₂_map_right_iff]
  exact h.steps.imp fun _ _ hstep => hstep.rename hfixed hdefines

end Mirrors

/-- Renaming an unused drive element gives an unused one: its root is made from the library, which
has the same node under the new name. -/
theorem Drive.unused_rename {library library' : Library} (hlibrary : library.Renames f library')
    (drive : Drive) : (drive.rename f).unused library' = (drive.unused library).rename f := by
  simp only [unused, fresh, rename, Instances.map_set, Instances.map,
    freshTarget_rename hlibrary]

theorem Drive.Mirrors.rename {library library' : Library} (hlibrary : library.Renames f library')
    (hfixed : ∀ kind name, registry.Registered kind name → f name = name)
    (hdefines : ∀ ref, library.defines ref → library'.defines (ref.rename f))
    {source : Plan.DriveElement} {drive : Drive} (h : drive.Mirrors registry library source) :
    (drive.rename f).Mirrors registry library' (source.rename f) := by
  refine ⟨h.name, h.trigger, h.target.rename hfixed hdefines, h.interval, ?_⟩
  rw [unused_rename hlibrary, h.unused]

/-! ## The agents of both plans -/

section Folds

variable {plan plan' : Plan} {library library' : Library}
  (hfolds : plan.Folds registry f plan') (hdistinct : plan'.nodeNames.Nodup)
  (hapart : Apart registry library'.defines)
  (hmirrors : library.Mirrors registry library.defines plan)
  (hmirrors' : library'.Mirrors registry library'.defines plan')
include hfolds hmirrors hmirrors'

/-- The one library defines a node exactly if the other defines the node of the new name. -/
theorem Library.defines_rename (ref : NodeRef) :
    library.defines ref = library'.defines (ref.rename f) := by
  rw [hmirrors.defines_eq, hmirrors'.defines_eq, hfolds.defines]

include hdistinct hapart

/-- A competence found in the one library is found, renamed, under the new name in the other. -/
theorem Library.competence?_rename {name : String} {competence : Competence}
    (hfound : library.competence? name = some competence) :
    library'.competence? (f name) = some (competence.rename f) := by
  have hname : competence.name = name := by simpa using List.find?_some hfound
  have hnames : (library'.competences.map (·.name)).Nodup := by
    rw [map_eq_of_forall₂ (hmirrors'.competences.imp fun _ _ h => h.name)]
    exact (List.nodup_append.1 hdistinct).1
  -- The definition mirrors its source, whose image is a source of the other library.
  obtain ⟨source, hsource, hcompetence⟩ :=
    exists_of_mem_forall₂_right hmirrors.competences (List.mem_of_find?_eq_some hfound)
  obtain ⟨image, himage, hcompetence'⟩ :=
    exists_of_mem_forall₂ hmirrors'.competences (hfolds.competences source hsource)
  have hrenamed := hcompetence.rename hfolds.fixed fun ref href =>
    (Library.defines_rename hfolds hmirrors hmirrors' ref).symm.trans href
  obtain rfl := Competence.Mirrors.unique hapart hcompetence' hrenamed
  rw [← hname]
  exact find?_key_of_mem hnames himage

/-- A pattern found in the one library is found, renamed, under the new name in the other. -/
theorem Library.pattern?_rename {name : String} {pattern : Pattern}
    (hfound : library.pattern? name = some pattern) :
    library'.pattern? (f name) = some (pattern.rename f) := by
  have hname : pattern.name = name := by simpa using List.find?_some hfound
  have hnames : (library'.patterns.map (·.name)).Nodup := by
    rw [map_eq_of_forall₂ (hmirrors'.patterns.imp fun _ _ h => h.name)]
    exact (List.nodup_append.1 hdistinct).2.1
  obtain ⟨source, hsource, hpattern⟩ :=
    exists_of_mem_forall₂_right hmirrors.patterns (List.mem_of_find?_eq_some hfound)
  obtain ⟨image, himage, hpattern'⟩ :=
    exists_of_mem_forall₂ hmirrors'.patterns (hfolds.patterns source hsource)
  have hrenamed := hpattern.rename hfolds.fixed fun ref href =>
    (Library.defines_rename hfolds hmirrors hmirrors' ref).symm.trans href
  obtain rfl := Pattern.Mirrors.unique hapart hpattern' hrenamed
  rw [← hname]
  exact find?_key_of_mem hnames himage

/-- The libraries of both plans make the same nodes, once names are replaced. -/
theorem Library.renames_of_folds : library.Renames f library' := by
  intro ref
  have hdefines := Library.defines_rename hfolds hmirrors hmirrors' ref
  cases ref with
  | competence name =>
    rw [NodeRef.rename, Library.fresh, Library.fresh]
    cases hfound : library.competence? name with
    | some competence =>
      rw [Library.competence?_rename hfolds hdistinct hapart hmirrors hmirrors' hfound]
      exact competence.fresh_rename
    | none =>
      have hnone : library'.competence? (f name) = none := by
        simpa [NodeRef.rename, Library.defines, hfound] using hdefines
      rw [hnone]
      rfl
  | pattern name =>
    rw [NodeRef.rename, Library.fresh, Library.fresh]
    cases hfound : library.pattern? name with
    | some pattern =>
      rw [Library.pattern?_rename hfolds hdistinct hapart hmirrors hmirrors' hfound]
      exact pattern.fresh_rename
    | none =>
      have hnone : library'.pattern? (f name) = none := by
        simpa [NodeRef.rename, Library.defines, hfound] using hdefines
      rw [hnone]
      rfl

end Folds

/-- The agent of a plan is that of the plan it folds into, under other names. -/
theorem Agent.Mirrors.renames {plan plan' : Plan} {agent agent' : Agent}
    (hfolds : plan.Folds registry f plan') (hplan : plan'.Resolvable registry)
    (h : agent.Mirrors registry plan) (h' : agent'.Mirrors registry plan') :
    agent.Renames f agent' := by
  have hapart : Apart registry agent'.library.defines := by
    rw [h'.library.defines_eq]
    exact apart_of_names hplan.distinct hplan.free
  have hlibrary : agent.library.Renames f agent'.library :=
    Library.renames_of_folds hfolds hplan.distinct hapart h.library h'.library
  have hdefines := Library.defines_rename hfolds h.library h'.library
  obtain ⟨given, hgiven, hgiven'⟩ := hfolds.collection
  obtain ⟨collection, hcollection, -, htag, hgoal, hlevels⟩ := h.root
  obtain ⟨collection', hcollection', -, htag', hgoal', hlevels'⟩ := h'.root
  obtain rfl : given = collection := by simpa [Plan.collection?, hgiven] using hcollection
  obtain rfl : given.rename f = collection' := by
    simpa [Plan.collection?, hgiven'] using hcollection'
  have hdiscipline : agent'.discipline = agent.discipline :=
    Option.some.inj (htag'.symm.trans htag)
  refine ⟨hlibrary, Trigger.Mirrors.unique hgoal' hgoal, ?_, ?_⟩
  · rw [h'.clock, h.clock, hdiscipline]
  · -- The renamed drive elements mirror the same source as those of the other agent, and what
    -- mirrors a source is unique.
    have hrenamed : List.Forall₂ (List.Forall₂ (Drive.Mirrors registry agent'.library))
        (given.rename f).levels (agent.levels.map fun level => level.map (Drive.rename f)) := by
      simp only [Plan.DriveCollection.rename, List.forall₂_map_left_iff,
        List.forall₂_map_right_iff]
      exact hlevels.imp fun _ _ hlevel => hlevel.imp fun _ _ hdrive =>
        hdrive.rename hlibrary hfolds.fixed fun ref href => (hdefines ref).symm.trans href
    exact (Drive.Mirrors.unique hapart).forall₂.forall₂ hlevels' hrenamed

/-- A plan that folds into one that can be built can be built, into an agent that does the
same. -/
theorem exists_build_of_folds (hreached : registry.Reached) {plan plan' : Plan} {built' : Agent}
    (hfolds : plan.Folds registry f plan') (hbuild : plan'.build registry = .ok built') :
    ∃ built, plan.build registry = .ok built ∧ built.Renames f built' := by
  obtain ⟨hplan, hmirrors'⟩ := (build_eq_ok hreached).1 hbuild
  have hresolvable := hfolds.resolvable hplan
  obtain ⟨built, hbuilt⟩ := ((builds_iff_resolvable hreached).2 hresolvable)
  have hmirrors := ((build_eq_ok hreached).1 hbuilt).2
  exact ⟨built, hbuilt, hmirrors.renames hfolds hplan hmirrors'⟩

end SlipStack.Engine
