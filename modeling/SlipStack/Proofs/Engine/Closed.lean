import SlipStack.Proofs.Engine.Mirror

/-!
# References that are defined

In a built agent every competence and action pattern that an element, a step or a drive
element names is defined by the library (`Library.Closed`, `Agent.Closed`). Building resolves
each name against the plan, and the library has the definitions of the plan under the same
names (`Scope.library_defines`).
-/

namespace SlipStack.Engine

/-- There is a definition for everything that the library refers to, and a pattern refers to a
competence in its last step only. -/
structure Library.Closed (library : Library) : Prop where
  elements : ∀ competence ∈ library.competences, ∀ element ∈ competence.levels.flatten,
    ∀ ref, element.target = .node ref → library.defines ref
  steps : ∀ pattern ∈ library.patterns, ∀ name, .competence name ∈ pattern.steps →
    library.defines (.competence name)
  last : library.CompetencesLast

theorem Library.defines_competence {library : Library} {name : String} :
    library.defines (.competence name) ↔ name ∈ library.competences.map (·.name) := by
  simp [defines, competence?, List.isSome_find?]

theorem Library.defines_pattern {library : Library} {name : String} :
    library.defines (.pattern name) ↔ name ∈ library.patterns.map (·.name) := by
  simp [defines, pattern?, List.isSome_find?]

/-! ## What names are resolved to -/

namespace Scope

variable {scope : Scope} {library : Library}

/-- A name is resolved to a node only if the plan defines that node. -/
theorem defines_of_target {name : String} {ref : NodeRef}
    (h : scope.target name = .ok (.node ref)) : scope.plan.defines ref := by
  rw [Scope.target] at h
  split at h
  · obtain ⟨capability, _, h⟩ := map_eq_ok.1 h
    cases h
  · split at h
    · rename_i hdefines
      cases h
      exact hdefines
    · split at h
      · rename_i hdefines
        cases h
        exact hdefines
      · cases h

/-- The node that an element of a built competence leads to is defined in the plan. -/
theorem defines_of_element {source : Plan.CompetenceElement} {element : Element}
    (h : scope.element source = .ok element) :
    ∀ ref, element.target = .node ref → scope.plan.defines ref := by
  obtain ⟨trigger, _, h⟩ := bind_eq_ok.1 h
  obtain ⟨target, htarget, h⟩ := bind_eq_ok.1 h
  cases h
  rintro ref rfl
  exact defines_of_target htarget

/-- The node that a built drive element leads to is defined in the plan. -/
theorem defines_of_drive {source : Plan.DriveElement} {drive : Drive}
    (h : scope.drive library source = .ok drive) :
    ∀ ref, drive.target = .node ref → scope.plan.defines ref := by
  obtain ⟨trigger, _, h⟩ := bind_eq_ok.1 h
  obtain ⟨target, htarget, h⟩ := bind_eq_ok.1 h
  cases h
  rintro ref rfl
  exact defines_of_target htarget

theorem defines_of_namedStep {pattern name next : String} {last : Bool}
    (h : scope.namedStep pattern name last = .ok (.competence next)) :
    scope.plan.defines (.competence next) := by
  rw [namedStep] at h
  split at h
  · cases h
  · split at h
    · obtain ⟨capability, _, h⟩ := map_eq_ok.1 h
      cases h
    · split at h
      · rename_i hdefines
        split at h <;> cases h
        exact hdefines
      · split at h <;> cases h

/-- The competence at the end of a built pattern is defined in the plan. -/
theorem defines_of_steps {pattern : String} {source : List Plan.Step} {steps : List Step}
    (h : scope.steps pattern source = .ok steps) {next : String}
    (hmem : .competence next ∈ steps) : scope.plan.defines (.competence next) := by
  -- Only a named step can give a competence, so a step with a check is passed over.
  induction source generalizing steps with
  | nil =>
    cases h
    cases hmem
  | cons step rest ih =>
    cases step with
    | sense name value operator =>
      rw [Scope.steps] at h
      obtain ⟨first, hfirst, h⟩ := bind_eq_ok.1 h
      obtain ⟨others, hothers, h⟩ := bind_eq_ok.1 h
      obtain ⟨sense, _, rfl⟩ := map_eq_ok.1 hfirst
      cases h
      exact ih hothers (by simpa using hmem)
    | named name =>
      rw [Scope.steps] at h
      obtain ⟨first, hfirst, h⟩ := bind_eq_ok.1 h
      obtain ⟨others, hothers, h⟩ := bind_eq_ok.1 h
      cases h
      rcases List.mem_cons.1 hmem with rfl | hmem
      · exact defines_of_namedStep hfirst
      · exact ih hothers hmem

/-! ## The library -/

theorem competence_name {source : Plan.Competence} {goal : Trigger} {competence : Competence}
    (h : scope.competence source goal = .ok competence) : competence.name = source.name := by
  obtain ⟨levels, _, h⟩ := bind_eq_ok.1 h
  cases h
  rfl

theorem pattern_name {source : Plan.ActionPattern} {pattern : Pattern}
    (h : scope.pattern source = .ok pattern) : pattern.name = source.name := by
  obtain ⟨steps, _, h⟩ := bind_eq_ok.1 h
  cases h
  rfl

/-- A library has the definitions of its plan in their order, under the same names. -/
theorem library_names (h : scope.library = .ok library) :
    library.competences.map (·.name) = scope.plan.competences.map (·.name) ∧
      library.patterns.map (·.name) = scope.plan.patterns.map (·.name) := by
  rw [Scope.library] at h
  obtain ⟨goals, hgoals, h⟩ := bind_eq_ok.1 h
  obtain ⟨competences, hcompetences, h⟩ := bind_eq_ok.1 h
  obtain ⟨patterns, hpatterns, h⟩ := bind_eq_ok.1 h
  cases h
  have hlength : scope.plan.competences.length ≤ goals.length :=
    Nat.le_of_eq (length_eq_of_mapM hgoals).symm
  refine ⟨?_, map_eq_of_mapM (fun _ _ => pattern_name) hpatterns⟩
  calc
    competences.map (·.name) = (scope.plan.competences.zip goals).map (·.1.name) :=
      map_eq_of_mapM (fun _ _ => competence_name) hcompetences
    _ = ((scope.plan.competences.zip goals).map Prod.fst).map (·.name) := List.map_map.symm
    _ = scope.plan.competences.map (·.name) := by rw [List.map_fst_zip hlength]

/-- The library has the nodes of the plan and no others: building keeps their names and loses
none. -/
theorem library_defines (h : scope.library = .ok library) :
    library.defines = scope.plan.defines := by
  obtain ⟨hcompetence, hpattern⟩ := library_names h
  funext ref
  cases ref with
  | competence name =>
    rw [Bool.eq_iff_iff, Library.defines_competence, Plan.defines_competence, hcompetence]
  | pattern name =>
    rw [Bool.eq_iff_iff, Library.defines_pattern, Plan.defines_pattern, hpattern]

/-- In a built library all references lead to nodes of the library, since building resolves each
of them in the plan. -/
theorem library_closed (h : scope.library = .ok library) : library.Closed := by
  have hlast := library_competencesLast h
  have hdefines := library_defines h
  rw [Scope.library] at h
  obtain ⟨goals, _, h⟩ := bind_eq_ok.1 h
  obtain ⟨competences, hcompetences, h⟩ := bind_eq_ok.1 h
  obtain ⟨patterns, hpatterns, h⟩ := bind_eq_ok.1 h
  cases h
  refine ⟨?_, ?_, hlast⟩
  · rw [hdefines]
    refine forall_of_mapM (fun source competence hcompetence => ?_) hcompetences
    obtain ⟨levels, hlevels, hcompetence⟩ := bind_eq_ok.1 hcompetence
    cases hcompetence
    have hlevel : ∀ level ∈ levels, ∀ element ∈ level, ∀ ref, element.target = .node ref →
        scope.plan.defines ref :=
      forall_of_mapM (fun _ _ => forall_of_mapM fun _ _ => defines_of_element) hlevels
    simpa [List.mem_flatten] using fun element level hmem => hlevel level hmem element
  · rw [hdefines]
    refine forall_of_mapM (fun source pattern hpattern => ?_) hpatterns
    obtain ⟨steps, hsteps, hpattern⟩ := bind_eq_ok.1 hpattern
    cases hpattern
    exact fun name => defines_of_steps hsteps

end Scope

/-! ## The agent -/

/-- The library defines everything that it and the drive elements refer to. -/
structure Agent.Closed (agent : Agent) : Prop where
  library : agent.library.Closed
  targets : ∀ level ∈ agent.levels, ∀ drive ∈ level,
    ∀ ref, drive.target = .node ref → agent.library.defines ref

namespace Scope

variable {scope : Scope} {library : Library} {agent : Agent}

/-- An agent built from a drive collection refers to nodes of its library only. -/
theorem collection_closed (hclosed : library.Closed)
    (hdefines : library.defines = scope.plan.defines) {source : Plan.DriveCollection}
    (h : scope.collection library source = .ok agent) : agent.Closed := by
  rw [collection] at h
  split at h
  · obtain ⟨discipline, _, h⟩ := bind_eq_ok.1 h
    obtain ⟨goal, _, h⟩ := bind_eq_ok.1 h
    obtain ⟨levels, hlevels, h⟩ := bind_eq_ok.1 h
    cases h
    refine ⟨hclosed, ?_⟩
    rw [hdefines]
    exact forall_of_mapM (fun _ _ => forall_of_mapM fun _ _ => defines_of_drive) hlevels
  · obtain ⟨discipline, hdiscipline, _⟩ := bind_eq_ok.1 h
    cases hdiscipline

/-- An agent built from a plan without a drive collection refers to nodes of its library only; its
root is one of the nodes. -/
theorem implicitCollection_closed (hclosed : library.Closed)
    (hdefines : library.defines = scope.plan.defines)
    (h : scope.implicitCollection library = .ok agent) : agent.Closed := by
  rw [implicitCollection] at h
  split at h
  · obtain ⟨root, _, h⟩ := bind_eq_ok.1 h
    obtain ⟨target, htarget, h⟩ := bind_eq_ok.1 h
    cases h
    refine ⟨hclosed, fun level hlevel drive hdrive => ?_⟩
    obtain rfl := List.mem_singleton.1 hlevel
    obtain rfl := List.mem_singleton.1 hdrive
    rw [hdefines]
    rintro ref rfl
    exact defines_of_target htarget
  · obtain ⟨root, hroot, _⟩ := bind_eq_ok.1 h
    cases hroot

end Scope

/-- No reference in a built agent leads nowhere, so no node that is entered later can be missing.
-/
theorem build_closed {registry : Registry} {plan : Plan} {built : Agent}
    (h : plan.build registry = .ok built) : built.Closed := by
  rw [Plan.build] at h
  split at h
  · cases h
  · obtain ⟨library, hlibrary, h⟩ := bind_eq_ok.1 h
    have hclosed := Scope.library_closed hlibrary
    have hdefines := Scope.library_defines hlibrary
    split at h
    · exact Scope.collection_closed hclosed hdefines h
    · exact Scope.implicitCollection_closed hclosed hdefines h

end SlipStack.Engine
