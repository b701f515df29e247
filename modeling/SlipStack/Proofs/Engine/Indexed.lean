import Mathlib.Data.List.Nodup
import SlipStack.Engine.Machine
import SlipStack.Proofs.Data.NameMap
import SlipStack.Proofs.Engine.Closed
import SlipStack.Proofs.Engine.Resolution

/-!
# Indices agree with names

A number in a library stands for the definition in that place, which has a name
(`NodeRef.named`). Where a plan was built, every name that its library refers to has a number,
and to replace the numbers by the names that they stand for gives the library back
(`Index.library_named`). No number is out of range (`Library.Linked`).
-/

namespace SlipStack.Engine

/-! ## What numbers stand for -/

/-- The library has a definition of the index. -/
def Library.Has (library : Library Nat) : NodeRef Nat → Prop
  | .competence index => index < library.competences.length
  | .pattern index => index < library.patterns.length

section Named

variable (library : Library Nat)

/-- The reference by the name of what it refers to. -/
def NodeRef.named : NodeRef Nat → NodeRef
  | .competence index => .competence ((library.competences[index]?.map (·.name)).getD "")
  | .pattern index => .pattern ((library.patterns[index]?.map (·.name)).getD "")

def Target.named : Target Nat → Target
  | .action capability => .action capability
  | .node ref => .node (ref.named library)

def Element.named (element : Element Nat) : Element :=
  ⟨element.name, element.trigger, element.target.named library, element.maxRetries⟩

def Competence.named (competence : Competence Nat) : Competence :=
  ⟨competence.name, competence.goal,
    competence.levels.map fun level => level.map (Element.named library)⟩

def Step.named : Step Nat → Step
  | .action capability => .action capability
  | .sense check => .sense check
  | .competence index => .competence ((library.competences[index]?.map (·.name)).getD "")

def Pattern.named (pattern : Pattern Nat) : Pattern :=
  ⟨pattern.name, pattern.steps.map (Step.named library)⟩

/-- The library in which every reference is by name. -/
def Library.named : Library :=
  ⟨library.competences.map (Competence.named library),
    library.patterns.map (Pattern.named library)⟩

end Named

/-- No two definitions of the library have one name, every reference in it is to a definition,
and competences are referred to in the last steps of patterns only. -/
structure Library.Linked (library : Library Nat) : Prop where
  competenceNames : (library.competences.map (·.name)).Nodup
  patternNames : (library.patterns.map (·.name)).Nodup
  elements : ∀ competence ∈ library.competences, ∀ element ∈ competence.levels.flatten,
    ∀ ref, element.target = .node ref → library.Has ref
  steps : ∀ pattern ∈ library.patterns, ∀ index, .competence index ∈ pattern.steps →
    library.Has (.competence index)
  last : ∀ pattern ∈ library.patterns, ∀ position index,
    pattern.steps[position]? = some (.competence index) → position + 1 = pattern.steps.length

/-! ## The numbers of names -/

namespace Index

/-- In a list of distinct names, the number given to a name is the place at which the name stands.
-/
theorem get?_number {names : List String} (hnodup : names.Nodup) {name : String} {i : Nat} :
    (number names).get? name = some i ↔ names[i]? = some name := by
  rw [number, NameMap.get?_ofEntries (by simpa using hnodup), List.mem_zipIdx_iff_getElem?]

theorem find_eq_ok {numbers : NameMap Nat} {name : String} {i : Nat} :
    find numbers name = .ok i ↔ numbers.get? name = some i := by
  rw [find]
  cases numbers.get? name <;> simp

/-- The numbers are those of the definitions of the library, by their names. -/
structure Numbers (index : Index) (library : Library Nat) : Prop where
  competences : ∀ name i, index.competences.get? name = some i ↔
    (library.competences.map (·.name))[i]? = some name
  patterns : ∀ name i, index.patterns.get? name = some i ↔
    (library.patterns.map (·.name))[i]? = some name

section Link

variable {index : Index} {library : Library Nat}

theorem named_of_getElem? {names : List String} {i : Nat} {name : String}
    (h : names[i]? = some name) : i < names.length ∧ names[i]?.getD "" = name := by
  refine ⟨(List.getElem?_eq_some_iff.1 h).1, ?_⟩
  rw [h, Option.getD_some]

/-- A number found for the name of a competence lies within the library, and the competence of
that number has that name. -/
theorem Numbers.competence (h : index.Numbers library) {name : String} {i : Nat}
    (hfind : find index.competences name = .ok i) :
    library.Has (.competence i) ∧ (library.competences[i]?.map (·.name)).getD "" = name := by
  have hname := (h.competences name i).1 (find_eq_ok.1 hfind)
  simpa [Library.Has] using named_of_getElem? hname

/-- A number found for the name of a pattern lies within the library, and the pattern of that
number has that name. -/
theorem Numbers.pattern (h : index.Numbers library) {name : String} {i : Nat}
    (hfind : find index.patterns name = .ok i) :
    library.Has (.pattern i) ∧ (library.patterns[i]?.map (·.name)).getD "" = name := by
  have hname := (h.patterns name i).1 (find_eq_ok.1 hfind)
  simpa [Library.Has] using named_of_getElem? hname

variable (h : index.Numbers library)
include h

/-- An index stands for the name that it was found by, and is in range. -/
theorem ref_named {ref : NodeRef} {ref' : NodeRef Nat} (href : index.ref ref = .ok ref') :
    library.Has ref' ∧ ref'.named library = ref := by
  cases ref with
  | competence name =>
    obtain ⟨i, hfind, rfl⟩ := map_eq_ok.1 href
    obtain ⟨hhas, hname⟩ := h.competence hfind
    exact ⟨hhas, congrArg NodeRef.competence hname⟩
  | pattern name =>
    obtain ⟨i, hfind, rfl⟩ := map_eq_ok.1 href
    obtain ⟨hhas, hname⟩ := h.pattern hfind
    exact ⟨hhas, congrArg NodeRef.pattern hname⟩

/-- A target by number has its node in the library, and read back as a name it is the target it
was made from. -/
theorem target_named {target : Target} {target' : Target Nat}
    (htarget : index.target target = .ok target') :
    (∀ ref, target' = .node ref → library.Has ref) ∧ target'.named library = target := by
  cases target with
  | action capability =>
    cases htarget
    exact ⟨fun ref href => (nomatch href), rfl⟩
  | node ref =>
    obtain ⟨ref', href, rfl⟩ := map_eq_ok.1 htarget
    obtain ⟨hhas, hname⟩ := ref_named h href
    refine ⟨fun other hother => ?_, congrArg Target.node hname⟩
    cases hother
    exact hhas

theorem element_named {element : Element} {element' : Element Nat}
    (helement : index.element element = .ok element') :
    (∀ ref, element'.target = .node ref → library.Has ref) ∧
      element'.named library = element := by
  obtain ⟨target, htarget, helement⟩ := bind_eq_ok.1 helement
  cases helement
  obtain ⟨hhas, hname⟩ := target_named h htarget
  refine ⟨hhas, ?_⟩
  simp only [Element.named, hname]

/-- A competence by numbers refers into the library only, and read back in names it is the
competence it was made from. -/
theorem competence_named {competence : Competence} {competence' : Competence Nat}
    (hcompetence : index.competence competence = .ok competence') :
    (∀ element ∈ competence'.levels.flatten, ∀ ref, element.target = .node ref →
        library.Has ref) ∧
      competence'.named library = competence := by
  obtain ⟨levels, hlevels, hcompetence⟩ := bind_eq_ok.1 hcompetence
  cases hcompetence
  constructor
  · have hhas : ∀ level ∈ levels, ∀ element ∈ level, ∀ ref, element.target = .node ref →
        library.Has ref :=
      forall_of_mapM (fun _ _ => forall_of_mapM fun _ _ helement => (element_named h helement).1)
        hlevels
    exact List.forall_mem_flatten.2 hhas
  · have hnamed : levels.map (fun level => level.map (Element.named library)) =
        competence.levels.map id :=
      map_eq_of_mapM (fun level level' hlevel =>
        (map_eq_of_mapM (fun _ _ helement => (element_named h helement).2) hlevel).trans
          (List.map_id level)) hlevels
    rw [Competence.named, hnamed, List.map_id]

theorem step_named {step : Step} {step' : Step Nat} (hstep : index.step step = .ok step') :
    (∀ i, step' = .competence i → library.Has (.competence i)) ∧
      step'.named library = step := by
  cases step with
  | action | sense =>
    cases hstep
    exact ⟨fun i hi => (nomatch hi), rfl⟩
  | competence name =>
    obtain ⟨i, hfind, rfl⟩ := map_eq_ok.1 hstep
    obtain ⟨hhas, hname⟩ := h.competence hfind
    refine ⟨fun j hj => ?_, congrArg Step.competence hname⟩
    cases hj
    exact hhas

/-- A pattern by numbers refers into the library only, and read back in names it is the pattern it
was made from. -/
theorem pattern_named {pattern : Pattern} {pattern' : Pattern Nat}
    (hpattern : index.pattern pattern = .ok pattern') :
    (∀ i, .competence i ∈ pattern'.steps → library.Has (.competence i)) ∧
      pattern'.named library = pattern := by
  obtain ⟨steps, hsteps, hpattern⟩ := bind_eq_ok.1 hpattern
  cases hpattern
  constructor
  · have hhas : ∀ step ∈ steps, ∀ i, step = .competence i → library.Has (.competence i) :=
      forall_of_mapM (fun _ _ hstep => (step_named h hstep).1) hsteps
    exact fun i hmem => hhas _ hmem i rfl
  · have hnamed : steps.map (Step.named library) = pattern.steps.map id :=
      map_eq_of_mapM (fun _ _ hstep => (step_named h hstep).2) hsteps
    rw [Pattern.named, hnamed, List.map_id]

end Link

/-! ## Names that have numbers -/

section Exists

variable {index : Index} {library : Library}

theorem exists_mapM {ε α β : Type} {f : α → Except ε β} {as : List α} :
    (∃ bs, as.mapM f = .ok bs) ↔ ∀ a ∈ as, ∃ b, f a = .ok b := by
  simp only [mapM_eq_ok, exists_forall₂]

variable (h : ∀ ref, library.defines ref → ∃ ref', index.ref ref = .ok ref')
include h

/-- A target whose node the library defines can be given by number. -/
theorem exists_target {target : Target}
    (htarget : ∀ ref, target = .node ref → library.defines ref) :
    ∃ target', index.target target = .ok target' := by
  cases target with
  | action capability => exact ⟨_, rfl⟩
  | node ref =>
    obtain ⟨ref', href⟩ := h ref (htarget ref rfl)
    exact ⟨.node ref', map_eq_ok.2 ⟨ref', href, rfl⟩⟩

/-- A competence whose elements lead to nodes of the library only can be given by numbers. -/
theorem exists_competence {competence : Competence}
    (helements : ∀ element ∈ competence.levels.flatten, ∀ ref, element.target = .node ref →
      library.defines ref) : ∃ competence', index.competence competence = .ok competence' := by
  have hlevels : ∃ levels,
      competence.levels.mapM (fun level => level.mapM index.element) = .ok levels := by
    refine exists_mapM.2 fun level hlevel => exists_mapM.2 fun element helement => ?_
    have hmem := List.mem_flatten.2 ⟨level, hlevel, helement⟩
    obtain ⟨target, htarget⟩ := exists_target h (helements element hmem)
    exact ⟨_, bind_eq_ok.2 ⟨target, htarget, rfl⟩⟩
  obtain ⟨levels, hlevels⟩ := hlevels
  exact ⟨_, bind_eq_ok.2 ⟨levels, hlevels, rfl⟩⟩

/-- A pattern whose last competence the library defines can be given by numbers. -/
theorem exists_pattern {pattern : Pattern}
    (hsteps : ∀ name, .competence name ∈ pattern.steps → library.defines (.competence name)) :
    ∃ pattern', index.pattern pattern = .ok pattern' := by
  have hall : ∃ steps, pattern.steps.mapM index.step = .ok steps := by
    refine exists_mapM.2 fun step hstep => ?_
    cases step with
    | action | sense => exact ⟨_, rfl⟩
    | competence name =>
      obtain ⟨ref, href⟩ := h _ (hsteps name hstep)
      obtain ⟨i, hfind, -⟩ := map_eq_ok.1 href
      exact ⟨.competence i, map_eq_ok.2 ⟨i, hfind, rfl⟩⟩
  obtain ⟨steps, hsteps⟩ := hall
  exact ⟨_, bind_eq_ok.2 ⟨steps, hsteps, rfl⟩⟩

end Exists

theorem exists_find {names : List String} (hnodup : names.Nodup) {name : String}
    (hmem : name ∈ names) : ∃ i, find (number names) name = .ok i := by
  obtain ⟨i, hi⟩ := List.getElem?_of_mem hmem
  exact ⟨i, find_eq_ok.2 ((get?_number hnodup).2 hi)⟩

/-! ## Libraries -/

section Library

variable {index : Index} {library : Library} {indexed : Library Nat}

theorem library_eq_ok : index.library library = .ok indexed ↔
    library.competences.mapM index.competence = .ok indexed.competences ∧
      library.patterns.mapM index.pattern = .ok indexed.patterns := by
  rw [Index.library]
  simp only [bind_eq_ok]
  constructor
  · intro h
    obtain ⟨competences, hcompetences, patterns, hpatterns, hindexed⟩ := h
    cases hindexed
    exact ⟨hcompetences, hpatterns⟩
  · intro h
    exact ⟨_, h.1, _, h.2, rfl⟩

variable (h : index.library library = .ok indexed)
include h

/-- Numbers for references leave the names of definitions as they are. -/
theorem names_eq :
    indexed.competences.map (·.name) = library.competences.map (·.name) ∧
      indexed.patterns.map (·.name) = library.patterns.map (·.name) := by
  obtain ⟨hcompetences, hpatterns⟩ := library_eq_ok.1 h
  constructor
  · refine map_eq_of_mapM (fun competence competence' hcompetence => ?_) hcompetences
    obtain ⟨levels, _, hcompetence⟩ := bind_eq_ok.1 hcompetence
    cases hcompetence
    rfl
  · refine map_eq_of_mapM (fun pattern pattern' hpattern => ?_) hpatterns
    obtain ⟨steps, _, hpattern⟩ := bind_eq_ok.1 hpattern
    cases hpattern
    rfl

variable (hnumbers : index.Numbers indexed)
include hnumbers

/-- To replace the numbers by the names that they stand for gives the library back. -/
theorem library_named : indexed.named = library := by
  obtain ⟨hcompetences, hpatterns⟩ := library_eq_ok.1 h
  have hcompetencesNamed := map_eq_of_mapM (k := id)
    (fun _ _ hcompetence => (competence_named hnumbers hcompetence).2) hcompetences
  have hpatternsNamed := map_eq_of_mapM (k := id)
    (fun _ _ hpattern => (pattern_named hnumbers hpattern).2) hpatterns
  rw [Library.named, hcompetencesNamed, hpatternsNamed, List.map_id, List.map_id]

/-- The library by numbers of a closed library is linked: every number in it is that of one of its
nodes. -/
theorem library_linked (hclosed : library.Closed)
    (hcompetenceNames : (library.competences.map (·.name)).Nodup)
    (hpatternNames : (library.patterns.map (·.name)).Nodup) : indexed.Linked := by
  obtain ⟨hcompetences, hpatterns⟩ := library_eq_ok.1 h
  obtain ⟨hcompetencesKept, hpatternsKept⟩ := names_eq h
  refine ⟨?_, ?_, ?_, ?_, ?_⟩
  · rw [hcompetencesKept]
    exact hcompetenceNames
  · rw [hpatternsKept]
    exact hpatternNames
  · exact forall_of_mapM (fun _ _ hcompetence => (competence_named hnumbers hcompetence).1)
      hcompetences
  · exact forall_of_mapM (fun _ _ hpattern => (pattern_named hnumbers hpattern).1) hpatterns
  · -- A step is a competence in both libraries or in none.
    intro pattern hmem position number hstep
    have hmem' : pattern.named indexed ∈ library.patterns := by
      rw [← library_named h hnumbers]
      exact List.mem_map_of_mem hmem
    have hstep' : (pattern.steps.map (Step.named indexed))[position]? =
        some (.competence ((indexed.competences[number]?.map (·.name)).getD "")) := by
      rw [List.getElem?_map, hstep]
      rfl
    have hlast := hclosed.last _ hmem' position _ hstep'
    rwa [Pattern.named, List.length_map] at hlast

end Library

end Index

/-! ## The library of a plan -/

namespace Scope

variable {scope : Scope} {library : Library} {agent : Agent}

theorem collection_library {source : Plan.DriveCollection}
    (h : scope.collection library source = .ok agent) : agent.library = library := by
  rw [collection] at h
  split at h
  · obtain ⟨discipline, _, h⟩ := bind_eq_ok.1 h
    obtain ⟨goal, _, h⟩ := bind_eq_ok.1 h
    obtain ⟨levels, _, h⟩ := bind_eq_ok.1 h
    cases h
    rfl
  · obtain ⟨discipline, hdiscipline, _⟩ := bind_eq_ok.1 h
    cases hdiscipline

theorem implicitCollection_library (h : scope.implicitCollection library = .ok agent) :
    agent.library = library := by
  rw [implicitCollection] at h
  split at h
  · obtain ⟨root, _, h⟩ := bind_eq_ok.1 h
    obtain ⟨target, _, h⟩ := bind_eq_ok.1 h
    cases h
    rfl
  · obtain ⟨root, hroot, _⟩ := bind_eq_ok.1 h
    cases hroot

end Scope

variable {registry : Registry} {plan : Plan} {built : Agent}

/-- The library of a built agent is what the first part of the building gives for the plan. -/
theorem library_of_build (h : plan.build registry = .ok built) :
    Scope.library ⟨registry, plan⟩ = .ok built.library := by
  rw [Plan.build] at h
  split at h
  · cases h
  · obtain ⟨library, hlibrary, h⟩ := bind_eq_ok.1 h
    have hsame : built.library = library := by
      split at h
      · exact Scope.collection_library h
      · exact Scope.implicitCollection_library h
    rw [hsame]
    exact hlibrary

/-- The names of what a built plan defines differ. -/
theorem nodup_of_build (h : plan.build registry = .ok built) :
    (plan.competences.map (·.name)).Nodup ∧ (plan.patterns.map (·.name)).Nodup := by
  rw [Plan.build] at h
  split at h
  · cases h
  · rename_i hclash
    have hnodup := (nameClash?_definedNodes.1 hclash).1
    exact ⟨hnodup.of_append_left, hnodup.of_append_right⟩

/-- What a built plan defines has a number. -/
theorem exists_ref_of_build (h : plan.build registry = .ok built) {ref : NodeRef}
    (hdefines : built.library.defines ref) : ∃ ref', (Index.ofPlan plan).ref ref = .ok ref' := by
  obtain ⟨hcompetenceNames, hpatternNames⟩ := Scope.library_names (library_of_build h)
  obtain ⟨hnodupCompetences, hnodupPatterns⟩ := nodup_of_build h
  cases ref with
  | competence name =>
    rw [Library.defines_competence, hcompetenceNames] at hdefines
    obtain ⟨i, hi⟩ := Index.exists_find hnodupCompetences hdefines
    exact ⟨_, map_eq_ok.2 ⟨i, hi, rfl⟩⟩
  | pattern name =>
    rw [Library.defines_pattern, hpatternNames] at hdefines
    obtain ⟨i, hi⟩ := Index.exists_find hnodupPatterns hdefines
    exact ⟨_, map_eq_ok.2 ⟨i, hi, rfl⟩⟩

/-- The numbers of a built plan are those of its library. -/
theorem numbers_of_build (h : plan.build registry = .ok built) {library : Library Nat}
    (hlibrary : (Index.ofPlan plan).library built.library = .ok library) :
    (Index.ofPlan plan).Numbers library := by
  obtain ⟨hcompetenceNames, hpatternNames⟩ := Scope.library_names (library_of_build h)
  obtain ⟨hnodupCompetences, hnodupPatterns⟩ := nodup_of_build h
  obtain ⟨hcompetencesKept, hpatternsKept⟩ := Index.names_eq hlibrary
  refine ⟨fun name i => ?_, fun name i => ?_⟩
  · rw [hcompetencesKept, hcompetenceNames]
    exact Index.get?_number hnodupCompetences
  · rw [hpatternsKept, hpatternNames]
    exact Index.get?_number hnodupPatterns

/-- In a built plan every name that is referred to has a number, and the numbers stand for the
names that they replace. -/
theorem exists_library_of_build (h : plan.build registry = .ok built) :
    ∃ library, (Index.ofPlan plan).library built.library = .ok library ∧
      library.named = built.library ∧ library.Linked := by
  have hclosed := (build_closed h).library
  have href : ∀ ref, built.library.defines ref → ∃ ref', (Index.ofPlan plan).ref ref = .ok ref' :=
    fun ref => exists_ref_of_build h
  obtain ⟨competences, hcompetences⟩ := Index.exists_mapM.2 fun competence hmem =>
    Index.exists_competence href (hclosed.elements competence hmem)
  obtain ⟨patterns, hpatterns⟩ := Index.exists_mapM.2 fun pattern hmem =>
    Index.exists_pattern href (hclosed.steps pattern hmem)
  have hlibrary : (Index.ofPlan plan).library built.library = .ok ⟨competences, patterns⟩ :=
    Index.library_eq_ok.2 ⟨hcompetences, hpatterns⟩
  have hnumbers := numbers_of_build h hlibrary
  obtain ⟨hcompetenceNames, hpatternNames⟩ := Scope.library_names (library_of_build h)
  obtain ⟨hnodupCompetences, hnodupPatterns⟩ := nodup_of_build h
  refine ⟨_, hlibrary, Index.library_named hlibrary hnumbers,
    Index.library_linked hlibrary hnumbers hclosed ?_ ?_⟩
  · rw [hcompetenceNames]
    exact hnodupCompetences
  · rw [hpatternNames]
    exact hnodupPatterns

end SlipStack.Engine
