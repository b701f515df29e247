import SlipStack.Proofs.Engine.Folding

/-!
# Sharing a definition cannot be observed

Several elements and patterns of a plan may refer to one definition. A plan may as well define
a copy of it under a fresh name, and refer to the copy at one of these places
(`Plan.Unshared`). That plan can be built too, and nothing that is seen of the two agents
tells them apart (`sharing_unobservable`): the plan with the copy folds into the other one.
-/

namespace SlipStack.Plan

open Engine

/-- A place where a plan refers to a node by name. Competences, patterns, levels and elements
are counted from zero. -/
inductive Reference where
  /-- What an element of the drive collection fires. -/
  | drive (level position : Nat)
  /-- What an element of a competence fires. -/
  | element (competence level position : Nat)
  /-- The last step of a pattern. -/
  | trailing (pattern : Nat)
  deriving DecidableEq, Repr

/-- The name that the plan has at a reference. -/
def nameAt? (plan : Plan) : Reference → Option String
  | .drive level position => do
    let collection ← plan.collection
    let elements ← collection.levels[level]?
    let element ← elements[position]?
    return element.target
  | .element competence level position => do
    let competence ← plan.competences[competence]?
    let elements ← competence.levels[level]?
    let element ← elements[position]?
    return element.target
  | .trailing pattern => do
    let pattern ← plan.patterns[pattern]?
    match pattern.steps.getLast? with
    | some (.named name) => return name
    | _ => none

/-- The plan with another name at a reference. -/
def retarget (plan : Plan) (name : String) : Reference → Plan
  | .drive level position =>
    { plan with
      collection := plan.collection.map fun collection =>
        { collection with
          levels := collection.levels.modify level fun elements =>
            elements.modify position fun element => { element with target := name } } }
  | .element competence level position =>
    { plan with
      competences := plan.competences.modify competence fun competence =>
        { competence with
          levels := competence.levels.modify level fun elements =>
            elements.modify position fun element => { element with target := name } } }
  | .trailing pattern =>
    { plan with
      patterns := plan.patterns.modify pattern fun pattern =>
        { pattern with
          steps := pattern.steps.modify (pattern.steps.length - 1) fun _ => .named name } }

/-- The second plan is the first with a further definition, a copy of the one that the reference
names, which the reference names instead. The copy stands anywhere among the other definitions.
Where the reference is in the copied definition itself, the copy is of the definition before or
after the change. -/
inductive Unshared (plan : Plan) (reference : Reference) (copy : String) : Plan → Prop
  | competence {definition : Competence} {before after : List Competence} :
      definition ∈ plan.competences ∨ definition ∈ (plan.retarget copy reference).competences →
      plan.nameAt? reference = some definition.name →
      (plan.retarget copy reference).competences = before ++ after →
      Unshared plan reference copy
        { plan.retarget copy reference with
          competences := before ++ { definition with name := copy } :: after }
  | pattern {definition : ActionPattern} {before after : List ActionPattern} :
      definition ∈ plan.patterns ∨ definition ∈ (plan.retarget copy reference).patterns →
      plan.nameAt? reference = some definition.name →
      (plan.retarget copy reference).patterns = before ++ after →
      Unshared plan reference copy
        { plan.retarget copy reference with
          patterns := before ++ { definition with name := copy } :: after }

/-! ## Back to the shared definition -/

/-- Replaces the name of a copy by that of the original. -/
def original (copy name : String) (other : String) : String :=
  if other = copy then name else other

@[simp]
theorem original_self (copy name : String) : original copy name copy = name := if_pos rfl

theorem original_of_ne {copy name other : String} (h : other ≠ copy) :
    original copy name other = other := if_neg h

section Lists

variable {α β : Type}

/-- A change in one place that is taken back. -/
theorem map_modify_eq_self {f g : α → α} {as : List α} {i : Nat} (hf : ∀ a ∈ as, f a = a)
    (hg : ∀ a, as[i]? = some a → f (g a) = a) : (as.modify i g).map f = as := by
  apply List.ext_getElem?
  intro j
  rw [List.getElem?_map, List.getElem?_modify]
  cases hj : as[j]? with
  | none => simp
  | some a =>
    by_cases hij : i = j
    · subst hij
      simp [hg a hj]
    · simp [hij, hf a (List.mem_of_getElem? hj)]

theorem map_level_eq_self {f : α → α} {levels : List (List α)}
    (hf : ∀ a ∈ levels.flatten, f a = a) : ∀ level ∈ levels, level.map f = level := by
  intro level hlevel
  rw [List.map_congr_left fun a ha => hf a (List.mem_flatten_of_mem hlevel ha), List.map_id']

theorem map_levels_eq_self {f : α → α} {levels : List (List α)}
    (hf : ∀ a ∈ levels.flatten, f a = a) : levels.map (fun level => level.map f) = levels := by
  rw [List.map_congr_left (map_level_eq_self hf), List.map_id']

/-- A change in one place of what stands in levels that is taken back. -/
theorem map_modify_levels_eq_self {f g : α → α} {levels : List (List α)} {i j : Nat}
    (hf : ∀ a ∈ levels.flatten, f a = a)
    (hg : ∀ level, levels[i]? = some level → ∀ a, level[j]? = some a → f (g a) = a) :
    (levels.modify i fun level => level.modify j g).map (fun level => level.map f) = levels := by
  refine map_modify_eq_self (map_level_eq_self hf) fun level hlevel => ?_
  have hmem := List.mem_of_getElem? hlevel
  exact map_modify_eq_self (fun a ha => hf a (List.mem_flatten_of_mem hmem ha)) (hg level hlevel)

/-- A change in one place of what does not matter. -/
theorem map_modify_of_eq {f : α → β} {g : α → α} {as : List α} {i : Nat}
    (hg : ∀ a, f (g a) = f a) : (as.modify i g).map f = as.map f := by
  apply List.ext_getElem?
  intro j
  rw [List.getElem?_map, List.getElem?_map, List.getElem?_modify]
  cases as[j]? with
  | none => simp
  | some a =>
    by_cases hij : i = j
    · simp [hij, hg]
    · simp [hij]

/-! ### A list with a copy of one of its elements

`as'` is `as` after a change that `f` takes back, and is split where the copy goes. -/

variable {nameOf : α → String} {f : α → α} {as as' before after : List α} {a : α}

theorem name_mem_of_mem (hnames : as'.map nameOf = as.map nameOf) (ha : a ∈ as ∨ a ∈ as') :
    nameOf a ∈ as.map nameOf := by
  rcases ha with hmem | hmem
  · exact List.mem_map_of_mem hmem
  · exact hnames ▸ List.mem_map_of_mem hmem

/-- A copy that is inserted among members which are unchanged or retargeted gives a list that the
renaming takes back into the first. -/
theorem forall_mem_inserted {copied : α} (hchange : as'.map f = as) (hfixed : ∀ a ∈ as, f a = a)
    (ha : a ∈ as ∨ a ∈ as') (hcopied : f copied = f a) (hsplit : as' = before ++ after) :
    ∀ b ∈ before ++ copied :: after, f b ∈ as := by
  have himage : ∀ b, b ∈ as ∨ b ∈ as' → f b ∈ as := by
    intro b hb
    rcases hb with hmem | hmem
    · rwa [hfixed b hmem]
    · exact hchange ▸ List.mem_map_of_mem hmem
  intro b hb
  rcases List.mem_cons.1 (List.perm_middle.mem_iff.1 hb) with rfl | hmem
  · exact hcopied ▸ himage a ha
  · exact himage b (.inr (hsplit ▸ hmem))

/-- The names after a copy is inserted are the old ones with that of the copy, in some order. -/
theorem names_inserted_perm (copied : α) (hnames : as'.map nameOf = as.map nameOf)
    (hsplit : as' = before ++ after) :
    ((before ++ copied :: after).map nameOf).Perm (nameOf copied :: as.map nameOf) := by
  rw [← hnames, hsplit]
  exact List.perm_middle.map nameOf

end Lists

variable {f : String → String} {plan : Plan} {copy name : String}

/-- Giving one reference another name leaves the names of all nodes; only what refers to them
changes. -/
theorem names_retarget (plan : Plan) (copy : String) (reference : Reference) :
    (plan.retarget copy reference).competences.map (·.name) = plan.competences.map (·.name) ∧
      (plan.retarget copy reference).patterns.map (·.name) = plan.patterns.map (·.name) := by
  cases reference with
  | drive => exact ⟨rfl, rfl⟩
  | element => exact ⟨map_modify_of_eq fun _ => rfl, rfl⟩
  | trailing => exact ⟨rfl, map_modify_of_eq fun _ => rfl⟩

/-- All names of nodes and all references stay when names are replaced. -/
structure Fixed (f : String → String) (plan : Plan) : Prop where
  nodes : ∀ name ∈ plan.nodeNames, f name = name
  targets : ∀ name ∈ plan.targetNames, f name = name
  steps : ∀ pattern ∈ plan.patterns, ∀ name, .named name ∈ pattern.steps → f name = name

namespace Fixed

variable (h : plan.Fixed f)
include h

theorem driveElement {collection : DriveCollection}
    (hcollection : plan.collection = some collection) :
    ∀ element ∈ collection.levels.flatten, element.rename f = element := by
  intro element helement
  have htarget := (forall_targetNames.1 h.targets).2 collection hcollection element helement
  rw [DriveElement.rename, htarget]

theorem competenceElement {competence : Competence} (hmem : competence ∈ plan.competences) :
    ∀ element ∈ competence.levels.flatten, element.rename f = element := by
  intro element helement
  have htarget := (forall_targetNames.1 h.targets).1 competence hmem element helement
  rw [CompetenceElement.rename, htarget]

theorem step {pattern : ActionPattern} (hmem : pattern ∈ plan.patterns) :
    ∀ step ∈ pattern.steps, step.rename f = step := by
  intro step hstep
  cases step with
  | sense name value operator => rfl
  | named name => rw [Step.rename, h.steps pattern hmem name hstep]

theorem competenceName {competence : Competence} (hmem : competence ∈ plan.competences) :
    f competence.name = competence.name :=
  h.nodes _ (List.mem_append_left _ (List.mem_map_of_mem hmem))

theorem patternName {pattern : ActionPattern} (hmem : pattern ∈ plan.patterns) :
    f pattern.name = pattern.name :=
  h.nodes _ (List.mem_append_right _ (List.mem_map_of_mem hmem))

theorem competence {competence : Competence} (hmem : competence ∈ plan.competences) :
    competence.rename f = competence := by
  rw [Competence.rename, h.competenceName hmem, map_levels_eq_self (h.competenceElement hmem)]

theorem pattern {pattern : ActionPattern} (hmem : pattern ∈ plan.patterns) :
    pattern.rename f = pattern := by
  rw [ActionPattern.rename, h.patternName hmem, List.map_congr_left (h.step hmem), List.map_id']

theorem collection {collection : DriveCollection}
    (hcollection : plan.collection = some collection) :
    collection.rename f = collection := by
  rw [DriveCollection.rename, map_levels_eq_self (h.driveElement hcollection)]

/-- To replace the new name at a reference by the old one gives back the plan. -/
theorem becomes_retarget {reference : Reference} (hname : plan.nameAt? reference = some name)
    (hcopy : f copy = name) :
    (plan.retarget copy reference).collection.map (DriveCollection.rename f) = plan.collection ∧
      (plan.retarget copy reference).competences.map (Competence.rename f) = plan.competences ∧
      (plan.retarget copy reference).patterns.map (ActionPattern.rename f) = plan.patterns := by
  have hcollection : plan.collection.map (DriveCollection.rename f) = plan.collection := by
    cases hsome : plan.collection with
    | none => rfl
    | some collection => rw [Option.map_some, h.collection hsome]
  have hcompetences : plan.competences.map (Competence.rename f) = plan.competences := by
    rw [List.map_congr_left fun _ hmem => h.competence hmem, List.map_id']
  have hpatterns : plan.patterns.map (ActionPattern.rename f) = plan.patterns := by
    rw [List.map_congr_left fun _ hmem => h.pattern hmem, List.map_id']
  -- What is not referred from is unchanged; the one reference is taken back by the renaming.
  cases reference with
  | drive level position =>
    refine ⟨?_, hcompetences, hpatterns⟩
    cases hsome : plan.collection with
    | none => simp [retarget, hsome]
    | some collection =>
      have hlevels := map_modify_levels_eq_self (i := level) (j := position)
        (g := fun element : DriveElement => { element with target := copy })
        (h.driveElement hsome) fun elements helements element helement => by
          simp [nameAt?, hsome, helements, helement] at hname
          rw [DriveElement.rename, hcopy, ← hname]
      simp only [retarget, hsome, Option.map_some, DriveCollection.rename, hlevels]
  | element competence level position =>
    refine ⟨hcollection, map_modify_eq_self (fun _ => h.competence) fun source hsource => ?_,
      hpatterns⟩
    have hmem := List.mem_of_getElem? hsource
    have hlevels := map_modify_levels_eq_self (i := level) (j := position)
      (g := fun element : CompetenceElement => { element with target := copy })
      (h.competenceElement hmem) fun elements helements element helement => by
        simp [nameAt?, hsource, helements, helement] at hname
        rw [CompetenceElement.rename, hcopy, ← hname]
    rw [Competence.rename]
    dsimp only
    rw [h.competenceName hmem, hlevels]
  | trailing pattern =>
    refine ⟨hcollection, hcompetences,
      map_modify_eq_self (fun _ => h.pattern) fun source hsource => ?_⟩
    have hmem := List.mem_of_getElem? hsource
    have hsteps := map_modify_eq_self (i := source.steps.length - 1)
      (g := fun _ : Step => Step.named copy) (h.step hmem) fun step hstep => by
        rw [← List.getLast?_eq_getElem?] at hstep
        cases step with
        | sense => simp [nameAt?, hsource, hstep] at hname
        | named last =>
          simp [nameAt?, hsource, hstep] at hname
          rw [Step.rename, hcopy, ← hname]
    rw [ActionPattern.rename]
    dsimp only
    rw [h.patternName hmem, hsteps]

end Fixed

section Unshared

variable {registry : Registry} {plan unshared : Plan} {reference : Reference} {copy name : String}

/-- The name of every node that the plan defines is among the names of its nodes. -/
theorem name_mem_of_defines {ref : NodeRef} (h : plan.defines ref) : ref.name ∈ plan.nodeNames := by
  cases ref with
  | competence name => exact List.mem_append_left _ (defines_competence.1 h)
  | pattern name => exact List.mem_append_right _ (defines_pattern.1 h)

/-- Where names are distinct, a competence and a pattern do not have the same. -/
theorem eq_of_defines (hdistinct : plan.nodeNames.Nodup) {ref ref' : NodeRef}
    (h : plan.defines ref) (h' : plan.defines ref') (hname : ref.name = ref'.name) :
    ref = ref' := by
  obtain ⟨_, _, hapart⟩ := List.nodup_append.1 hdistinct
  cases ref with
  | competence name =>
    cases ref' with
    | competence name' => exact congrArg NodeRef.competence hname
    | pattern name' =>
      exact absurd hname (hapart _ (defines_competence.1 h) _ (defines_pattern.1 h'))
  | pattern name =>
    cases ref' with
    | competence name' =>
      exact absurd hname.symm (hapart _ (defines_competence.1 h') _ (defines_pattern.1 h))
    | pattern name' => exact congrArg NodeRef.pattern hname

/-- With the original for the copy, the copy is one more that is defined. -/
theorem defines_original (hdistinct : plan.nodeNames.Nodup) (hfresh : copy ∉ plan.nodeNames)
    {source : NodeRef} (hsource : plan.defines source) (ref : NodeRef) :
    plan.defines (ref.rename (original copy source.name)) ↔
      ref = source.rename (fun _ => copy) ∨ plan.defines ref := by
  -- Only the name of the copy is mapped elsewhere, and no node had it before.
  by_cases hname : ref.name = copy
  · have hrenamed : (ref.rename (original copy source.name)).name = source.name := by
      cases ref <;> exact (congrArg (original copy source.name) hname).trans (original_self _ _)
    have hundefined : ¬ plan.defines ref := by
      intro hdefined
      exact hfresh (hname ▸ name_mem_of_defines hdefined)
    rw [or_iff_left hundefined]
    constructor
    · intro hdefined
      rw [← eq_of_defines hdistinct hdefined hsource hrenamed]
      cases ref with
      | competence name => exact congrArg NodeRef.competence hname
      | pattern name => exact congrArg NodeRef.pattern hname
    · intro hcopy
      have hback : (source.rename fun _ => copy).rename (original copy source.name) = source := by
        cases source with
        | competence name => exact congrArg NodeRef.competence (original_self copy name)
        | pattern name => exact congrArg NodeRef.pattern (original_self copy name)
      rwa [hcopy, hback]
  · have hkept : ref.rename (original copy source.name) = ref := by
      cases ref <;> exact congrArg _ (original_of_ne hname)
    have hother : ref ≠ source.rename fun _ => copy := by
      intro hcopy
      rw [hcopy] at hname
      cases source <;> exact hname rfl
    simp only [hkept, hother, false_or]

/-- No capability has the name of the original, so none is gained for the copy. -/
theorem registered_of_original (hname : ∀ kind, ¬ registry.Registered kind name)
    {kind : CapabilityKind} {other : String}
    (h : registry.Registered kind (original copy name other)) :
    registry.Registered kind other := by
  by_cases hother : other = copy
  · rw [hother, original_self] at h
    exact absurd h (hname kind)
  · rwa [original_of_ne hother] at h

/-- The renaming leaves the names of capabilities alone, as the name of the copy was free. -/
theorem original_of_registered (hfree : ∀ kind, ¬ registry.Registered kind copy)
    {kind : CapabilityKind} {other : String} (h : registry.Registered kind other) :
    original copy name other = other :=
  original_of_ne fun heq => hfree kind (heq ▸ h)

variable (hplan : plan.Resolvable registry) (hfresh : copy ∉ plan.nodeNames)
  (hfree : ∀ kind, ¬ registry.Registered kind copy)
include hplan hfresh hfree

/-- A plan that can be resolved does not mention a fresh name. -/
theorem fixed_of_fresh (name : String) : plan.Fixed (original copy name) := by
  have hdefined : ∀ ref, plan.defines ref → ref.name ≠ copy :=
    fun ref href heq => hfresh (heq ▸ name_mem_of_defines href)
  have hregistered : ∀ kind name, registry.Registered kind name → name ≠ copy :=
    fun kind name hname heq => hfree kind (heq ▸ hname)
  refine ⟨fun other hother => ?_, fun other hother => ?_, fun pattern hpattern other hother => ?_⟩
  · exact original_of_ne fun heq => hfresh (heq ▸ hother)
  · apply original_of_ne
    rcases hplan.targets other hother with haction | hcompetence | hpattern
    · exact hregistered .action other haction
    · exact hdefined (.competence other) hcompetence
    · exact hdefined (.pattern other) hpattern
  · apply original_of_ne
    obtain ⟨before, after, hsteps⟩ := List.append_of_mem hother
    rcases hplan.names pattern hpattern before other after hsteps with hsense | haction | hlast
    · exact hregistered .sense other hsense
    · exact hregistered .action other haction
    · exact hdefined (.competence other) hlast.2

/-- A plan with one definition more, which becomes a definition of the plan under the name of the
original, folds into the plan. -/
theorem folds_of_copy {collection : DriveCollection} {source : NodeRef}
    (hcollection : plan.collection = some collection) (hsource : plan.defines source)
    (hreference : plan.nameAt? reference = some source.name)
    (hretargeted : unshared.collection = (plan.retarget copy reference).collection)
    (hcompetences : ∀ competence ∈ unshared.competences,
      competence.rename (original copy source.name) ∈ plan.competences)
    (hpatterns : ∀ pattern ∈ unshared.patterns,
      pattern.rename (original copy source.name) ∈ plan.patterns)
    (hdefines : ∀ ref, unshared.defines ref ↔
      ref = source.rename (fun _ => copy) ∨ plan.defines ref)
    (hnames : unshared.nodeNames.Perm (copy :: plan.nodeNames)) :
    unshared.Folds registry (original copy source.name) plan := by
  have hfixed := fixed_of_fresh hplan hfresh hfree source.name
  have hcollections := (hfixed.becomes_retarget hreference (original_self _ _)).1
  rw [hcollection, Option.map_eq_some_iff] at hcollections
  obtain ⟨given, hgiven, rfl⟩ := hcollections
  refine ⟨⟨given, hretargeted.trans hgiven, hcollection⟩, hcompetences, hpatterns,
    fun ref => ?_, ?_,
    fun _ _ => registered_of_original (hplan.free _ (name_mem_of_defines hsource)),
    fun _ _ => original_of_registered hfree⟩
  · rw [Bool.eq_iff_iff, hdefines, defines_original hplan.distinct hfresh hsource]
  · rw [hnames.nodup_iff, List.nodup_cons]
    exact ⟨hfresh, hplan.distinct⟩

/-- The plan with the copy of a competence folds into the plan without it. -/
theorem folds_of_competence {collection : DriveCollection}
    (hcollection : plan.collection = some collection) {definition : Competence}
    {before after : List Competence}
    (hdefinition : definition ∈ plan.competences ∨
      definition ∈ (plan.retarget copy reference).competences)
    (hreference : plan.nameAt? reference = some definition.name)
    (hsplit : (plan.retarget copy reference).competences = before ++ after) :
    Folds registry (original copy definition.name)
      { plan.retarget copy reference with
        competences := before ++ { definition with name := copy } :: after } plan := by
  have hfixed := fixed_of_fresh hplan hfresh hfree definition.name
  obtain ⟨-, hcompetences, hpatterns⟩ := hfixed.becomes_retarget hreference (original_self _ _)
  obtain ⟨hnames, hnames'⟩ := plan.names_retarget copy reference
  have hnew := names_inserted_perm { definition with name := copy } hnames hsplit
  have hname := name_mem_of_mem hnames hdefinition
  have hsource : plan.defines (.competence definition.name) := defines_competence.2 hname
  have hkept : original copy definition.name definition.name = definition.name :=
    hfixed.nodes _ (name_mem_of_defines hsource)
  -- The copy is taken to what its original is taken to.
  have hcopied : Competence.rename (original copy definition.name)
      { definition with name := copy } = definition.rename (original copy definition.name) := by
    simp only [Competence.rename, original_self, hkept]
  refine folds_of_copy hplan hfresh hfree hcollection hsource hreference rfl
    (forall_mem_inserted hcompetences (fun _ => hfixed.competence) hdefinition hcopied hsplit)
    (fun pattern hmem => hpatterns ▸ List.mem_map_of_mem hmem) (fun ref => ?_) ?_
  · cases ref with
    | competence other =>
      simp only [defines_competence, hnew.mem_iff, List.mem_cons, NodeRef.rename,
        NodeRef.competence.injEq]
    | pattern other => simp only [defines_pattern, hnames', NodeRef.rename, reduceCtorEq, false_or]
  · rw [nodeNames, hnames']
    exact hnew.append_right _

/-- The plan with the copy of a pattern folds into the plan without it. -/
theorem folds_of_pattern {collection : DriveCollection}
    (hcollection : plan.collection = some collection) {definition : ActionPattern}
    {before after : List ActionPattern}
    (hdefinition : definition ∈ plan.patterns ∨
      definition ∈ (plan.retarget copy reference).patterns)
    (hreference : plan.nameAt? reference = some definition.name)
    (hsplit : (plan.retarget copy reference).patterns = before ++ after) :
    Folds registry (original copy definition.name)
      { plan.retarget copy reference with
        patterns := before ++ { definition with name := copy } :: after } plan := by
  have hfixed := fixed_of_fresh hplan hfresh hfree definition.name
  obtain ⟨-, hcompetences, hpatterns⟩ := hfixed.becomes_retarget hreference (original_self _ _)
  obtain ⟨hnames, hnames'⟩ := plan.names_retarget copy reference
  have hnew := names_inserted_perm { definition with name := copy } hnames' hsplit
  have hname := name_mem_of_mem hnames' hdefinition
  have hsource : plan.defines (.pattern definition.name) := defines_pattern.2 hname
  have hkept : original copy definition.name definition.name = definition.name :=
    hfixed.nodes _ (name_mem_of_defines hsource)
  -- The copy is taken to what its original is taken to.
  have hcopied : ActionPattern.rename (original copy definition.name)
      { definition with name := copy } = definition.rename (original copy definition.name) := by
    simp only [ActionPattern.rename, original_self, hkept]
  refine folds_of_copy hplan hfresh hfree hcollection hsource hreference rfl
    (fun competence hmem => hcompetences ▸ List.mem_map_of_mem hmem)
    (forall_mem_inserted hpatterns (fun _ => hfixed.pattern) hdefinition hcopied hsplit)
    (fun ref => ?_) ?_
  · cases ref with
    | competence other =>
      simp only [defines_competence, hnames, NodeRef.rename, reduceCtorEq, false_or]
    | pattern other =>
      simp only [defines_pattern, hnew.mem_iff, List.mem_cons, NodeRef.rename,
        NodeRef.pattern.injEq]
  · rw [nodeNames, hnames]
    exact (hnew.append_left _).trans List.perm_middle

/-- A plan with a fresh copy at one site folds into the plan with the shared node, by the renaming
that takes the copy to its original. -/
theorem Unshared.folds (hcollection : plan.collection.isSome)
    (h : plan.Unshared reference copy unshared) :
    ∃ name, unshared.Folds registry (original copy name) plan := by
  obtain ⟨collection, hsome⟩ := Option.isSome_iff_exists.1 hcollection
  cases h with
  | competence hdefinition hreference hsplit =>
    exact ⟨_, folds_of_competence hplan hfresh hfree hsome hdefinition hreference hsplit⟩
  | pattern hdefinition hreference hsplit =>
    exact ⟨_, folds_of_pattern hplan hfresh hfree hsome hdefinition hreference hsplit⟩

end Unshared

end SlipStack.Plan

namespace SlipStack.Engine

/-- A plan in which one reference has a definition of its own, a copy under a fresh name, can
be built, and its agent cannot be told apart from the one of the plan that shares the
definition. -/
theorem sharing_unobservable {registry : Registry} (hreached : registry.Reached)
    {plan unshared : Plan} {built : Agent} {reference : Plan.Reference} {copy : String}
    (hbuild : plan.build registry = .ok built) (hcollection : plan.collection.isSome)
    (hfresh : copy ∉ plan.nodeNames) (hfree : ∀ kind, ¬ registry.Registered kind copy)
    (hunshared : plan.Unshared reference copy unshared) :
    ∃ built', unshared.build registry = .ok built' ∧
      ∀ {ω ε : Type} (world : World ω ε) (controls : List Control) (w : ω),
        built'.replay world controls w = built.replay world controls w := by
  have hplan := ((build_eq_ok hreached).1 hbuild).1
  obtain ⟨name, hfolds⟩ := hunshared.folds hplan hfresh hfree hcollection
  obtain ⟨built', hbuild', hrenames⟩ := exists_build_of_folds hreached hfolds hbuild
  exact ⟨built', hbuild', fun world controls w => hrenames.replay_eq world controls w⟩

/-- `patrolPlan`, but with a competence of its own that the patrol ends in. -/
def napPlan : Plan :=
  { patrolPlan with
    competences :=
      [⟨"rest", none, some [.bare "alone"], [[⟨"again", some [], "patrol", 2⟩]]⟩,
        ⟨"nap", none, some [.bare "alone"], [[⟨"again", some [], "patrol", 2⟩]]⟩]
    patterns := [⟨"patrol", none, [.named "walk", .sense "alone" none none, .named "nap"]⟩] }

theorem sharing_unobservable_nap :
    guards.Reached ∧ patrolPlan.build guards = .ok patroller ∧
      patrolPlan.Unshared (.trailing 0) "nap" napPlan ∧
      ∃ built', napPlan.build guards = .ok built' ∧
        ∀ {ω ε : Type} (world : World ω ε) (controls : List Control) (w : ω),
          built'.replay world controls w = patroller.replay world controls w := by
  have hunshared : patrolPlan.Unshared (.trailing 0) "nap" napPlan :=
    @Plan.Unshared.competence patrolPlan (.trailing 0) "nap"
      ⟨"rest", none, some [.bare "alone"], [[⟨"again", some [], "patrol", 2⟩]]⟩
      patrolPlan.competences [] (.inl List.mem_cons_self) rfl rfl
  have hfresh : "nap" ∉ patrolPlan.nodeNames := by decide
  have hfree : ∀ kind, ¬ guards.Registered kind "nap" := capabilityKind?_eq_none.1 rfl
  exact ⟨guards_reached, build_patrolPlan, hunshared,
    sharing_unobservable guards_reached build_patrolPlan rfl hfresh hfree hunshared⟩

end SlipStack.Engine
