import SlipStack.Proofs.Engine.Resolution

/-!
# How building fails

Where the tag of the drive collection is one that building knows, and there is something to run,
building fails with a fault of the names in the plan (`build_failsOnly`): a node has a name that
is taken, or a name stands for nothing, or for what may not stand there. An action never clashes
with a node: the names of nodes were looked at before any name is resolved.
-/

namespace SlipStack.Engine

/-! ## Computations that fail in some ways only -/

section FailsOnly

variable {ε α β : Type} {P : ε → Prop}

/-- Every failure of the computation has the property. -/
def FailsOnly (P : ε → Prop) (x : Except ε α) : Prop :=
  ∀ e, x = .error e → P e

theorem FailsOnly.ok (a : α) : FailsOnly P (.ok a : Except ε α) := by
  intro e h
  cases h

theorem FailsOnly.error {e : ε} (h : P e) : FailsOnly P (.error e : Except ε α) := by
  intro e' h'
  cases h'
  exact h

/-- A sequence fails only as its parts do. The second part needs to be looked at only for results
that the first can give. -/
theorem FailsOnly.bind {x : Except ε α} {f : α → Except ε β} (hx : FailsOnly P x)
    (hf : ∀ a, x = .ok a → FailsOnly P (f a)) : FailsOnly P (x >>= f) := by
  intro e h
  cases hresult : x with
  | error e' =>
    rw [hresult] at h
    cases h
    exact hx e hresult
  | ok a =>
    rw [hresult] at h
    exact hf a hresult e h

theorem FailsOnly.map {x : Except ε α} (h : FailsOnly P x) (f : α → β) :
    FailsOnly P (x.map f) := by
  intro e hmap
  cases x with
  | error e' =>
    cases hmap
    exact h e rfl
  | ok a => cases hmap

/-- Work over a list fails only as it does for one of the members. -/
theorem FailsOnly.mapM {f : α → Except ε β} {as : List α} (h : ∀ a ∈ as, FailsOnly P (f a)) :
    FailsOnly P (as.mapM f) := by
  induction as with
  | nil => exact .ok []
  | cons a as ih =>
    rw [List.mapM_cons]
    refine (h a List.mem_cons_self).bind fun b _ => ?_
    exact (ih fun a' ha' => h a' (List.mem_cons_of_mem _ ha')).bind fun bs _ => .ok (b :: bs)

end FailsOnly

/-! ## Faults of names -/

/-- The fault is one of the names in a plan. A sense that nothing provides is; an action that
nothing provides is not told apart from a node that is not there. -/
inductive BuildError.OfNames : BuildError → Prop
  | duplicateNode (kind : NodeKind) (name : String) : OfNames (.duplicateNode kind name)
  | nodeClash (kind : NodeKind) (name : String) (other : NodeKind) :
      OfNames (.nodeClash kind name other)
  | capabilityClash (kind : NodeKind) (name : String) (capability : CapabilityKind) :
      OfNames (.capabilityClash kind name capability)
  | notFound (name : String) : OfNames (.notFound name)
  | illegalStep (pattern name : String) (fault : StepFault) :
      OfNames (.illegalStep pattern name fault)
  | senseNotFound (name : String) : OfNames (.capabilityNotFound .sense name)

/-- A clash of names is a fault of names, be it with a node or with a capability. -/
theorem nameClash?_ofNames {registry : Registry} {seen nodes : List (NodeKind × String)}
    {clash : BuildError} (h : nameClash? registry seen nodes = some clash) : clash.OfNames := by
  induction nodes generalizing seen with
  | nil => cases h
  | cons node rest ih =>
    obtain ⟨kind, name⟩ := node
    rw [nameClash?] at h
    split at h
    · split at h
      · cases h
        exact .duplicateNode _ _
      · cases h
        exact .nodeClash _ _ _
    · split at h
      · cases h
        exact .capabilityClash _ _ _
      · exact ih h

namespace Scope

variable {scope : Scope}

theorem sense_failsOnly (name : String) (value operator : Option String) :
    FailsOnly BuildError.OfNames (scope.sense name value operator) := by
  rw [Scope.sense]
  split
  · exact .ok _
  · exact .error (.senseNotFound name)

theorem trigger_failsOnly (conditions : Option (List Plan.Condition)) :
    FailsOnly BuildError.OfNames (scope.trigger conditions) := by
  refine .mapM fun condition _ => ?_
  cases condition with
  | bare name => exact sense_failsOnly name none none
  | check name value operator => exact sense_failsOnly name value operator

section Apart

variable (hreached : scope.registry.Reached) (hapart : Apart scope.registry scope.plan.defines)
include hreached hapart

/-- An action that is provided has a name that no node has. -/
theorem action_eq_ok_of_action? {name : String} {capability : Capability}
    (h : scope.registry.action? name = some capability) :
    scope.action capability = .ok capability :=
  action_eq_ok hapart (hreached.action?_eq_some.1 h)

/-- A target that cannot be resolved has a name that is unknown, or one that is both of an action
and of a node. -/
theorem target_failsOnly (name : String) :
    FailsOnly BuildError.OfNames (scope.target name) := by
  rw [Scope.target]
  split
  · rename_i capability hfound
    rw [action_eq_ok_of_action? hreached hapart hfound]
    exact .ok _
  · split
    · exact .ok _
    · split
      · exact .ok _
      · exact .error (.notFound name)

/-- A named step is refused for its name, or because a competence is not the last step or a
pattern is nested in another. -/
theorem namedStep_failsOnly (pattern name : String) (last : Bool) :
    FailsOnly BuildError.OfNames (scope.namedStep pattern name last) := by
  rw [Scope.namedStep]
  split
  · exact .ok _
  · split
    · rename_i capability hfound
      rw [action_eq_ok_of_action? hreached hapart hfound]
      exact .ok _
    · split
      · split
        · exact .ok _
        · exact .error (.illegalStep pattern name .competenceNotLast)
      · split
        · exact .error (.illegalStep pattern name .nestedPattern)
        · exact .error (.notFound name)

theorem steps_failsOnly (pattern : String) (source : List Plan.Step) :
    FailsOnly BuildError.OfNames (scope.steps pattern source) := by
  induction source with
  | nil => exact .ok []
  | cons step rest ih =>
    have hrest : ∀ first : Step, FailsOnly BuildError.OfNames
        (scope.steps pattern rest >>= fun others => Except.ok (first :: others)) :=
      fun first => ih.bind fun others _ => .ok (first :: others)
    cases step with
    | sense name value operator =>
      exact ((sense_failsOnly name value operator).map _).bind fun first _ => hrest first
    | named name =>
      exact (namedStep_failsOnly hreached hapart pattern name _).bind fun first _ => hrest first

theorem element_failsOnly (source : Plan.CompetenceElement) :
    FailsOnly BuildError.OfNames (scope.element source) := by
  refine (trigger_failsOnly source.trigger).bind fun trigger _ => ?_
  exact (target_failsOnly hreached hapart source.target).bind fun target _ => .ok _

/-- Whatever stops the building of the nodes has to do with a name in them. -/
theorem library_failsOnly : FailsOnly BuildError.OfNames scope.library := by
  refine (FailsOnly.mapM fun source _ => trigger_failsOnly source.goal).bind fun goals _ => ?_
  refine (FailsOnly.mapM fun source _ => ?_).bind fun competences _ => ?_
  · refine (FailsOnly.mapM fun level _ => ?_).bind fun levels _ => .ok _
    exact .mapM fun element _ => element_failsOnly hreached hapart element
  · refine (FailsOnly.mapM fun source _ => ?_).bind fun patterns _ => .ok _
    exact (steps_failsOnly hreached hapart source.name source.steps).bind fun steps _ => .ok _

/-- A drive element cannot be built only if a name in its trigger or its target cannot be used. -/
theorem drive_failsOnly (library : Library) (source : Plan.DriveElement) :
    FailsOnly BuildError.OfNames (scope.drive library source) := by
  refine (trigger_failsOnly source.trigger).bind fun trigger _ => ?_
  exact (target_failsOnly hreached hapart source.target).bind fun target _ => .ok _

/-- With a tag that is supported, a drive collection fails only by the names that it mentions. -/
theorem collection_failsOnly (library : Library) {source : Plan.DriveCollection}
    (htag : source.tag ∈ ["SDC", "SRDC", "DC", "RDC"]) :
    FailsOnly BuildError.OfNames (scope.collection library source) := by
  obtain ⟨discipline, hdiscipline⟩ := exists_ofTag?.2 htag
  rw [Scope.collection, hdiscipline]
  refine (trigger_failsOnly source.goal).bind fun goal _ => ?_
  refine (FailsOnly.mapM fun level _ => ?_).bind fun levels _ => .ok _
  exact .mapM fun element _ => drive_failsOnly hreached hapart library element

end Apart

end Scope

/-- Where there is a collection that can be paced, or a node to put into one, building fails with
faults of names only. -/
theorem build_failsOnly {registry : Registry} (hreached : registry.Reached) {plan : Plan}
    {collection : Plan.DriveCollection} (hcollection : plan.collection? = some collection)
    (htag : collection.tag ∈ ["SDC", "SRDC", "DC", "RDC"]) :
    FailsOnly BuildError.OfNames (plan.build registry) := by
  cases hclash : nameClash? registry [] (definedNodes plan) with
  | some clash =>
    rw [Plan.build, hclash]
    exact .error (nameClash?_ofNames hclash)
  | none =>
    obtain ⟨hdistinct, hfree⟩ := nameClash?_definedNodes.1 hclash
    have hapart := apart_of_names hdistinct hfree
    rw [build_eq hclash, hcollection]
    have hlibrary := @Scope.library_failsOnly ⟨registry, plan⟩ hreached hapart
    exact hlibrary.bind fun library _ =>
      @Scope.collection_failsOnly ⟨registry, plan⟩ hreached hapart library collection htag

end SlipStack.Engine
