import SlipStack.Proofs.Engine.Resolution

/-!
# A root written out

A plan without drive collection is built around its root. It is the same to write that collection
out: stepped, named like the root, without goal, and with one drive element that fires the root
whenever it can (`Plan.rooted`). Both plans are built into one agent, or fail for one reason
(`implicit_root_written_out`).

Names are resolved in the nodes of a plan, never in its drive collection. So all that building asks
of a drive collection is the one that the plan comes down to, be it written or not
(`build_withCollection`).
-/

namespace SlipStack.Plan

/-- The plan with another drive collection, or without one. -/
def withCollection (plan : Plan) (collection : Option DriveCollection) : Plan :=
  { plan with collection := collection }

/-- The plan with a drive collection that does nothing but fire `root`. -/
def rooted (plan : Plan) (root : String) : Plan :=
  plan.withCollection (some
    { tag := "SDC", name := root, goal := none, levels := [[⟨root, none, root, none⟩]] })

theorem collection?_rooted {plan : Plan} {root : String} (hcollection : plan.collection = none)
    (hroot : plan.rootName? = some root) : (plan.rooted root).collection? = plan.collection? := by
  rw [collection?, collection?, hcollection, hroot]
  rfl

end SlipStack.Plan

namespace SlipStack.Engine

variable {registry : Registry} {plan : Plan} {given : Option Plan.DriveCollection}

namespace Scope

theorem steps_withCollection (pattern : String) (steps : List Plan.Step) :
    Scope.steps ⟨registry, plan.withCollection given⟩ pattern steps =
      Scope.steps ⟨registry, plan⟩ pattern steps := by
  induction steps with
  | nil => rfl
  | cons step steps ih =>
    simp only [Scope.steps, ih]
    rfl

theorem pattern_withCollection (pattern : Plan.ActionPattern) :
    Scope.pattern ⟨registry, plan.withCollection given⟩ pattern =
      Scope.pattern ⟨registry, plan⟩ pattern := by
  rw [Scope.pattern, Scope.pattern, steps_withCollection]

theorem library_withCollection :
    Scope.library ⟨registry, plan.withCollection given⟩ = Scope.library ⟨registry, plan⟩ := by
  have hpatterns := funext (@pattern_withCollection registry plan given)
  rw [Scope.library, Scope.library, hpatterns]
  rfl

theorem collection_withCollection (library : Library) (collection : Plan.DriveCollection) :
    Scope.collection ⟨registry, plan.withCollection given⟩ library collection =
      Scope.collection ⟨registry, plan⟩ library collection := rfl

end Scope

/-- Another drive collection makes no difference if the plan comes down to the same one. -/
theorem build_withCollection
    (hcollection : (plan.withCollection given).collection? = plan.collection?) :
    (plan.withCollection given).build registry = plan.build registry := by
  have hnames : definedNodes (plan.withCollection given) = definedNodes plan := rfl
  cases hclash : nameClash? registry [] (definedNodes plan) with
  | some clash => rw [Plan.build, Plan.build, hnames, hclash]
  | none =>
    rw [build_eq hclash, build_eq (hnames ▸ hclash), hcollection, Scope.library_withCollection]
    simp only [Scope.collection_withCollection]

/-- A plan with nodes and without drive collection is built like the plan in which the collection
around its root is written out: into the same agent, which then does the same, or not at all, for
the same reason. -/
theorem implicit_root_written_out (hcollection : plan.collection = none)
    (hnodes : plan.competences ≠ [] ∨ plan.patterns ≠ []) :
    ∃ root, plan.rootName? = some root ∧
      (plan.rooted root).build registry = plan.build registry := by
  obtain ⟨root, hroot⟩ := (exists_rootName? hcollection).2 hnodes
  exact ⟨root, hroot, build_withCollection (Plan.collection?_rooted hcollection hroot)⟩

/-- The patrol, which now is not asked for by any drive. -/
def loosePlan : Plan := patrolPlan.withCollection none

/-- What the loose patrol is built into rests whenever it can. -/
def rester : Agent :=
  { patroller with
    name := "rest"
    levels := [[.fresh patrolLibrary "rest" [] (.node (.competence "rest")) none]] }

/-- The loose patrol is built around its competence, written out or not. -/
theorem implicit_root_written_out_patrol :
    loosePlan.collection = none ∧ loosePlan.competences ≠ [] ∧
      loosePlan.build guards = .ok rester ∧
      (loosePlan.rooted "rest").build guards = .ok rester := by
  have hbuild : loosePlan.build guards = .ok rester := rfl
  have hnodes : loosePlan.competences ≠ [] := List.cons_ne_nil _ _
  obtain ⟨root, hroot, hrooted⟩ :=
    @implicit_root_written_out guards loosePlan rfl (.inl hnodes)
  obtain rfl : "rest" = root := Option.some.inj hroot
  exact ⟨rfl, hnodes, hbuild, hrooted.trans hbuild⟩

end SlipStack.Engine
