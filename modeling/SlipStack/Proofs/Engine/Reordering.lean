import SlipStack.Proofs.Engine.Sharing

/-!
# The order of definitions makes no difference

Elements and steps refer to competences and patterns by name, be they defined before or after.
So a plan may define its nodes in any order (`Plan.Reordered`): it can be built or not as before,
and nothing that is seen of its agent tells the order (`order_unobservable`). A plan folds into
the same plan in another order, where no name is replaced.
-/

namespace SlipStack.Plan

open Engine

/-- The second plan differs from the first in nothing but the order of its competences and of its
patterns. -/
structure Reordered (plan plan' : Plan) : Prop where
  docstring : plan'.docstring = plan.docstring
  collection : plan'.collection = plan.collection
  competences : plan.competences.Perm plan'.competences
  patterns : plan.patterns.Perm plan'.patterns

theorem fixed_id (plan : Plan) : plan.Fixed id :=
  ⟨fun _ _ => rfl, fun _ _ => rfl, fun _ _ _ _ => rfl⟩

namespace Reordered

variable {registry : Registry} {plan plan' : Plan}

theorem symm (h : plan.Reordered plan') : plan'.Reordered plan :=
  ⟨h.docstring.symm, h.collection.symm, h.competences.symm, h.patterns.symm⟩

theorem nodeNames_perm (h : plan.Reordered plan') : plan.nodeNames.Perm plan'.nodeNames :=
  (h.competences.map _).append (h.patterns.map _)

theorem defines_eq (h : plan.Reordered plan') (ref : NodeRef) :
    plan.defines ref = plan'.defines ref := by
  cases ref with
  | competence name =>
    rw [Bool.eq_iff_iff, defines_competence, defines_competence, (h.competences.map _).mem_iff]
  | pattern name =>
    rw [Bool.eq_iff_iff, defines_pattern, defines_pattern, (h.patterns.map _).mem_iff]

theorem folds (h : plan.Reordered plan') (hcollection : plan.collection.isSome)
    (hplan : plan'.Resolvable registry) : plan.Folds registry id plan' := by
  obtain ⟨collection, hsome⟩ := Option.isSome_iff_exists.1 hcollection
  have hfixed := plan.fixed_id
  constructor
  · refine ⟨collection, hsome, ?_⟩
    rw [hfixed.collection hsome, h.collection, hsome]
  · intro competence hmem
    rw [hfixed.competence hmem]
    exact h.competences.subset hmem
  · intro pattern hmem
    rw [hfixed.pattern hmem]
    exact h.patterns.subset hmem
  · intro ref
    rw [h.defines_eq]
    cases ref <;> rfl
  · exact h.nodeNames_perm.nodup_iff.2 hplan.distinct
  · exact fun _ _ hregistered => hregistered
  · exact fun _ _ _ => rfl

/-- What can be built in one order can be built in the other, into an agent that does the
same. -/
theorem exists_build (h : plan.Reordered plan') (hcollection : plan.collection.isSome)
    (hreached : registry.Reached) {built' : Agent} (hbuild : plan'.build registry = .ok built') :
    ∃ built, plan.build registry = .ok built ∧ built.Renames id built' :=
  exists_build_of_folds hreached
    (h.folds hcollection (((build_eq_ok hreached).1 hbuild).1)) hbuild

end Reordered

end SlipStack.Plan

namespace SlipStack.Engine

/-- A plan with a drive collection can be built if and only if it can be with its nodes in
another order, and then the two agents cannot be told apart. -/
theorem order_unobservable {registry : Registry} (hreached : registry.Reached)
    {plan plan' : Plan} (hcollection : plan.collection.isSome)
    (hreordered : plan.Reordered plan') :
    ((∃ built, plan.build registry = .ok built) ↔
        ∃ built', plan'.build registry = .ok built') ∧
      ∀ built built', plan.build registry = .ok built → plan'.build registry = .ok built' →
        ∀ {ω ε : Type} (world : World ω ε) (controls : List Control) (w : ω),
          built.replay world controls w = built'.replay world controls w := by
  have hcollection' : plan'.collection.isSome := by rwa [hreordered.collection]
  constructor
  · constructor
    · intro ⟨built, hbuild⟩
      obtain ⟨built', hbuild', -⟩ := hreordered.symm.exists_build hcollection' hreached hbuild
      exact ⟨built', hbuild'⟩
    · intro ⟨built', hbuild'⟩
      obtain ⟨built, hbuild, -⟩ := hreordered.exists_build hcollection hreached hbuild'
      exact ⟨built, hbuild⟩
  · intro built built' hbuild hbuild' ω ε world controls w
    obtain ⟨other, hother, hrenames⟩ := hreordered.exists_build hcollection hreached hbuild'
    obtain rfl := Except.ok.inj (hother.symm.trans hbuild)
    exact hrenames.replay_eq world controls w

/-- Two patrols and two rests that lead to each other in turn. -/
def shiftPlan : Plan where
  docstring := none
  collection := some
    { tag := "SDC", name := "shifts", goal := none
      levels :=
        [[⟨"early", some [.bare "alone"], "patrol", none⟩], [⟨"late", none, "watch", none⟩]] }
  competences :=
    [⟨"nap", none, some [.bare "tired"], [[⟨"rise", none, "patrol", 3⟩]]⟩,
      ⟨"rest", none, none,
        [[⟨"again", some [.bare "alone"], "watch", -1⟩], [⟨"chat", none, "nap", 0⟩]]⟩]
  patterns :=
    [⟨"patrol", none, [.named "walk", .named "rest"]⟩,
      ⟨"watch", none, [.sense "tired" (some "3") (some "<"), .named "greet", .named "nap"]⟩]

/-- `shiftPlan` from its last node to its first. -/
def reversedShiftPlan : Plan :=
  { shiftPlan with
    competences := shiftPlan.competences.reverse
    patterns := shiftPlan.patterns.reverse }

theorem order_unobservable_shifts :
    guards.Reached ∧ shiftPlan.Reordered reversedShiftPlan ∧
      (∃ built, shiftPlan.build guards = .ok built) ∧
      ((∃ built, shiftPlan.build guards = .ok built) ↔
        ∃ built', reversedShiftPlan.build guards = .ok built') ∧
      ∀ built built', shiftPlan.build guards = .ok built →
        reversedShiftPlan.build guards = .ok built' →
        ∀ {ω ε : Type} (world : World ω ε) (controls : List Control) (w : ω),
          built.replay world controls w = built'.replay world controls w := by
  have hreordered : shiftPlan.Reordered reversedShiftPlan :=
    ⟨rfl, rfl, shiftPlan.competences.reverse_perm.symm, shiftPlan.patterns.reverse_perm.symm⟩
  exact ⟨guards_reached, hreordered, ⟨_, rfl⟩, order_unobservable guards_reached rfl hreordered⟩

end SlipStack.Engine
