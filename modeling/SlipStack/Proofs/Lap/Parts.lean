import SlipStack.Proofs.Lap.Grammar

/-!
# Putting a plan together

The parser adds one part after the other to a plan and refuses a part that may not stand
where it does. The grammar looks at all parts at once. `addAll?_empty` says that both accept
the same lists of parts and make the same plans of them.

`addAll?_eq_some` is the invariant of the loop, which starts from any plan that has a part:
documentation can no longer follow, and everything else is appended to what is there.
-/

namespace SlipStack.Lap.Grammar

namespace Part

/-- The plan with one more part, unless it may not follow those that are there. -/
def addTo? (plan : Plan) : Part → Option Plan
  | .docstring part => if plan = .empty then some { plan with docstring := some part } else none
  | .collection part =>
    if plan.collection.isNone then some { plan with collection := some part } else none
  | .competence part => some { plan with competences := plan.competences ++ [part] }
  | .pattern part => some { plan with patterns := plan.patterns ++ [part] }

/-- The plan with more parts. -/
def addAll? (plan : Plan) (parts : List Part) : Option Plan :=
  parts.foldlM addTo? plan

@[simp]
theorem addAll?_nil (plan : Plan) : addAll? plan [] = some plan := rfl

@[simp]
theorem addAll?_cons (plan : Plan) (part : Part) (parts : List Part) :
    addAll? plan (part :: parts) = (addTo? plan part).bind (addAll? · parts) := by
  simp [addAll?]

/-- No plan with a part is empty. -/
theorem ne_empty_of_addTo? {plan after : Plan} {part : Part}
    (h : addTo? plan part = some after) : after ≠ .empty := by
  rintro rfl
  cases part with
  | docstring =>
    rw [addTo?, Option.ite_none_right_eq_some] at h
    exact absurd (congrArg Plan.docstring (Option.some.inj h.2)) (by simp [Plan.empty])
  | collection =>
    rw [addTo?, Option.ite_none_right_eq_some] at h
    exact absurd (congrArg Plan.collection (Option.some.inj h.2)) (by simp [Plan.empty])
  | competence => simp [addTo?, Plan.empty] at h
  | pattern => simp [addTo?, Plan.empty] at h

/-- The plan with more parts, of which none is documentation. -/
def appended (plan : Plan) (parts : List Part) : Plan where
  docstring := plan.docstring
  collection := plan.collection.or (parts.filterMap collection?).head?
  competences := plan.competences ++ parts.filterMap competence?
  patterns := plan.patterns ++ parts.filterMap pattern?

/-- Whether all these parts may follow those of a plan that is not empty. -/
structure MayFollow (plan : Plan) (parts : List Part) : Prop where
  no_docstring : ∀ part ∈ parts, part.docstring? = none
  one_collection : plan.collection.toList.length + (parts.filterMap collection?).length ≤ 1

theorem mayFollow_nil (plan : Plan) : MayFollow plan [] := by
  refine ⟨by simp, ?_⟩
  cases plan.collection <;> simp

theorem not_mayFollow_of_addTo? {plan : Plan} {part : Part} (hadd : addTo? plan part = none)
    (parts : List Part) : ¬ MayFollow plan (part :: parts) := by
  intro h
  cases part with
  | docstring =>
    have := h.no_docstring _ List.mem_cons_self
    simp at this
  | collection =>
    have hone := h.one_collection
    cases hcollection : plan.collection with
    | none => simp [addTo?, hcollection] at hadd
    | some =>
      rw [hcollection] at hone
      simp only [Option.toList_some, List.filterMap_cons, collection?, List.length_cons] at hone
      omega
  | competence => simp [addTo?] at hadd
  | pattern => simp [addTo?] at hadd

/-- To append parts is to add the first and to append the others. -/
theorem mayFollow_cons {plan after : Plan} {part : Part} (hpart : part.docstring? = none)
    (hadd : addTo? plan part = some after) (parts : List Part) :
    (MayFollow plan (part :: parts) ↔ MayFollow after parts) ∧
      appended plan (part :: parts) = appended after parts := by
  -- A collection uses up the one place for it; the other parts may always follow.
  cases part with
  | docstring => simp at hpart
  | collection part =>
    rw [addTo?, Option.ite_none_right_eq_some] at hadd
    obtain ⟨hnone, hafter⟩ := hadd
    obtain rfl := Option.some.inj hafter
    have hcollection : plan.collection = none := Option.isNone_iff_eq_none.1 hnone
    refine ⟨⟨fun h => ⟨?_, ?_⟩, fun h => ⟨?_, ?_⟩⟩, ?_⟩
    · exact fun p hp => h.no_docstring p (List.mem_cons_of_mem _ hp)
    · simpa [hcollection, List.filterMap_cons, Nat.add_comm] using h.one_collection
    · simpa using h.no_docstring
    · simpa [hcollection, List.filterMap_cons, Nat.add_comm] using h.one_collection
    · simp [appended, hcollection, List.filterMap_cons]
  | competence part | pattern part =>
    obtain rfl := Option.some.inj hadd
    refine ⟨⟨fun h => ⟨?_, ?_⟩, fun h => ⟨?_, ?_⟩⟩, ?_⟩
    · exact fun p hp => h.no_docstring p (List.mem_cons_of_mem _ hp)
    · simpa [List.filterMap_cons] using h.one_collection
    · simpa using h.no_docstring
    · simpa [List.filterMap_cons] using h.one_collection
    · simp [appended, List.filterMap_cons]

/-- A part that may be added to a plan that is not empty is no documentation. -/
theorem docstring?_of_addTo? {plan after : Plan} {part : Part} (hplan : plan ≠ .empty)
    (hadd : addTo? plan part = some after) : part.docstring? = none := by
  cases part with
  | docstring => simp [addTo?, hplan] at hadd
  | collection | competence | pattern => rfl

/-- Parts can be added to a plan exactly if they may follow it, and the result is the plan with
all of them appended. -/
theorem addAll?_eq_some {plan after : Plan} (hplan : plan ≠ .empty) {parts : List Part} :
    addAll? plan parts = some after ↔ MayFollow plan parts ∧ after = appended plan parts := by
  induction parts generalizing plan with
  | nil => simp [mayFollow_nil, appended, eq_comm]
  | cons part parts ih =>
    rw [addAll?_cons]
    cases hadd : addTo? plan part with
    | none => simp [not_mayFollow_of_addTo? hadd]
    | some mid =>
      obtain ⟨hfollow, happended⟩ := mayFollow_cons (docstring?_of_addTo? hplan hadd) hadd parts
      rw [Option.bind_some, ih (ne_empty_of_addTo? hadd), hfollow, happended]

theorem filterMap_docstring?_eq_nil {parts : List Part}
    (h : ∀ part ∈ parts, part.docstring? = none) : parts.filterMap docstring? = [] :=
  List.filterMap_eq_nil_iff.2 h

/-- The parser's view of the parts of a plan and the grammar's are the same. -/
theorem addAll?_empty {parts : List Part} {plan : Plan} :
    addAll? .empty parts = some plan ↔
      ((∀ part ∈ parts.tail, part.docstring? = none) ∧
        (parts.filterMap collection?).length ≤ 1) ∧ plan = planOf parts := by
  cases parts with
  | nil => simp [planOf, Plan.empty, eq_comm]
  | cons part parts =>
    obtain ⟨first, hadd⟩ : ∃ first, addTo? .empty part = some first := by
      cases part <;> simp [addTo?, Plan.empty]
    rw [addAll?_cons, hadd, Option.bind_some, addAll?_eq_some (ne_empty_of_addTo? hadd)]
    -- The first part may be a docstring, but none that follows.
    by_cases hpart : part.docstring? = none
    · obtain ⟨hfollow, happended⟩ := mayFollow_cons hpart hadd parts
      rw [← hfollow, ← happended]
      constructor
      · rintro ⟨⟨hdoc, hone⟩, rfl⟩
        refine ⟨⟨fun p hp => hdoc p (List.mem_cons_of_mem _ hp), ?_⟩, ?_⟩
        · simpa [Plan.empty] using hone
        · simp [appended, planOf, Plan.empty, filterMap_docstring?_eq_nil hdoc]
      · rintro ⟨⟨hdoc, hone⟩, rfl⟩
        have hall : ∀ p ∈ part :: parts, p.docstring? = none :=
          List.forall_mem_cons.2 ⟨hpart, hdoc⟩
        refine ⟨⟨hall, by simpa [Plan.empty] using hone⟩, ?_⟩
        simp [appended, planOf, Plan.empty, filterMap_docstring?_eq_nil hall]
    · cases part with
      | docstring doc =>
        obtain rfl : { Plan.empty with docstring := some doc } = first := by
          simpa [addTo?] using hadd
        constructor
        · rintro ⟨⟨hdoc, hone⟩, rfl⟩
          refine ⟨⟨hdoc, by simpa [Plan.empty, List.filterMap_cons] using hone⟩, ?_⟩
          simp [appended, planOf, Plan.empty, List.filterMap_cons]
        · rintro ⟨⟨hdoc, hone⟩, rfl⟩
          refine ⟨⟨hdoc, by simpa [Plan.empty, List.filterMap_cons] using hone⟩, ?_⟩
          simp [appended, planOf, Plan.empty, List.filterMap_cons]
      | collection | competence | pattern => exact absurd rfl hpart

end Part

end SlipStack.Lap.Grammar
