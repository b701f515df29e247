import Mathlib.Data.List.Perm.Basic
import SlipStack.Proofs.Registered

/-!
# Registering is all or nothing

A behaviour is registered if its name is new, the names it declares differ, and none of them is
known yet (`Registry.Admits`). Then the registry gains just that behaviour (`Registry.Gains`);
otherwise registering leaves it as it was (`Registry.admitted`).

What can be registered one after the other are the lists in which all these names differ
(`Registry.Distinct`, `withBehaviours_eq_ok`). That does not depend on the order of the list, and
neither does what is found in the registry afterwards (`Registry.Agrees`).
-/

namespace SlipStack.Registry

variable {κ : Type} {registry registry' : Registry κ} {offer : Offer κ}
  {offers offers' held : List (Offer κ)}

/-! ## One behaviour -/

/-- What a registry becomes by one more behaviour. -/
structure Gains (registry : Registry κ) (offer : Offer κ) (registry' : Registry κ) : Prop where
  behaviours : registry'.behaviours = registry.behaviours ++ [offer.name]
  added : ∀ kind name call, (name, call) ∈ offer.calls kind →
    (registry'.table kind).get? name = some ⟨offer.name, call⟩
  kept : ∀ kind name entry, (registry.table kind).get? name = some entry →
    (registry'.table kind).get? name = some entry
  others : ∀ kind name, (kind, name) ∉ offer.declared →
    (registry'.table kind).get? name = (registry.table kind).get? name

/-- A registry that holds some offers gains, by one more that it admits, just the names of that
one; all others keep owner and callable. -/
theorem Holds.gains (h : registry.Holds held) (hadmits : registry.Admits offer) :
    registry.Gains offer (registry.grow offer) where
  behaviours := rfl
  added kind name call hcall :=
    ((h.grow hadmits).entries kind name _).2 ⟨offer, by simp, rfl, hcall⟩
  kept kind name entry hentry := by
    obtain ⟨other, hother, hcall⟩ := (h.entries kind name entry).1 hentry
    exact ((h.grow hadmits).entries kind name entry).2
      ⟨other, List.mem_append_left _ hother, hcall⟩
  others kind name hdeclared := by
    ext entry
    rw [(h.grow hadmits).entries, h.entries]
    simp only [List.mem_append, List.mem_singleton]
    constructor
    · rintro ⟨other, hold | rfl, howner, hcall⟩
      · exact ⟨other, hold, howner, hcall⟩
      · exact absurd (Offer.mem_declared.2 ⟨_, hcall⟩) hdeclared
    · rintro ⟨other, hold, howner, hcall⟩
      exact ⟨other, .inl hold, howner, hcall⟩

/-! ## One after the other -/

/-- The registry that registering a behaviour leaves, whether it is refused or not. -/
def offered (registry : Registry κ) (offer : Offer κ) : Registry κ :=
  ((enroll offer).run.run registry).2

/-- The registry after behaviours were offered to a new one, one after the other. -/
def offerAll (offers : List (Offer κ)) : Registry κ :=
  offers.foldl offered empty

/-- Offers leave a registry that holds those which were not refused. -/
theorem Holds.offered (h : registry.Holds held) (offer : Offer κ) :
    ∃ held', (registry.offered offer).Holds held' := by
  have hadmitted := registry.admitted offer
  unfold Registry.offered
  generalize (enroll offer).run.run registry = run at hadmitted ⊢
  obtain ⟨result, left⟩ := run
  cases hadmitted with
  | refused => exact ⟨held, h⟩
  | grown hadmits => exact ⟨_, h.grow hadmits⟩

/-- Whatever is offered in turn, the registry holds those offers that it took, since a refused one
leaves no trace. -/
theorem Holds.foldl_offered (h : registry.Holds held) (offers : List (Offer κ)) :
    ∃ held', (offers.foldl Registry.offered registry).Holds held' := by
  induction offers generalizing registry held with
  | nil => exact ⟨held, h⟩
  | cons offer offers ih =>
    obtain ⟨held', hheld'⟩ := h.offered offer
    exact ih hheld'

/-- What holds of a registry at all times. -/
structure Consistent (registry : Registry κ) : Prop where
  names : registry.names.Nodup
  capabilities : (registry.actionNames ++ registry.senseNames).Nodup
  disjoint : ∀ name, registry.action? name = none ∨ registry.sense? name = none
  owned : ∀ kind name entry, (registry.table kind).get? name = some entry →
    entry.owner ∈ registry.names
  /-- The owner is told right, whichever look-up succeeds. -/
  owner : ∀ kind name entry, (registry.table kind).get? name = some entry →
    registry.owner? name = some entry.owner ∧ registry.capability? kind name = some entry.call
  ownerless : ∀ name, registry.owner? name = none ↔
    registry.action? name = none ∧ registry.sense? name = none

theorem registered_of_get? {kind : CapabilityKind} {name : String} {entry : Entry κ}
    (h : (registry.table kind).get? name = some entry) : registry.Registered kind name :=
  ⟨entry, NameMap.mem_of_get? h⟩

theorem mem_names_table {kind : CapabilityKind} {name : String} :
    name ∈ (registry.table kind).names ↔ registry.Registered kind name := by
  simp [NameMap.names, Registered]

/-- A registry that holds offers is consistent: each name has one owner, which is among its
behaviours. -/
theorem Holds.consistent (h : registry.Holds held) : registry.Consistent where
  names := by
    rw [Registry.names, h.names]
    exact h.distinct.names
  capabilities := by
    refine (h.ascending .action).nodup_names.append (h.ascending .sense).nodup_names ?_
    intro name haction hsense
    have haction : registry.Registered .action name := mem_names_table.1 haction
    have hsense : registry.Registered .sense name := mem_names_table.1 hsense
    exact CapabilityKind.noConfusion (h.kind_unique haction hsense)
  disjoint := by
    intro name
    by_cases haction : registry.Registered .action name
    · refine .inr (sense?_eq_none.2 fun hsense => ?_)
      exact CapabilityKind.noConfusion (h.kind_unique haction hsense)
    · exact .inl (action?_eq_none.2 haction)
  owned kind name entry hentry := by
    obtain ⟨offer, hoffer, howner, -⟩ := (h.entries kind name entry).1 hentry
    rw [Registry.names, h.names, howner]
    exact List.mem_map_of_mem hoffer
  owner kind name entry hentry := by
    refine ⟨?_, by rw [capability?_eq, hentry, Option.map_some]⟩
    rw [owner?_eq]
    cases kind with
    | action => rw [hentry, Option.map_some, Option.some_or]
    | sense =>
      -- A sense is looked up after the actions, none of which has its name.
      have haction : (registry.table .action).get? name = none :=
        get?_table_eq_none.2 fun haction =>
          CapabilityKind.noConfusion (h.kind_unique haction (registered_of_get? hentry))
      rw [haction, hentry, Option.map_none, Option.none_or, Option.map_some]
  ownerless name := by
    rw [free_iff, owner?_eq_none]

/-! ## In any order -/

namespace Distinct

/-- Whether offers are distinct does not depend on their order. -/
theorem perm (h : Distinct offers) (hperm : offers.Perm offers') : Distinct offers' :=
  ⟨(hperm.map _).nodup_iff.1 h.names, (hperm.flatMap_right _).nodup_iff.1 h.declared⟩

theorem of_append_left (h : Distinct (offers ++ offers')) : Distinct offers := by
  obtain ⟨hnames, hdeclared⟩ := h
  rw [List.map_append] at hnames
  rw [List.flatMap_append] at hdeclared
  exact ⟨hnames.of_append_left, hdeclared.of_append_left⟩

end Distinct

theorem after_forM_cons (offer : Offer κ) (offers : List (Offer κ)) (registry : Registry κ) :
    after ((offer :: offers).forM enroll) registry =
      (after (enroll offer) registry).bind (after (offers.forM enroll)) := by
  have hforM : (offer :: offers).forM enroll = enroll offer >>= fun _ => offers.forM enroll := rfl
  unfold after
  rw [hforM, run_bind]
  rcases (enroll offer).run.run registry with ⟨result, left⟩
  cases result <;> rfl

/-- Behaviours can be registered one after the other if all names differ, also from those in the
registry. -/
theorem after_forM_eq_ok (h : registry.Holds held) :
    after (offers.forM enroll) registry = .ok registry' ↔
      Distinct (held ++ offers) ∧ registry' = offers.foldl grow registry := by
  induction offers generalizing registry held with
  | nil =>
    rw [List.append_nil, List.foldl_nil]
    constructor
    · intro hok
      cases hok
      exact ⟨h.distinct, rfl⟩
    · rintro ⟨-, rfl⟩
      rfl
  | cons offer offers ih =>
    rw [after_forM_cons, List.foldl_cons, List.append_cons]
    cases hregister : after (enroll offer) registry with
    | ok grown =>
      obtain ⟨hadmits, rfl⟩ := after_enroll_eq_ok.1 hregister
      exact ih (h.grow hadmits)
    | error error =>
      -- Two names that are the same stay the same, whatever is behind them.
      have hnot : ¬ Distinct (held ++ [offer] ++ offers) := by
        intro hdistinct
        have hok := after_enroll_eq_ok.2 ⟨h.admits_iff.2 hdistinct.of_append_left, rfl⟩
        cases hregister.symm.trans hok
      simp only [hnot, false_and, iff_false]
      intro hok
      cases hok

/-- A registry that behaviours were added to, all names of which differ, holds them. -/
theorem Holds.foldl_grow (h : registry.Holds held) (hdistinct : Distinct (held ++ offers)) :
    (offers.foldl Registry.grow registry).Holds (held ++ offers) := by
  induction offers generalizing registry held with
  | nil => simpa using h
  | cons offer offers ih =>
    rw [List.append_cons] at hdistinct ⊢
    exact ih (h.grow (h.admits_iff.2 hdistinct.of_append_left)) hdistinct

/-- Offers can be registered together exactly if they are distinct, and the registry is then the
one that they grow in turn. -/
theorem withBehaviours_eq_ok :
    withBehaviours offers = .ok registry ↔
      Distinct offers ∧ registry = offers.foldl grow empty :=
  after_forM_eq_ok holds_empty

/-- The two differ in the order of their behaviours only. -/
structure Agrees (registry registry' : Registry κ) : Prop where
  behaviours : registry.behaviours.Perm registry'.behaviours
  actions : registry.actions = registry'.actions
  senses : registry.senses = registry'.senses
  owner? : ∀ name, registry.owner? name = registry'.owner? name

/-- Registries that hold the same offers, in whatever order, agree on every name. -/
theorem Holds.agrees (h : registry.Holds offers) (h' : registry'.Holds offers')
    (hperm : offers.Perm offers') : registry.Agrees registry' := by
  have hactions : registry.table .action = registry'.table .action := h.table_congr h' hperm
  have hsenses : registry.table .sense = registry'.table .sense := h.table_congr h' hperm
  refine ⟨?_, hactions, hsenses, fun name => by rw [owner?_eq, owner?_eq, hactions, hsenses]⟩
  rw [h.names, h'.names]
  exact hperm.map _

/-- Whatever was offered before, to register a behaviour is all or nothing: it is added as a whole,
or what registering leaves is the registry as it was. No order of the behaviours is better than
another. -/
theorem register_all_or_nothing (offers : List (Offer κ)) (offer : Offer κ) :
    (offerAll offers).Consistent ∧
    (((enroll offer).run.run (offerAll offers)).1 = .ok () ↔ (offerAll offers).Admits offer) ∧
    (((enroll offer).run.run (offerAll offers)).1 = .ok () →
      (offerAll offers).Gains offer (offerAll (offers ++ [offer]))) ∧
    (∀ error, ((enroll offer).run.run (offerAll offers)).1 = .error error →
      offerAll (offers ++ [offer]) = offerAll offers) ∧
    ∀ (offers offers' : List (Offer κ)) (registry : Registry κ), offers.Perm offers' →
      withBehaviours offers = .ok registry →
      ∃ registry', withBehaviours offers' = .ok registry' ∧ registry.Agrees registry' := by
  obtain ⟨held, hheld⟩ := holds_empty.foldl_offered offers
  have hlast : offerAll (offers ++ [offer]) =
      ((enroll offer).run.run (offerAll offers)).2 := by
    rw [offerAll, List.foldl_concat]
    rfl
  -- All parts but the last read off the same two cases, whichever registry it is.
  have hadmitted := (offerAll offers).admitted offer
  refine ⟨hheld.consistent, ?_, ?_, ?_, ?_⟩
  · generalize (enroll offer).run.run (offerAll offers) = run at hadmitted
    obtain ⟨result, left⟩ := run
    cases hadmitted with
    | refused error hnot => simp [hnot]
    | grown hadmits => simp [hadmits]
  · rw [hlast]
    generalize (enroll offer).run.run (offerAll offers) = run at hadmitted
    obtain ⟨result, left⟩ := run
    intro hok
    cases hadmitted with
    | refused error hnot => cases hok
    | grown hadmits => exact hheld.gains hadmits
  · rw [hlast]
    generalize (enroll offer).run.run (offerAll offers) = run at hadmitted
    obtain ⟨result, left⟩ := run
    intro error herror
    cases hadmitted with
    | refused => rfl
    | grown => cases herror
  · intro offers offers' registry hperm hok
    obtain ⟨hdistinct, rfl⟩ := withBehaviours_eq_ok.1 hok
    have hdistinct' := hdistinct.perm hperm
    exact ⟨_, withBehaviours_eq_ok.2 ⟨hdistinct', rfl⟩,
      Holds.agrees (holds_empty.foldl_grow hdistinct) (holds_empty.foldl_grow hdistinct') hperm⟩

/-- The second behaviour is refused for its last name, and none of its actions is added. -/
example :
    offerAll [⟨"Body", [("walk", 1)], [("tired", 2)]⟩, ⟨"Legs", [("run", 3), ("tired", 4)], []⟩,
        ⟨"Mind", [], []⟩] =
      ⟨["Body", "Mind"], ⟨[("walk", ⟨"Body", 1⟩)]⟩, ⟨[("tired", ⟨"Body", 2⟩)]⟩⟩ := by
  decide

end SlipStack.Registry
