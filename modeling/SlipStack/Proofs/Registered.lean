import Mathlib.Data.List.Flatten
import Mathlib.Data.List.Nodup
import Mathlib.Data.List.Pairwise
import SlipStack.Proofs.Data.NameMap
import SlipStack.Registry

/-!
# What registering does

`enroll` looks for a conflict first, which changes nothing (`run_check`), and then adds what the
behaviour brings (`grow`). So all that it comes to is one of two things (`Admitted`): the behaviour
is refused and the registry stays as it was, or the registry has grown by it.

A registry that was put together by registering holds what the behaviours that were not refused
declare (`Registry.Holds`), and no more. So a name stands for one capability at most, of one kind
and with one owner.
-/

namespace SlipStack

/-- Where keys differ, an element is found by its key. -/
theorem find?_key_of_mem {α : Type} {key : α → String} {as : List α}
    (hnodup : (as.map key).Nodup) {a : α} (ha : a ∈ as) : as.find? (key · = key a) = some a := by
  induction as with
  | nil => cases ha
  | cons b as ih =>
    rw [List.map_cons, List.nodup_cons] at hnodup
    rcases List.mem_cons.1 ha with rfl | ha
    · simp
    · have hne : key b ≠ key a := fun heq => hnodup.1 (heq ▸ List.mem_map_of_mem ha)
      simp [hne, ih hnodup.2 ha]

theorem find?_key_eq_none {α : Type} {key : α → String} {as : List α} {name : String}
    (h : name ∉ as.map key) : as.find? (key · = name) = none := by
  rw [List.find?_eq_none]
  intro a ha hkey
  exact h (List.mem_map.2 ⟨a, ha, of_decide_eq_true hkey⟩)

variable {κ : Type}

namespace Offer

/-- What is called for the capabilities of a kind. -/
def calls (offer : Offer κ) : CapabilityKind → List (String × κ)
  | .action => offer.actions
  | .sense => offer.senses

variable {offer : Offer κ} {kind : CapabilityKind} {name : String}

/-- The names that an offer declares are those of its calls, each with its kind. -/
theorem mem_declared :
    (kind, name) ∈ offer.declared ↔ ∃ call, (name, call) ∈ offer.calls kind := by
  cases kind <;> simp [declared, calls]

/-- Where all declared names differ, those of each kind do. -/
theorem nodup_calls (h : (offer.declared.map Prod.snd).Nodup) (kind : CapabilityKind) :
    ((offer.calls kind).map Prod.fst).Nodup := by
  rw [declared, List.map_append, List.map_map, List.map_map] at h
  cases kind with
  | action => exact h.of_append_left
  | sense => exact h.of_append_right

end Offer

namespace Registry

variable {registry : Registry κ} {offer : Offer κ} {kind : CapabilityKind} {name : String}

/-! ## Looking up -/

/-- What is registered of a kind. -/
def table (registry : Registry κ) : CapabilityKind → NameMap (Entry κ)
  | .action => registry.actions
  | .sense => registry.senses

/-- What is called for a capability of a kind. -/
def capability? (registry : Registry κ) : CapabilityKind → String → Option κ
  | .action => registry.action?
  | .sense => registry.sense?

/-- A capability of this kind and name is in the registry. -/
def Registered (registry : Registry κ) (kind : CapabilityKind) (name : String) : Prop :=
  ∃ entry, (name, entry) ∈ (registry.table kind).entries

theorem capability?_eq (registry : Registry κ) (kind : CapabilityKind) (name : String) :
    registry.capability? kind name = ((registry.table kind).get? name).map (·.call) := by
  cases kind <;> rfl

theorem owner?_eq (registry : Registry κ) (name : String) :
    registry.owner? name = (((registry.table .action).get? name).map (·.owner)).or
      (((registry.table .sense).get? name).map (·.owner)) := rfl

/-- A table holds nothing under a name exactly if the name is not registered in that kind. -/
theorem get?_table_eq_none :
    (registry.table kind).get? name = none ↔ ¬ registry.Registered kind name := by
  simp [NameMap.get?_eq_none, NameMap.names, Registered]

/-- No capability is found under a name exactly if none is registered there. -/
theorem capability?_eq_none :
    registry.capability? kind name = none ↔ ¬ registry.Registered kind name := by
  rw [capability?_eq, Option.map_eq_none_iff, get?_table_eq_none]

theorem action?_eq_none :
    registry.action? name = none ↔ ¬ registry.Registered .action name :=
  @capability?_eq_none κ registry .action name

theorem sense?_eq_none :
    registry.sense? name = none ↔ ¬ registry.Registered .sense name :=
  @capability?_eq_none κ registry .sense name

theorem owner?_eq_none :
    registry.owner? name = none ↔ ∀ kind, ¬ registry.Registered kind name := by
  rw [owner?_eq, Option.or_eq_none_iff, Option.map_eq_none_iff, Option.map_eq_none_iff,
    get?_table_eq_none, get?_table_eq_none]
  constructor
  · intro h kind
    cases kind with
    | action => exact h.1
    | sense => exact h.2
  · intro h
    exact ⟨h .action, h .sense⟩

/-! ## Registering -/

/-- A behaviour can be registered: its name is new, and so are the names that it declares, which
differ. -/
structure Admits (registry : Registry κ) (offer : Offer κ) : Prop where
  unknown : offer.name ∉ registry.names
  distinct : (offer.declared.map Prod.snd).Nodup
  free : ∀ name ∈ offer.declared.map Prod.snd,
    registry.action? name = none ∧ registry.sense? name = none

/-- A name is free, as the check before registration sees it, exactly if it is registered in
neither kind. -/
theorem free_iff : (registry.action? name = none ∧ registry.sense? name = none) ↔
    ∀ kind, ¬ registry.Registered kind name := by
  rw [action?_eq_none, sense?_eq_none]
  constructor
  · intro h kind
    cases kind with
    | action => exact h.1
    | sense => exact h.2
  · intro h
    exact ⟨h .action, h .sense⟩

/-- The check of names goes name by name: the first that is taken, in the registry or among those
seen in the same offer, ends it. -/
theorem run_check_cons (owner : String) (seen : List String) (kind : CapabilityKind)
    (name : String) (rest : List (CapabilityKind × String)) (registry : Registry κ) :
    (check owner seen ((kind, name) :: rest)).run.run registry =
      match if seen.contains name then some owner else registry.owner? name with
      | some first => (.error (.duplicateCapability kind name first owner), registry)
      | none => (check owner (name :: seen) rest).run.run registry := by
  rw [check]
  change (match if seen.contains name then some owner else registry.owner? name with
      | some first =>
        (throw (RegistryError.duplicateCapability kind name first owner) : Registering κ Unit)
      | none => check owner (name :: seen) rest).run.run registry = _
  split <;> rfl

/-- To look for a conflict changes nothing, and there is none if the names are new and differ. -/
theorem run_check (owner : String) (seen : List String)
    (declared : List (CapabilityKind × String)) (registry : Registry κ) :
    ((check owner seen declared).run.run registry).2 = registry ∧
      (((check owner seen declared).run.run registry).1 = .ok () ↔
        (declared.map Prod.snd).Nodup ∧ ∀ name ∈ declared.map Prod.snd,
          name ∉ seen ∧ ∀ kind, ¬ registry.Registered kind name) := by
  -- `seen` grows by each name that passes, so the statement is about any of it.
  induction declared generalizing seen with
  | nil =>
    have hrun : (check owner seen []).run.run registry = (.ok (), registry) := rfl
    rw [hrun]
    exact ⟨rfl, by simp⟩
  | cons declaration rest ih =>
    obtain ⟨kind, name⟩ := declaration
    rw [run_check_cons]
    by_cases hseen : name ∈ seen
    · simp [hseen]
    · cases howner : registry.owner? name with
      | some other =>
        have hregistered : ¬ ∀ kind, ¬ registry.Registered kind name := by
          rw [← owner?_eq_none, howner]
          exact Option.some_ne_none other
        simp [hseen, hregistered]
      | none =>
        have hfree := owner?_eq_none.1 howner
        -- For the rest, not to be among those seen means not to be this name either.
        have hseen' : ∀ other ∈ rest.map Prod.snd,
            (other ∉ name :: seen ↔ other ≠ name ∧ other ∉ seen) := by simp
        simp only [List.contains_eq_mem, hseen, decide_false, Bool.false_eq_true, if_false,
          List.map_cons, List.nodup_cons, List.forall_mem_cons]
        refine ⟨(ih (name :: seen)).1, (ih (name :: seen)).2.trans ?_⟩
        constructor
        · rintro ⟨hnodup, hrest⟩
          refine ⟨⟨fun hmem => ?_, hnodup⟩, ⟨not_false, hfree⟩, fun other hother => ?_⟩
          · exact (hrest name hmem).1 List.mem_cons_self
          · exact ⟨((hseen' other hother).1 (hrest other hother).1).2, (hrest other hother).2⟩
        · rintro ⟨⟨hname, hnodup⟩, -, hrest⟩
          refine ⟨hnodup, fun other hother => ⟨?_, (hrest other hother).2⟩⟩
          refine (hseen' other hother).2 ⟨?_, (hrest other hother).1⟩
          rintro rfl
          exact hname hother

/-- The entries that a behaviour brings. -/
def entries (offer : Offer κ) (kind : CapabilityKind) : List (String × Entry κ) :=
  (offer.calls kind).map fun call => (call.1, ⟨offer.name, call.2⟩)

/-- The registry with all that a behaviour brings. -/
def grow (registry : Registry κ) (offer : Offer κ) : Registry κ where
  behaviours := registry.behaviours ++ [offer.name]
  actions := registry.actions.write (entries offer .action)
  senses := registry.senses.write (entries offer .sense)

/-- Adding actions goes through always, and writes them into the table of actions with their
owner. -/
theorem run_addActions (owner : String) (actions : List (String × κ)) (registry : Registry κ) :
    (actions.forM (addAction owner)).run.run registry =
      (.ok (), { registry with
        actions :=
          registry.actions.write (actions.map fun call => (call.1, ⟨owner, call.2⟩)) }) := by
  induction actions generalizing registry with
  | nil => rfl
  | cons action actions ih => exact ih _

/-- Adding senses goes through always, and writes them into the table of senses with their owner.
-/
theorem run_addSenses (owner : String) (senses : List (String × κ)) (registry : Registry κ) :
    (senses.forM (addSense owner)).run.run registry =
      (.ok (), { registry with
        senses := registry.senses.write (senses.map fun call => (call.1, ⟨owner, call.2⟩)) }) := by
  induction senses generalizing registry with
  | nil => rfl
  | cons sense senses ih => exact ih _

/-- All that registering a behaviour comes to. -/
inductive Admitted (registry : Registry κ) (offer : Offer κ) :
    Except RegistryError Unit → Registry κ → Prop
  | refused (error : RegistryError) : ¬ registry.Admits offer →
      Admitted registry offer (.error error) registry
  | grown : registry.Admits offer → Admitted registry offer (.ok ()) (registry.grow offer)

/-- One change after another: an error ends them where they have come to. -/
theorem run_bind {α β : Type} (first : Registering κ α) (next : α → Registering κ β)
    (registry : Registry κ) :
    (first >>= next).run.run registry =
      match first.run.run registry with
      | (.ok a, registry) => (next a).run.run registry
      | (.error e, registry) => (.error e, registry) := by
  change (match first.run.run registry with
    | (result, registry) => (ExceptT.bindCont next result).run registry) = _
  rcases first.run.run registry with ⟨result, registry'⟩
  cases result <;> rfl

/-- Registering an offer is checking it and then writing it: all checks come before the first
write, and if one of them fails nothing has been written. -/
theorem run_enroll (registry : Registry κ) (offer : Offer κ) :
    (enroll offer).run.run registry =
      if registry.behaviours.contains offer.name then
        (.error (.duplicateBehaviour offer.name), registry)
      else
        match (check offer.name [] offer.declared).run.run registry with
        | (.ok _, registry) => (.ok (), registry.grow offer)
        | (.error e, registry) => (.error e, registry) := by
  unfold enroll
  rw [run_bind]
  change (if registry.behaviours.contains offer.name then _ else _ : Registering κ Unit).run.run
    registry = _
  split
  · rfl
  · simp only [run_bind, run_addActions, run_addSenses]
    rcases (check offer.name [] offer.declared).run.run registry with ⟨result, registry'⟩
    cases result <;> rfl

/-- A behaviour is refused or added as a whole. -/
theorem admitted (registry : Registry κ) (offer : Offer κ) :
    registry.Admitted offer ((enroll offer).run.run registry).1
      ((enroll offer).run.run registry).2 := by
  obtain ⟨hkeeps, hok⟩ := run_check offer.name [] offer.declared registry
  rw [run_enroll]
  by_cases hname : offer.name ∈ registry.behaviours
  · rw [if_pos (by simpa using hname)]
    exact .refused _ fun hadmits => hadmits.unknown hname
  · rw [if_neg (by simpa using hname)]
    rcases hcheck : (check offer.name [] offer.declared).run.run registry with ⟨result, registry'⟩
    rw [hcheck] at hkeeps hok
    dsimp only at hkeeps hok ⊢
    subst hkeeps
    cases result with
    | ok done =>
      obtain ⟨hnodup, hfree⟩ := hok.1 rfl
      exact .grown ⟨hname, hnodup, fun name hmem => free_iff.2 (hfree name hmem).2⟩
    | error e =>
      refine .refused e fun hadmits => ?_
      have hnone := hok.2 ⟨hadmits.distinct, fun name hmem =>
        ⟨List.not_mem_nil, free_iff.1 (hadmits.free name hmem)⟩⟩
      cases hnone

/-- An offer is registered exactly if the registry admits it, and then the registry has grown by
it. -/
theorem after_enroll_eq_ok {registry' : Registry κ} :
    after (enroll offer) registry = .ok registry' ↔
      registry.Admits offer ∧ registry' = registry.grow offer := by
  have hadmitted := registry.admitted offer
  unfold after
  generalize (enroll offer).run.run registry = run at hadmitted ⊢
  obtain ⟨result, left⟩ := run
  cases hadmitted with
  | refused error hnot => simp [Except.map, hnot]
  | grown hadmits =>
    simp only [Except.map, Except.ok.injEq, hadmits, true_and]
    exact eq_comm

/-! ## What a registry holds -/

@[simp]
theorem table_empty (kind : CapabilityKind) : (empty : Registry κ).table kind = .empty := by
  cases kind <;> rfl

theorem table_grow (registry : Registry κ) (offer : Offer κ) (kind : CapabilityKind) :
    (registry.grow offer).table kind = (registry.table kind).write (entries offer kind) := by
  cases kind <;> rfl

/-- Where the declared names differ, a behaviour brings one entry for each. -/
theorem get?_entries (hdistinct : (offer.declared.map Prod.snd).Nodup) {entry : Entry κ} :
    (NameMap.ofEntries (entries offer kind)).get? name = some entry ↔
      entry.owner = offer.name ∧ (name, entry.call) ∈ offer.calls kind := by
  have hnodup : ((entries offer kind).map Prod.fst).Nodup := by
    rw [entries, List.map_map]
    exact Offer.nodup_calls hdistinct kind
  obtain ⟨owner, call⟩ := entry
  rw [NameMap.get?_ofEntries hnodup, entries, List.mem_map]
  constructor
  · rintro ⟨_, hmem, heq⟩
    cases heq
    exact ⟨rfl, hmem⟩
  · rintro ⟨rfl, hmem⟩
    exact ⟨_, hmem, rfl⟩

/-- The names of the behaviours differ, and so do all the names that they declare. -/
structure Distinct (offers : List (Offer κ)) : Prop where
  names : (offers.map (·.name)).Nodup
  declared : (offers.flatMap fun offer => offer.declared.map Prod.snd).Nodup

/-- The registry holds what the behaviours, which are distinct, declare, and nothing else. -/
structure Holds (registry : Registry κ) (offers : List (Offer κ)) : Prop where
  names : registry.behaviours = offers.map (·.name)
  ascending : ∀ kind, (registry.table kind).Ascending
  entries : ∀ kind name entry, (registry.table kind).get? name = some entry ↔
    ∃ offer ∈ offers, entry.owner = offer.name ∧ (name, entry.call) ∈ offer.calls kind
  distinct : Distinct offers

variable {offers : List (Offer κ)}

theorem holds_empty : (empty : Registry κ).Holds [] where
  names := rfl
  ascending kind := by
    rw [table_empty]
    exact NameMap.ascending_empty
  entries kind name entry := by simp
  distinct := ⟨List.nodup_nil, List.nodup_nil⟩

namespace Holds

/-- A name is registered if a behaviour declares it. -/
theorem registered_iff (h : registry.Holds offers) :
    registry.Registered kind name ↔ ∃ offer ∈ offers, (kind, name) ∈ offer.declared := by
  have hsome : registry.Registered kind name ↔
      ∃ entry, (registry.table kind).get? name = some entry := by
    rw [← Option.isSome_iff_exists, ← not_iff_not, ← get?_table_eq_none,
      Option.not_isSome_iff_eq_none]
  simp only [hsome, h.entries, Offer.mem_declared]
  constructor
  · rintro ⟨entry, offer, hoffer, -, hcall⟩
    exact ⟨offer, hoffer, entry.call, hcall⟩
  · rintro ⟨offer, hoffer, call, hcall⟩
    exact ⟨⟨offer.name, call⟩, offer, hoffer, rfl, hcall⟩

/-- A behaviour is admitted if all names are still different with it. -/
theorem admits_iff (h : registry.Holds offers) :
    registry.Admits offer ↔ Distinct (offers ++ [offer]) := by
  constructor
  · -- What is new is apart from what is held: its name by `unknown`, its capabilities by `free`.
    intro hadmits
    constructor
    · rw [List.map_append]
      refine h.distinct.names.append (List.nodup_singleton _) ?_
      rw [← h.names]
      exact List.disjoint_singleton.2 hadmits.unknown
    · rw [List.flatMap_append, List.flatMap_singleton]
      refine h.distinct.declared.append hadmits.distinct fun name hold hnew => ?_
      obtain ⟨other, hother, hname⟩ := List.mem_flatMap.1 hold
      obtain ⟨⟨kind, _⟩, hdeclared, rfl⟩ := List.mem_map.1 hname
      exact free_iff.1 (hadmits.free _ hnew) kind (h.registered_iff.2 ⟨other, hother, hdeclared⟩)
  · intro hnodup
    obtain ⟨hnames, hdeclared⟩ := hnodup
    rw [List.map_append] at hnames
    rw [List.flatMap_append, List.flatMap_singleton] at hdeclared
    refine ⟨?_, hdeclared.of_append_right, fun name hname => free_iff.2 fun kind hregistered => ?_⟩
    · rw [Registry.names, h.names]
      exact List.disjoint_singleton.1 (List.disjoint_of_nodup_append hnames)
    · obtain ⟨other, hother, hmem⟩ := h.registered_iff.1 hregistered
      refine List.disjoint_of_nodup_append hdeclared ?_ hname
      exact List.mem_flatMap_of_mem hother (List.mem_map_of_mem hmem)

/-- With one more behaviour the registry holds that too. -/
theorem grow (h : registry.Holds offers) (hadmits : registry.Admits offer) :
    (registry.grow offer).Holds (offers ++ [offer]) where
  names := by
    rw [Registry.grow, h.names, List.map_append]
    rfl
  ascending kind := by
    rw [table_grow]
    exact (h.ascending kind).write _
  entries kind name entry := by
    rw [table_grow, NameMap.get?_write, Option.or_eq_some_iff, get?_entries hadmits.distinct,
      h.entries]
    constructor
    · rintro (⟨howner, hcall⟩ | ⟨-, other, hother, howner, hcall⟩)
      · exact ⟨offer, by simp, howner, hcall⟩
      · exact ⟨other, List.mem_append_left _ hother, howner, hcall⟩
    · rintro ⟨other, hother, howner, hcall⟩
      rcases List.mem_append.1 hother with hold | hnew
      · -- What was there before is not put in the place of another entry.
        refine .inr ⟨?_, other, hold, howner, hcall⟩
        rw [Option.eq_none_iff_forall_ne_some]
        intro new hnew
        have hdeclared := Offer.mem_declared.2 ⟨_, ((get?_entries hadmits.distinct).1 hnew).2⟩
        have hfree := free_iff.1 (hadmits.free name (List.mem_map_of_mem hdeclared)) kind
        exact hfree (h.registered_iff.2 ⟨other, hold, Offer.mem_declared.2 ⟨_, hcall⟩⟩)
      · obtain rfl := List.mem_singleton.1 hnew
        exact .inl ⟨howner, hcall⟩
  distinct := h.admits_iff.1 hadmits

/-- A name is registered as one kind of capability at most. -/
theorem kind_unique (h : registry.Holds offers) {kind' : CapabilityKind}
    (hkind : registry.Registered kind name) (hkind' : registry.Registered kind' name) :
    kind' = kind := by
  obtain ⟨first, hfirst, hdeclared⟩ := h.registered_iff.1 hkind
  obtain ⟨second, hsecond, hdeclared'⟩ := h.registered_iff.1 hkind'
  have hname : name ∈ first.declared.map Prod.snd := List.mem_map_of_mem hdeclared
  have hname' : name ∈ second.declared.map Prod.snd := List.mem_map_of_mem hdeclared'
  obtain ⟨hwithin, hbetween⟩ := List.nodup_flatMap.1 h.distinct.declared
  have hsame : second = first := by
    by_contra hne
    have hsymm : Std.Symm fun first second : Offer κ =>
        (first.declared.map Prod.snd).Disjoint (second.declared.map Prod.snd) :=
      ⟨fun _ _ => List.disjoint_symm⟩
    exact hbetween.forall hsecond hfirst hne hname' hname
  subst hsame
  have hpair := List.inj_on_of_nodup_map (hwithin second hsecond) hdeclared' hdeclared rfl
  exact congrArg Prod.fst hpair

/-- Registries that hold the same behaviours, in whatever order, have the same entries. -/
theorem table_congr {registry' : Registry κ} {offers' : List (Offer κ)}
    (h : registry.Holds offers) (h' : registry'.Holds offers') (hperm : offers.Perm offers') :
    registry.table kind = registry'.table kind := by
  refine (h.ascending kind).ext (h'.ascending kind) fun name => ?_
  ext entry
  rw [h.entries, h'.entries]
  exact exists_congr fun offer => and_congr_left fun _ => hperm.mem_iff

end Holds

/-! ## What a name is bound to -/

section Bound

variable {registry registry' : Registry} {capability other : Capability} {kind' : CapabilityKind}

/-- The capability is registered under its own name, for its owner. -/
def Provides (registry : Registry) (kind : CapabilityKind) (capability : Capability) : Prop :=
  (capability.name, ⟨capability.owner, capability⟩) ∈ (registry.table kind).entries

/-- The capability is the one, of either kind, that the name is registered for. -/
structure Binds (registry : Registry) (kind : CapabilityKind) (name : String)
    (capability : Capability) : Prop where
  name_eq : capability.name = name
  provides : registry.Provides kind capability
  unique : ∀ kind' other, registry.Provides kind' other → other.name = name →
    kind' = kind ∧ other = capability

/-- What is provided as a capability is registered under its name. -/
theorem Provides.registered (h : registry.Provides kind capability) :
    registry.Registered kind capability.name :=
  ⟨_, h⟩

theorem Binds.registered (h : registry.Binds kind name capability) :
    registry.Registered kind name :=
  h.name_eq ▸ h.provides.registered

/-- A name is bound to one capability at most, in one kind at most. -/
theorem Binds.eq (h : registry.Binds kind name capability)
    (h' : registry.Binds kind' name other) : kind' = kind ∧ other = capability :=
  h.unique kind' other h'.provides h'.name_eq

/-- A behaviour is registered exactly if the registry admits what it offers. -/
theorem register_eq_ok {behaviour : Behaviour} :
    registry.register behaviour = .ok registry' ↔
      registry.Admits behaviour.offer ∧ registry' = registry.grow behaviour.offer :=
  after_enroll_eq_ok

/-- The registry comes from the empty one by registering. -/
inductive Reached : Registry → Prop
  | empty : Reached .empty
  | register {registry registry' : Registry} {behaviour : Behaviour} :
      Reached registry → registry.register behaviour = .ok registry' → Reached registry'

namespace Reached

/-- It holds what those behaviours declare. -/
theorem exists_holds (h : registry.Reached) :
    ∃ behaviours : List Behaviour, registry.Holds (behaviours.map Behaviour.offer) := by
  induction h with
  | empty => exact ⟨[], holds_empty⟩
  | @register registry registry' behaviour _ hregister ih =>
    obtain ⟨behaviours, hholds⟩ := ih
    obtain ⟨hadmits, rfl⟩ := register_eq_ok.1 hregister
    refine ⟨behaviours ++ [behaviour], ?_⟩
    rw [List.map_append]
    exact hholds.grow hadmits

/-- What is called for a name is the capability of this name, of the owner of the entry. -/
theorem call_eq (h : registry.Reached) {entry : Entry Capability}
    (hentry : (registry.table kind).get? name = some entry) :
    entry.call = ⟨entry.owner, name⟩ := by
  obtain ⟨behaviours, hholds⟩ := h.exists_holds
  obtain ⟨offer, hoffer, howner, hcall⟩ := (hholds.entries kind name entry).1 hentry
  obtain ⟨behaviour, -, rfl⟩ := List.mem_map.1 hoffer
  rw [howner]
  cases kind with
  | action | sense =>
    obtain ⟨_, -, heq⟩ := List.mem_map.1 hcall
    obtain ⟨rfl, hsame⟩ := Prod.mk.inj heq
    exact hsame.symm

/-- In a registry that can be reached, what is found under a name is a capability of that name. -/
theorem provides_of_capability? (h : registry.Reached)
    (hfound : registry.capability? kind name = some capability) :
    capability.name = name ∧ registry.Provides kind capability := by
  rw [capability?_eq] at hfound
  obtain ⟨entry, hentry, rfl⟩ := Option.map_eq_some_iff.1 hfound
  have hcall := h.call_eq hentry
  obtain ⟨owner, call⟩ := entry
  dsimp only at hcall ⊢
  subst hcall
  exact ⟨rfl, NameMap.mem_of_get? hentry⟩

/-- A name is registered for one capability at most. -/
theorem unique (h : registry.Reached) (hcapability : registry.Provides kind capability)
    (hother : registry.Provides kind' other) (hname : other.name = capability.name) :
    kind' = kind ∧ other = capability := by
  obtain ⟨behaviours, hholds⟩ := h.exists_holds
  obtain rfl := hholds.kind_unique hcapability.registered (hname ▸ hother.registered)
  have hentry := (hholds.ascending kind').get?_eq_some.2 hcapability
  have hentry' := (hholds.ascending kind').get?_eq_some.2 hother
  rw [hname, hentry] at hentry'
  exact ⟨rfl, (congrArg Entry.call (Option.some.inj hentry')).symm⟩

/-- To look a name up gives the capability that the name is bound to. -/
theorem capability?_eq_some (h : registry.Reached) :
    registry.capability? kind name = some capability ↔ registry.Binds kind name capability := by
  constructor
  · intro hfound
    obtain ⟨rfl, hprovides⟩ := h.provides_of_capability? hfound
    exact ⟨rfl, hprovides, fun kind' other hother hname => h.unique hprovides hother hname⟩
  · intro hbinds
    cases hfound : registry.capability? kind name with
    | none => exact absurd hbinds.registered (capability?_eq_none.1 hfound)
    | some found =>
      obtain ⟨hname, hprovides⟩ := h.provides_of_capability? hfound
      rw [(hbinds.unique kind found hprovides hname).2]

theorem action?_eq_some (h : registry.Reached) :
    registry.action? name = some capability ↔ registry.Binds .action name capability :=
  @capability?_eq_some .action name registry capability h

theorem sense?_eq_some (h : registry.Reached) :
    registry.sense? name = some capability ↔ registry.Binds .sense name capability :=
  @capability?_eq_some .sense name registry capability h

/-- In a registry that can be reached, a name is bound exactly if it is registered. -/
theorem exists_binds (h : registry.Reached) :
    (∃ capability, registry.Binds kind name capability) ↔ registry.Registered kind name := by
  simp only [← h.capability?_eq_some, ← Option.isSome_iff_exists]
  rw [← not_iff_not, Option.not_isSome_iff_eq_none, capability?_eq_none]

end Reached

end Bound

end Registry

end SlipStack
