import Mathlib.Data.List.Flatten
import SlipStack.Proofs.Registered
import SlipStack.Script.World

/-!
# What a script describes

A script describes a capability by an action or a sense of the behaviour that owns it
(`Script.HasAction`, `Script.HasSense`). If the script builds (`Script.Built`), the names that
it uses differ, so that the look-ups of its world find what is described and nothing else
(`Built.action?_eq_some`, `Built.sense?_eq_some`), and the registry knows those capabilities
(`Built.exists_action`, `Built.exists_sense`).
-/

namespace SlipStack.Script

/-- The action describes the capability. -/
def HasAction (script : Script) (capability : Capability) (action : Action) : Prop :=
  ∃ behaviour ∈ script.behaviours, action ∈ behaviour.actions ∧
    capability = ⟨behaviour.name, action.name⟩

/-- The sense describes the capability. -/
def HasSense (script : Script) (capability : Capability) (sense : Sense) : Prop :=
  ∃ behaviour ∈ script.behaviours, sense ∈ behaviour.senses ∧
    capability = ⟨behaviour.name, sense.name⟩

/-- All senses of a script. -/
def senses (script : Script) : List Sense :=
  script.behaviours.flatMap (·.senses)

/-- The registry is that of a script that builds. -/
structure Built (script : Script) (registry : Registry) : Prop where
  valid : script.fault? = none
  reached : registry.Reached
  holds : registry.Holds (script.behaviours.map fun behaviour => behaviour.provides.offer)

variable {script : Script} {registry registry' : Registry} {behaviour : Behaviour}
  {capability : Capability} {action : Action} {sense : Sense}

/-! ## Building -/

/-- Registering the behaviours of a script one by one makes a registry that holds what they offer.
-/
theorem register_built {behaviours : List Behaviour} {held : List (Offer Capability)}
    (hreached : registry.Reached) (hholds : registry.Holds held)
    (h : register registry behaviours = .ok registry') :
    registry'.Reached ∧
      registry'.Holds (held ++ behaviours.map fun behaviour => behaviour.provides.offer) := by
  induction behaviours generalizing registry held with
  | nil =>
    cases h
    exact ⟨hreached, by rwa [List.map_nil, List.append_nil]⟩
  | cons behaviour behaviours ih =>
    rw [register] at h
    cases hregister : registry.register behaviour.provides with
    | error e =>
      rw [hregister] at h
      cases h
    | ok grown =>
      rw [hregister] at h
      obtain ⟨hadmits, rfl⟩ := Registry.register_eq_ok.1 hregister
      rw [List.map_cons, List.append_cons]
      exact ih (hreached.register hregister) (hholds.grow hadmits) h

/-- A script whose registry can be made is built: what the registry provides is what the script
describes. -/
theorem built_of_registry (h : script.registry = .ok registry) : script.Built registry := by
  rw [Script.registry] at h
  cases hvalid : script.fault? with
  | some fault =>
    rw [hvalid] at h
    cases h
  | none =>
    rw [hvalid] at h
    obtain ⟨hreached, hholds⟩ := register_built .empty Registry.holds_empty h
    exact ⟨hvalid, hreached, hholds⟩

/-! ## Looking up -/

namespace Built

theorem behaviour?_eq_some (hbuilt : script.Built registry) (h : behaviour ∈ script.behaviours) :
    script.behaviour? behaviour.name = some behaviour := by
  have hnodup := hbuilt.holds.distinct.names
  rw [List.map_map] at hnodup
  exact find?_key_of_mem hnodup h

/-- In a script that builds, no two actions or senses share a name, whichever behaviours they are
in. -/
theorem nodup_declared (hbuilt : script.Built registry) :
    (script.behaviours.flatMap fun behaviour =>
      behaviour.actions.map (·.name) ++ behaviour.senses.map (·.name)).Nodup := by
  have hnodup := hbuilt.holds.distinct.declared
  rw [List.flatMap_map] at hnodup
  simpa [Offer.declared, SlipStack.Behaviour.offer, Behaviour.provides, Function.comp_def]
    using hnodup

theorem nodup_senses (hbuilt : script.Built registry) :
    (script.senses.map (·.name)).Nodup := by
  rw [senses, List.map_flatMap]
  exact hbuilt.nodup_declared.sublist
    (List.Sublist.flatMap_right _ fun _ _ => List.sublist_append_right _ _)

/-- Where the names of the items of each behaviour differ, a look-up finds the item that has the
name of the capability, in the behaviour that owns it. -/
theorem item?_eq_some {α : Type} {items : Behaviour → List α} {name : α → String} {item : α}
    (hbuilt : script.Built registry)
    (hnodup : ∀ behaviour ∈ script.behaviours, ((items behaviour).map name).Nodup) :
    ((script.behaviour? capability.owner).bind fun behaviour =>
        (items behaviour).find? (name · = capability.name)) = some item ↔
      ∃ behaviour ∈ script.behaviours, item ∈ items behaviour ∧
        capability = ⟨behaviour.name, name item⟩ := by
  constructor
  · intro h
    obtain ⟨behaviour, hbehaviour, hitem⟩ := Option.bind_eq_some_iff.1 h
    have howner := List.find?_some hbehaviour
    have hname := List.find?_some hitem
    simp only [decide_eq_true_eq] at howner hname
    refine ⟨behaviour, List.mem_of_find?_eq_some hbehaviour, List.mem_of_find?_eq_some hitem, ?_⟩
    rw [howner, hname]
  · intro h
    obtain ⟨behaviour, hbehaviour, hitem, rfl⟩ := h
    rw [hbuilt.behaviour?_eq_some hbehaviour]
    exact find?_key_of_mem (hnodup behaviour hbehaviour) hitem

/-- The world finds the action that the script describes a capability by. -/
theorem action?_eq_some (hbuilt : script.Built registry) :
    script.action? capability = some action ↔ script.HasAction capability action :=
  hbuilt.item?_eq_some fun behaviour hbehaviour =>
    ((List.nodup_flatMap.1 hbuilt.nodup_declared).1 behaviour hbehaviour).of_append_left

/-- The world finds the sense that the script describes a capability by. -/
theorem sense?_eq_some (hbuilt : script.Built registry) :
    script.sense? capability = some sense ↔ script.HasSense capability sense :=
  hbuilt.item?_eq_some fun behaviour hbehaviour =>
    ((List.nodup_flatMap.1 hbuilt.nodup_declared).1 behaviour hbehaviour).of_append_right

/-- What is registered is called what a behaviour of the script calls it. -/
theorem exists_behaviour (hbuilt : script.Built registry) {kind : CapabilityKind}
    (h : registry.Provides kind capability) :
    ∃ behaviour ∈ script.behaviours, capability.owner = behaviour.name ∧
      (capability.name, capability) ∈ behaviour.provides.offer.calls kind := by
  have hentry := (hbuilt.holds.ascending kind).get?_eq_some.2 h
  obtain ⟨offer, hoffer, howner, hcall⟩ := (hbuilt.holds.entries kind _ _).1 hentry
  obtain ⟨behaviour, hbehaviour, rfl⟩ := List.mem_map.1 hoffer
  exact ⟨behaviour, hbehaviour, howner, hcall⟩

/-- Every action that the registry of a script provides is described in the script. -/
theorem exists_action (hbuilt : script.Built registry)
    (h : registry.Provides .action capability) : ∃ action, script.HasAction capability action := by
  obtain ⟨behaviour, hbehaviour, -, hcall⟩ := hbuilt.exists_behaviour h
  obtain ⟨_, hname, heq⟩ := List.mem_map.1 hcall
  obtain ⟨action, haction, rfl⟩ := List.mem_map.1 hname
  exact ⟨action, behaviour, hbehaviour, haction, (Prod.mk.inj heq).2.symm⟩

/-- Every sense that the registry of a script provides is described in the script. -/
theorem exists_sense (hbuilt : script.Built registry)
    (h : registry.Provides .sense capability) : ∃ sense, script.HasSense capability sense := by
  obtain ⟨behaviour, hbehaviour, -, hcall⟩ := hbuilt.exists_behaviour h
  obtain ⟨_, hname, heq⟩ := List.mem_map.1 hcall
  obtain ⟨sense, hsense, rfl⟩ := List.mem_map.1 hname
  exact ⟨sense, behaviour, hbehaviour, hsense, (Prod.mk.inj heq).2.symm⟩

end Built

end SlipStack.Script
