import SlipStack.Data.NameMap

/-!
# Registered behaviours

A behaviour provides actions and senses under one name. Plans name actions and senses
without their owner, so all names of capabilities share one space: a `Registry` takes no
behaviour twice and no capability name twice, be it as action or as sense. It keeps the names of
the behaviours, and what is called for each action and each sense in a map of its own.

Registering changes the registry in place (`Registering`). `enroll` checks all names before it adds
anything; nothing takes back what was added, so that it is this order which makes a refused
behaviour leave no trace.
-/

namespace SlipStack

/-- An action or sense under the name of the behaviour that provides it. -/
structure Capability where
  owner : String
  name : String
  deriving DecidableEq, Repr

/-- The name with its owner in front. -/
def Capability.qualified (capability : Capability) : String :=
  capability.owner ++ "." ++ capability.name

/-- The two kinds of capability. -/
inductive CapabilityKind where
  | action
  | sense
  deriving DecidableEq, Repr

def CapabilityKind.toText : CapabilityKind → String
  | .action => "action"
  | .sense => "sense"

/-- What a behaviour provides, each kind in the order of declaration. -/
structure Behaviour where
  name : String
  actions : List String
  senses : List String
  deriving DecidableEq, Repr

/-- Why a behaviour is refused. -/
inductive RegistryError where
  | duplicateBehaviour (name : String)
  | duplicateCapability (kind : CapabilityKind) (name first second : String)
  deriving DecidableEq, Repr

def RegistryError.message : RegistryError → String
  | .duplicateBehaviour name => s!"behaviour '{name}' cannot be registered twice"
  | .duplicateCapability kind name first second =>
    s!"{kind.toText} '{name}' registered twice: by '{first}' and '{second}'"

/-- Something to call, and the behaviour that owns it. -/
structure Entry (κ : Type) where
  owner : String
  call : κ
  deriving DecidableEq, Repr

/-- The registered behaviours, in the order of registration, and what they provide. -/
structure Registry (κ : Type := Capability) where
  behaviours : List String
  actions : NameMap (Entry κ)
  senses : NameMap (Entry κ)
  deriving DecidableEq, Repr

/-- A behaviour as it is registered: with what is called for each action and each sense. -/
structure Offer (κ : Type) where
  name : String
  actions : List (String × κ)
  senses : List (String × κ)
  deriving DecidableEq, Repr

/-- What a world calls for the capabilities of a behaviour. -/
def Behaviour.offer (behaviour : Behaviour) : Offer Capability where
  name := behaviour.name
  actions := behaviour.actions.map fun name => (name, ⟨behaviour.name, name⟩)
  senses := behaviour.senses.map fun name => (name, ⟨behaviour.name, name⟩)

variable {κ : Type}

/-- Everything that is declared, actions first. -/
def Offer.declared (offer : Offer κ) : List (CapabilityKind × String) :=
  offer.actions.map (fun action => (.action, action.1)) ++
    offer.senses.map fun sense => (.sense, sense.1)

namespace Registry

/-- The registry without behaviours. -/
def empty : Registry κ := ⟨[], .empty, .empty⟩

/-! ## Looking up -/

/-- What is called for an action. -/
def action? (registry : Registry κ) (name : String) : Option κ :=
  (registry.actions.get? name).map (·.call)

/-- What is called to read a sense. -/
def sense? (registry : Registry κ) (name : String) : Option κ :=
  (registry.senses.get? name).map (·.call)

/-- The behaviour that provides a capability of either kind. -/
def owner? (registry : Registry κ) (name : String) : Option String :=
  ((registry.actions.get? name).map (·.owner)).or ((registry.senses.get? name).map (·.owner))

/-- The names of the behaviours, in the order of registration. -/
def names (registry : Registry κ) : List String :=
  registry.behaviours

/-- The names of all actions, in ascending order. -/
def actionNames (registry : Registry κ) : List String :=
  registry.actions.names

/-- The names of all senses, in ascending order. -/
def senseNames (registry : Registry κ) : List String :=
  registry.senses.names

end Registry

/-! ## Registering -/

/-- Changes to a registry. What was changed before an error stays changed. -/
abbrev Registering (κ : Type) := ExceptT RegistryError (StateM (Registry κ))

namespace Registry

/-- Refuses the first declaration whose name is taken, be it by one before it (those in `seen`)
or by a registered capability. A name declared twice is in conflict with the behaviour itself. -/
def check (owner : String) : List String → List (CapabilityKind × String) → Registering κ Unit
  | _, [] => pure ()
  | seen, (kind, name) :: rest => do
    let registry ← get
    match if seen.contains name then some owner else registry.owner? name with
    | some first => throw (.duplicateCapability kind name first owner)
    | none => check owner (name :: seen) rest

/-- Puts an action into the registry, in place of one of the same name. -/
def addAction (owner : String) (action : String × κ) : Registering κ Unit :=
  modify fun registry =>
    { registry with actions := registry.actions.set action.1 ⟨owner, action.2⟩ }

/-- Puts a sense into the registry, in place of one of the same name. -/
def addSense (owner : String) (sense : String × κ) : Registering κ Unit :=
  modify fun registry =>
    { registry with senses := registry.senses.set sense.1 ⟨owner, sense.2⟩ }

/-- Registers a behaviour. -/
def enroll (offer : Offer κ) : Registering κ Unit := do
  let registry ← get
  if registry.behaviours.contains offer.name then
    throw (.duplicateBehaviour offer.name)
  check offer.name [] offer.declared
  offer.actions.forM (addAction offer.name)
  offer.senses.forM (addSense offer.name)
  modify fun registry => { registry with behaviours := registry.behaviours ++ [offer.name] }

/-- What registering gives, started from a registry: the error, or the registry that it leaves. -/
def after (registering : Registering κ Unit) (registry : Registry κ) :
    Except RegistryError (Registry κ) :=
  let (result, registry) := registering.run.run registry
  result.map fun _ => registry

/-- The registry with one more behaviour. -/
def register (registry : Registry) (behaviour : Behaviour) : Except RegistryError Registry :=
  after (enroll behaviour.offer) registry

/-- The registry of the given behaviours, or the first conflict. -/
def withBehaviours (offers : List (Offer κ)) : Except RegistryError (Registry κ) :=
  after (offers.forM enroll) empty

/-- The registry of the given behaviours, or the first conflict. -/
def ofBehaviours (behaviours : List Behaviour) : Except RegistryError Registry :=
  withBehaviours (behaviours.map Behaviour.offer)

end Registry

end SlipStack
