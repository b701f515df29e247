import SlipStack.Engine.Build
import SlipStack.Proofs.Data.Forall2
import SlipStack.Proofs.Engine.Uses

/-!
# What building establishes

In a built agent (`Agent.AsBuilt`) the patterns name competences in their last steps only, every
drive element is as it is before its first use, and the clock is the one of the plan's pace.
-/

namespace SlipStack.Engine

/-! ## Results that are there -/

section Except

variable {α β ε : Type}

theorem bind_eq_ok {x : Except ε α} {f : α → Except ε β} {b : β} :
    x >>= f = .ok b ↔ ∃ a, x = .ok a ∧ f a = .ok b := by
  cases x with
  | error e => simp [bind, Except.bind]
  | ok a => simp [bind, Except.bind]

theorem map_eq_ok {x : Except ε α} {f : α → β} {b : β} :
    x.map f = .ok b ↔ ∃ a, x = .ok a ∧ f a = b := by
  cases x with
  | error e => simp [Except.map]
  | ok a => simp [Except.map]

theorem mapError_eq_ok {ε' : Type} {x : Except ε α} {f : ε → ε'} {a : α} :
    x.mapError f = .ok a ↔ x = .ok a := by
  cases x with
  | error e => simp [Except.mapError]
  | ok b => simp [Except.mapError]

/-- What `mapM f` collects are the results of `f`, in the same order. -/
theorem mapM_eq_ok {f : α → Except ε β} {as : List α} {bs : List β} :
    as.mapM f = .ok bs ↔ List.Forall₂ (fun a b => f a = .ok b) as bs := by
  induction as generalizing bs with
  | nil => cases bs <;> simp [pure, Except.pure]
  | cons a as ih =>
    rw [List.mapM_cons, bind_eq_ok]
    simp only [bind_eq_ok, ih, List.forall₂_cons_left_iff]
    constructor
    · rintro ⟨b, hb, bs, hbs, h⟩
      cases h
      exact ⟨b, bs, hb, hbs, rfl⟩
    · rintro ⟨b, bs, hb, hbs, rfl⟩
      exact ⟨b, hb, bs, hbs, rfl⟩

/-- What holds of every result of `f` holds of all that `mapM f` collects. -/
theorem forall_of_mapM {f : α → Except ε β} {P : β → Prop} (hf : ∀ a b, f a = .ok b → P b)
    {as : List α} {bs : List β} (h : as.mapM f = .ok bs) : ∀ b ∈ bs, P b :=
  (forall₂_and_right.1 ((mapM_eq_ok.1 h).imp fun a b hb => ⟨hb, hf a b hb⟩)).2

/-- What `mapM f` collects has the features of what it came from, in the same order. -/
theorem map_eq_of_mapM {γ : Type} {f : α → Except ε β} {g : β → γ} {k : α → γ}
    (hf : ∀ a b, f a = .ok b → g b = k a) {as : List α} {bs : List β}
    (h : as.mapM f = .ok bs) : bs.map g = as.map k := by
  symm
  rw [← List.forall₂_eq_eq_eq, List.forall₂_map_left_iff, List.forall₂_map_right_iff]
  exact (mapM_eq_ok.1 h).imp fun a b hb => (hf a b hb).symm

theorem length_eq_of_mapM {f : α → Except ε β} {as : List α} {bs : List β}
    (h : as.mapM f = .ok bs) : bs.length = as.length :=
  (mapM_eq_ok.1 h).length_eq.symm

end Except

/-! ## The library -/

namespace Scope

variable {scope : Scope}

/-- A step given by its name is a competence in the last place only. -/
theorem last_of_namedStep {pattern name next : String} {last : Bool}
    (h : scope.namedStep pattern name last = .ok (.competence next)) : last = true := by
  rw [namedStep] at h
  split at h
  · cases h
  · split at h
    · obtain ⟨capability, _, hstep⟩ := map_eq_ok.1 h
      cases hstep
    · split at h
      · split at h
        · rename_i hlast
          exact hlast
        · cases h
      · split at h <;> cases h

/-- What the builder lets through as steps has a competence only at the end, which the firing of
patterns relies on. -/
theorem steps_competenceLast {pattern : String} {source : List Plan.Step} {steps : List Step}
    (h : scope.steps pattern source = .ok steps) {position : Nat} {next : String}
    (hstep : steps[position]? = some (.competence next)) : position + 1 = steps.length := by
  induction source generalizing steps position with
  | nil =>
    cases h
    cases hstep
  | cons step rest ih =>
    -- The first step, by itself and with what it came from.
    have hsplit : ∃ resolved others, steps = resolved :: others ∧
        scope.steps pattern rest = .ok others ∧
        ∀ name, resolved = .competence name → rest = [] := by
      cases step with
      | sense name value operator =>
        rw [Scope.steps] at h
        obtain ⟨resolved, hresolved, h⟩ := bind_eq_ok.1 h
        obtain ⟨others, hothers, h⟩ := bind_eq_ok.1 h
        obtain ⟨sense, _, rfl⟩ := map_eq_ok.1 hresolved
        cases h
        exact ⟨_, _, rfl, hothers, fun name hname => by cases hname⟩
      | named name =>
        rw [Scope.steps] at h
        obtain ⟨resolved, hresolved, h⟩ := bind_eq_ok.1 h
        obtain ⟨others, hothers, h⟩ := bind_eq_ok.1 h
        cases h
        refine ⟨_, _, rfl, hothers, fun next hnext => ?_⟩
        subst hnext
        exact List.isEmpty_iff.1 (last_of_namedStep hresolved)
    obtain ⟨resolved, others, rfl, hothers, hresolved⟩ := hsplit
    cases position with
    | succ position =>
      rw [List.getElem?_cons_succ] at hstep
      rw [List.length_cons, ih hothers hstep]
    | zero =>
      rw [List.getElem?_cons_zero] at hstep
      obtain rfl := hresolved next (Option.some.inj hstep)
      cases hothers
      rfl

/-- A pattern that has been built has a competence at its last step or at none. -/
theorem pattern_competenceLast {source : Plan.ActionPattern} {pattern : Pattern}
    (h : scope.pattern source = .ok pattern) : pattern.fresh.CompetenceLast := by
  rw [Scope.pattern] at h
  obtain ⟨steps, hsteps, h⟩ := bind_eq_ok.1 h
  cases h
  exact fun position name hstep => steps_competenceLast hsteps hstep

/-- In a library that has been built, every pattern has a competence at its last step or at none.
-/
theorem library_competencesLast {library : Library} (h : scope.library = .ok library) :
    library.CompetencesLast := by
  rw [Scope.library] at h
  obtain ⟨goals, _, h⟩ := bind_eq_ok.1 h
  obtain ⟨competences, _, h⟩ := bind_eq_ok.1 h
  obtain ⟨patterns, hpatterns, h⟩ := bind_eq_ok.1 h
  cases h
  exact forall_of_mapM (fun _ _ => pattern_competenceLast) hpatterns

end Scope

/-! ## The agent -/

/-- The agent is as it is built, before its first step. -/
structure Agent.AsBuilt (agent : Agent) : Prop where
  competencesLast : agent.library.CompetencesLast
  unused : ∀ level ∈ agent.levels, ∀ drive ∈ level, drive.unused agent.library = drive
  clock : agent.clock = .ofDiscipline agent.discipline Pacer.defaultWindow

namespace Scope

variable {scope : Scope}

/-- A drive element comes from the builder unused: no firing behind it, the cursor at home, and
nothing but its root in the tree. -/
theorem drive_unused {library : Library} {source : Plan.DriveElement} {drive : Drive}
    (h : scope.drive library source = .ok drive) : drive.unused library = drive := by
  rw [Scope.drive] at h
  obtain ⟨trigger, _, h⟩ := bind_eq_ok.1 h
  obtain ⟨target, _, h⟩ := bind_eq_ok.1 h
  cases h
  rfl

/-- An agent built from a drive collection is as built: its levels are unused and sound, and its
patterns end in their competences. -/
theorem collection_asBuilt {library : Library} (hlast : library.CompetencesLast)
    {source : Plan.DriveCollection} {agent : Agent}
    (h : scope.collection library source = .ok agent) : agent.AsBuilt := by
  rw [collection] at h
  split at h
  · obtain ⟨discipline, hdiscipline, h⟩ := bind_eq_ok.1 h
    obtain ⟨goal, _, h⟩ := bind_eq_ok.1 h
    obtain ⟨levels, hlevels, h⟩ := bind_eq_ok.1 h
    cases h
    exact ⟨hlast, forall_of_mapM (fun _ _ => forall_of_mapM fun _ _ => drive_unused) hlevels, rfl⟩
  · obtain ⟨discipline, hdiscipline, _⟩ := bind_eq_ok.1 h
    cases hdiscipline

/-- An agent built from a plan without a drive collection is as built too: its one drive element
comes from the same builder. -/
theorem implicitCollection_asBuilt {library : Library} (hlast : library.CompetencesLast)
    {agent : Agent} (h : scope.implicitCollection library = .ok agent) : agent.AsBuilt := by
  rw [implicitCollection] at h
  split at h
  · obtain ⟨root, _, h⟩ := bind_eq_ok.1 h
    obtain ⟨target, _, h⟩ := bind_eq_ok.1 h
    cases h
    refine ⟨hlast, ?_, rfl⟩
    intro level hlevel drive hdrive
    obtain rfl := List.mem_singleton.1 hlevel
    obtain rfl := List.mem_singleton.1 hdrive
    rfl
  · obtain ⟨root, hroot, _⟩ := bind_eq_ok.1 h
    cases hroot

end Scope

/-- Whatever plan and registry it comes from, an agent that has been built is as built. All
invariants of reachable agents start here. -/
theorem build_asBuilt {registry : Registry} {plan : Plan} {built : Agent}
    (h : plan.build registry = .ok built) : built.AsBuilt := by
  rw [Plan.build] at h
  split at h
  · cases h
  · obtain ⟨library, hlibrary, h⟩ := bind_eq_ok.1 h
    have hlast := Scope.library_competencesLast hlibrary
    split at h
    · exact Scope.collection_asBuilt hlast h
    · exact Scope.implicitCollection_asBuilt hlast h

/-! ## An agent that enters itself -/

/-- One competence, whose only element enters the competence again. -/
def wanderPlan : Plan where
  docstring := none
  collection := some
    { tag := "SDC", name := "life", goal := none, levels := [[⟨"roam", none, "wander", none⟩]] }
  competences := [⟨"wander", none, none, [[⟨"further", none, "wander", 2⟩]]⟩]
  patterns := []

def wanderLibrary : Library where
  competences := [⟨"wander", [], [[⟨"further", [], .node (.competence "wander"), 2⟩]]⟩]
  patterns := []

/-- The agent of `wanderPlan`. -/
def wanderer : Agent where
  name := "life"
  discipline := .stepped
  docstring := none
  library := wanderLibrary
  goal := []
  levels := [[.fresh wanderLibrary "roam" [] (.node (.competence "wander")) none]]
  clock := .stepped 0

theorem build_wanderPlan : wanderPlan.build .empty = .ok wanderer := by
  rfl

/-- A world in which nothing ever happens. -/
def idle : World Unit Empty where
  act := fun _ w => (.ok true, w)
  read := fun _ w => (.ok (.bool true), w)

/-- `wanderer` after its first step. -/
def wandering : Agent := (wanderer.step idle ()).2.1

end SlipStack.Engine
