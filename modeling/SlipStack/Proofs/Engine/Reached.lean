import SlipStack.Engine.Run
import SlipStack.Proofs.Engine.Built

/-!
# The agents that can be reached

From a built agent others are reached by steps, in any world, by resets and by changes of
the clock (`Agent.Reaches`). Runs are made of these (`Agent.Reaches.run`).

All of them keep what the built one has (`Agent.KeptBy`): they have its library, goal and drive
elements, and every drive element is sound.
-/

namespace SlipStack.Engine

/-- What every step keeps holds of what a run leaves. -/
theorem Run.proceed_invariant {ω ε α : Type} {step : α → ω → Except ε Outcome × α × ω}
    {time : α → Int} {stopOnLost : Bool} {p : α → Prop}
    (hstep : ∀ agent w, p agent → p (step agent w).2.1) {remaining : Nat} {tally : Tally}
    {reports : List Report} {agent : α} {w : ω} (h : p agent) :
    p (proceed step time stopOnLost remaining tally reports agent w).agent := by
  induction remaining generalizing tally reports agent w with
  | zero => exact h
  | succ remaining ih =>
    have hafter := hstep agent w h
    rw [Run.proceed]
    split
    · rename_i hresult
      rw [hresult] at hafter
      exact hafter
    · rename_i hresult
      rw [hresult] at hafter
      dsimp only
      split
      · exact hafter
      · exact ih hafter

namespace Agent

/-- The second agent comes from the first by steps, in any world and any state of it, by resets
and by changes of the clock. -/
inductive Reaches (start : Agent) : Agent → Prop
  | start : Reaches start start
  | step {ω ε : Type} {agent : Agent} (world : World ω ε) (w : ω) :
      Reaches start agent → Reaches start (agent.step world w).2.1
  | reset {agent : Agent} : Reaches start agent → Reaches start agent.reset
  | setClock {agent : Agent} (clock : Clock) :
      Reaches start agent → Reaches start (agent.setClock clock)
  | setDiscipline {agent : Agent} (discipline : Discipline) :
      Reaches start agent → Reaches start (agent.setDiscipline discipline)

/-- A run is a new clock and then steps, each from an agent that can be reached. If the
configuration is not valid it is nothing at all. -/
theorem Reaches.run {start : Agent} {ω ε : Type} (world : World ω ε) (config : Config)
    {agent : Agent} (w : ω) (h : start.Reaches agent) :
    start.Reaches (agent.run world config w).agent := by
  rw [Agent.run]
  split
  · exact h
  · exact Run.proceed_invariant (fun _ w hagent => hagent.step world w) (h.setClock _)

/-! ## What all of them share -/

/-- The agent is the built one after some use: what was built is the same, and every drive element
is sound. -/
structure KeptBy (built agent : Agent) : Prop where
  name : agent.name = built.name
  library : agent.library = built.library
  goal : agent.goal = built.goal
  unused : agent.levels.map (fun level => level.map (Drive.unused built.library)) = built.levels
  sound : ∀ level ∈ agent.levels, ∀ drive ∈ level, drive.Sound built.library

/-- An agent as built keeps what was built, and all its drive elements are sound, as none of them
has moved. -/
theorem AsBuilt.keptBy {built : Agent} (h : built.AsBuilt) : built.KeptBy built := by
  refine ⟨rfl, rfl, rfl, ?_, ?_⟩
  · have hlevel : ∀ level ∈ built.levels, level.map (Drive.unused built.library) = id level := by
      intro level hlevel
      rw [List.map_congr_left (h.unused level hlevel), List.map_id', id]
    rw [List.map_congr_left hlevel, List.map_id]
  · intro level hlevel drive hdrive
    rw [← h.unused level hlevel drive hdrive]
    exact Drive.fresh_sound _ _ _ _ _

end Agent

section Evaluated

variable {ε : Type} {library : Library} {now : Int} {levels levels' : List (List Drive)}
  {result : Except ε Outcome}

/-- What evaluations change is only use: without it, the drive elements are the same before and
after. -/
theorem Evaluated.unused_eq (h : Evaluated library now levels result levels') :
    levels'.map (fun level => level.map (Drive.unused library)) =
      levels.map (fun level => level.map (Drive.unused library)) := by
  cases h with
  | goalFailed | won | lost => rfl
  | followed htried | failed htried =>
    simp only [List.map_append, List.map_cons, htried.unused_eq]

/-- What trying a drive element preserves holds of all after an evaluation. -/
theorem Evaluated.forall_drives {p : Drive → Prop}
    (hp : ∀ drive drive' (tried : Except ε (Option Unit)),
      drive.Tried library now tried drive' → p drive → p drive')
    (h : Evaluated library now levels result levels')
    (hlevels : ∀ level ∈ levels, ∀ drive ∈ level, p drive) :
    ∀ level ∈ levels', ∀ drive ∈ level, p drive := by
  cases h with
  | goalFailed | won | lost => exact hlevels
  | followed htried | failed htried =>
    simp only [List.forall_mem_append, List.forall_mem_cons] at hlevels ⊢
    obtain ⟨habove, ⟨hbefore, hdrive, hafter⟩, hbelow⟩ := hlevels
    exact ⟨habove, ⟨hbefore, hp _ _ _ htried hdrive, hafter⟩, hbelow⟩

/-- An evaluation leaves sound drive elements sound, with the one that was fired moved to a node
that its own node leads to. -/
theorem Evaluated.sound (hlast : library.CompetencesLast)
    (h : Evaluated library now levels result levels')
    (hsound : ∀ level ∈ levels, ∀ drive ∈ level, drive.Sound library) :
    ∀ level ∈ levels', ∀ drive ∈ level, drive.Sound library :=
  h.forall_drives (fun _ _ _ htried hdrive => hdrive.tried hlast htried) hsound

end Evaluated

namespace Agent

variable {built agent : Agent}

/-- A step keeps what was built, whatever it gives and in whichever world. -/
theorem KeptBy.step (hlast : built.library.CompetencesLast) (h : built.KeptBy agent) {ω ε : Type}
    {world : World ω ε} {w w' : ω} {agent' : Agent} {result : Except ε Outcome}
    (hstep : agent.step world w = (result, agent', w')) : built.KeptBy agent' := by
  have hevaluated := step_evaluated hstep
  rw [h.library] at hevaluated
  rw [step_eq hstep]
  exact ⟨h.name, h.library, h.goal, hevaluated.unused_eq.trans h.unused,
    hevaluated.sound hlast h.sound⟩

theorem KeptBy.reset (h : built.KeptBy agent) : built.KeptBy agent.reset := by
  refine ⟨h.name, h.library, h.goal, ?_, ?_⟩
  · rw [Agent.reset, ← h.unused, map_levels_map]
    rfl
  · intro level hlevel drive hdrive
    rw [Agent.reset] at hlevel
    obtain ⟨level₀, hlevel₀, rfl⟩ := List.mem_map.1 hlevel
    obtain ⟨drive₀, hdrive₀, rfl⟩ := List.mem_map.1 hdrive
    exact (h.sound level₀ hlevel₀ drive₀ hdrive₀).reset

theorem KeptBy.setClock (h : built.KeptBy agent) (clock : Clock) :
    built.KeptBy (agent.setClock clock) :=
  ⟨h.name, h.library, h.goal, h.unused, h.sound⟩

/-- Every agent that can be reached keeps what was built: by induction on how it was reached, with
one lemma for each kind of move. -/
theorem Reaches.keptBy (hbuilt : built.AsBuilt) (h : built.Reaches agent) :
    built.KeptBy agent := by
  induction h with
  | start => exact hbuilt.keptBy
  | step world w _ ih => exact ih.step hbuilt.competencesLast rfl
  | reset _ ih => exact ih.reset
  | setClock clock _ ih => exact ih.setClock clock
  | @setDiscipline agent discipline _ ih =>
    exact ⟨ih.name, ih.library, ih.goal, ih.unused, ih.sound⟩

/-- What holds of the drive elements of a built agent, and is preserved when a sound one is
tried or reset, holds of all drive elements of all agents that are reached. -/
theorem Reaches.forall_drives (hbuilt : built.AsBuilt) {p : Drive → Prop}
    (hstart : ∀ level ∈ built.levels, ∀ drive ∈ level, p drive)
    (htried : ∀ {ε : Type} {now : Int} (drive drive' : Drive) (result : Except ε (Option Unit)),
      drive.Sound built.library → drive.Tried built.library now result drive' →
        p drive → p drive')
    (hreset : ∀ drive : Drive, drive.Sound built.library → p drive → p drive.reset)
    (h : built.Reaches agent) : ∀ level ∈ agent.levels, ∀ drive ∈ level, p drive := by
  induction h with
  | start => exact hstart
  | @step ω ε agent world w hreaches ih =>
    have hkept := hreaches.keptBy hbuilt
    rcases hstep : agent.step world w with ⟨outcome, agent', w'⟩
    have hevaluated := step_evaluated hstep
    rw [hkept.library] at hevaluated
    -- Soundness goes along, since the hypothesis on attempts needs it of every drive element.
    have hboth : ∀ level ∈ agent.levels, ∀ drive ∈ level,
        drive.Sound built.library ∧ p drive :=
      fun level hlevel drive hdrive =>
        ⟨hkept.sound level hlevel drive hdrive, ih level hlevel drive hdrive⟩
    have hafter := hevaluated.forall_drives (fun drive drive' result htry hdrive =>
      ⟨hdrive.1.tried hbuilt.competencesLast htry,
        htried drive drive' result hdrive.1 htry hdrive.2⟩) hboth
    exact fun level hlevel drive hdrive => (hafter level hlevel drive hdrive).2
  | @reset agent hreaches ih =>
    have hsound := (hreaches.keptBy hbuilt).sound
    intro level hlevel drive hdrive
    rw [Agent.reset] at hlevel
    obtain ⟨level₀, hlevel₀, rfl⟩ := List.mem_map.1 hlevel
    obtain ⟨drive₀, hdrive₀, rfl⟩ := List.mem_map.1 hdrive
    exact hreset drive₀ (hsound level₀ hlevel₀ drive₀ hdrive₀) (ih level₀ hlevel₀ drive₀ hdrive₀)
  | setClock clock _ ih => exact ih
  | setDiscipline discipline _ ih => exact ih

end Agent

end SlipStack.Engine
