import SlipStack.Proofs.Engine.Folding
import SlipStack.Proofs.Engine.Reliable
import SlipStack.Proofs.Script.Conversation

/-!
# Scripted worlds do not fail

An agent that is built in the world of a script calls nothing but what the script provides: every
name in a plan is bound to a registered capability (`Agent.Mirrors.keeps`). Such calls are
answered as long as the blackboard has what the senses read there, and they take nothing away
from it (`Built.reliable`). So nothing ever fails in the world of a script that builds, however
long the agent is in use and whoever else lives there (`scripted_never_fails`).
-/

namespace SlipStack

open Script (Offered)

/-! ## What the parts of an agent call -/

namespace Engine

variable {registry : Registry} {defines : NodeRef → Bool}

/-- A name bound in the registry of a script is that of a call which the script answers. -/
theorem offered_of_binds (hreached : registry.Reached) {call : Call} {name : String}
    (h : registry.Binds call.kind name call.capability) : Offered registry call := by
  rw [Offered, h.name_eq]
  exact hreached.capability?_eq_some.2 h

section Parts

variable (hreached : registry.Reached)
include hreached

/-- A trigger that was built over the registry reads only senses that the script offers. -/
theorem Trigger.Mirrors.offered {conditions : Option (List Plan.Condition)} {trigger : Trigger}
    (h : Trigger.Mirrors registry conditions trigger) :
    ∀ call ∈ Trigger.calls trigger, Offered registry call := by
  intro call hcall
  obtain ⟨sense, hsense, rfl⟩ := List.mem_map.1 hcall
  obtain ⟨condition, -, hmirrors⟩ := exists_of_mem_forall₂_right h hsense
  cases hmirrors with
  | bare hbinds => exact offered_of_binds hreached hbinds
  | check hbinds => exact offered_of_binds hreached hbinds

theorem Target.Mirrors.offered {name : String} {target : Target}
    (h : Target.Mirrors registry defines name target) :
    ∀ call ∈ target.calls, Offered registry call := by
  cases h with
  | action hbinds => exact List.forall_mem_singleton.2 (offered_of_binds hreached hbinds)
  | node => exact List.forall_mem_nil _

theorem Step.Mirrors.offered {source : Plan.Step} {step : Step}
    (h : Step.Mirrors registry defines source step) :
    ∀ call ∈ step.calls, Offered registry call := by
  cases h with
  | check hbinds => exact List.forall_mem_singleton.2 (offered_of_binds hreached hbinds)
  | sense hbinds => exact List.forall_mem_singleton.2 (offered_of_binds hreached hbinds)
  | action hbinds => exact List.forall_mem_singleton.2 (offered_of_binds hreached hbinds)
  | competence => exact List.forall_mem_nil _

theorem Element.Mirrors.offered {source : Plan.CompetenceElement} {element : Element}
    (h : element.Mirrors registry defines source) :
    ∀ call ∈ element.calls, Offered registry call :=
  List.forall_mem_append.2 ⟨h.trigger.offered hreached, h.target.offered hreached⟩

/-- A competence that was built over the registry calls only what the script offers. -/
theorem Competence.Mirrors.offered {source : Plan.Competence} {competence : Competence}
    (h : competence.Mirrors registry defines source) :
    ∀ call ∈ competence.fresh.calls, Offered registry call := by
  refine List.forall_mem_append.2 ⟨h.goal.offered hreached, fun call hcall => ?_⟩
  obtain ⟨state, hstate, hcall⟩ := List.mem_flatMap.1 hcall
  rw [← List.map_flatten] at hstate
  obtain ⟨element, helement, rfl⟩ := List.mem_map.1 hstate
  obtain ⟨source, -, hmirrors⟩ := exists_of_mem_forall₂_right (List.rel_flatten h.levels) helement
  exact hmirrors.offered hreached call hcall

/-- A pattern that was built over the registry calls only what the script offers. -/
theorem Pattern.Mirrors.offered {source : Plan.ActionPattern} {pattern : Pattern}
    (h : pattern.Mirrors registry defines source) :
    ∀ call ∈ pattern.fresh.calls, Offered registry call := by
  intro call hcall
  obtain ⟨step, hstep, hcall⟩ := List.mem_flatMap.1 hcall
  obtain ⟨source, -, hmirrors⟩ := exists_of_mem_forall₂_right h.steps hstep
  exact hmirrors.offered hreached call hcall

/-- All nodes of a library built over the registry keep to the calls that the script offers. -/
theorem Library.Mirrors.keeps {plan : Plan} {library : Library}
    (h : library.Mirrors registry defines plan) : library.Keeps (Offered registry) := by
  intro ref
  cases ref with
  | competence name =>
    rw [Library.fresh]
    cases hfound : library.competence? name with
    | none => exact List.forall_mem_nil _
    | some competence =>
      obtain ⟨source, -, hmirrors⟩ :=
        exists_of_mem_forall₂_right h.competences (List.mem_of_find?_eq_some hfound)
      exact hmirrors.offered hreached
  | pattern name =>
    rw [Library.fresh]
    cases hfound : library.pattern? name with
    | none => exact List.forall_mem_nil _
    | some pattern =>
      obtain ⟨source, -, hmirrors⟩ :=
        exists_of_mem_forall₂_right h.patterns (List.mem_of_find?_eq_some hfound)
      exact hmirrors.offered hreached

/-- All that an agent calls is registered. -/
theorem Agent.Mirrors.keeps {plan : Plan} {agent : Agent} (h : agent.Mirrors registry plan) :
    agent.Keeps (Offered registry) := by
  obtain ⟨collection, -, -, -, hgoal, hlevels⟩ := h.root
  have hdrive : ∀ level ∈ agent.levels, ∀ drive ∈ level, ∃ source,
      drive.Mirrors registry agent.library source := by
    intro level hlevel drive hdrive
    obtain ⟨sources, -, hmirrors⟩ := exists_of_mem_forall₂_right hlevels hlevel
    obtain ⟨source, -, hmirrors⟩ := exists_of_mem_forall₂_right hmirrors hdrive
    exact ⟨source, hmirrors⟩
  refine ⟨h.library.keeps hreached, hgoal.offered hreached, ?_, ?_⟩
  · intro level hlevel drive hmem
    obtain ⟨source, hmirrors⟩ := hdrive level hlevel drive hmem
    exact hmirrors.trigger.offered hreached
  · intro level hlevel drive hmem
    obtain ⟨source, hmirrors⟩ := hdrive level hlevel drive hmem
    exact hmirrors.target.offered hreached

end Parts

/-- The exchanges of a run, in order. -/
def Agent.runExchanges {ω ε : Type} (world : World ω ε) (config : Config) (agent : Agent) (w : ω) :
    List (Exchange ε) :=
  (agent.run world.recorded config (w, [])).world.2.reverse

end Engine

/-! ## Agents in scripted worlds -/

namespace Script

open Engine

variable {script : Script} {registry : Registry} {built agent : Agent} {state : State}

/-- The world of a script that builds answers every call that is offered, and stays a world that
does so. -/
theorem Built.reliable (hbuilt : script.Built registry) :
    script.world.Reliable (Offered registry) script.Stocked := by
  refine World.reliable_iff.2 fun call state hcall hstocked => ?_
  have hanswers := hbuilt.answers hcall hstocked
  exact ⟨hanswers.error?_eq_none, hstocked.answers hanswers⟩

/-- The agent and the scripted world that it lives in come from the built agent and the start of
the world. The agent is stepped, run and reset, its clock is changed, and others call what the
script provides. -/
inductive Plays (script : Script) (registry : Registry) (built : Agent) : Agent → State → Prop
  | start : Plays script registry built built script.start
  | step {agent : Agent} {state : State} : Plays script registry built agent state →
      Plays script registry built (agent.step script.world state).2.1
        (agent.step script.world state).2.2
  | run {agent : Agent} {state : State} (config : Config) :
      Plays script registry built agent state →
      Plays script registry built (agent.run script.world config state).agent
        (agent.run script.world config state).world
  | reset {agent : Agent} {state : State} : Plays script registry built agent state →
      Plays script registry built agent.reset state
  | setClock {agent : Agent} {state : State} (clock : Clock) :
      Plays script registry built agent state →
      Plays script registry built (agent.setClock clock) state
  | setDiscipline {agent : Agent} {state : State} (discipline : Discipline) :
      Plays script registry built agent state →
      Plays script registry built (agent.setDiscipline discipline) state
  | other {agent : Agent} {state : State} (call : Call) : Offered registry call →
      Plays script registry built agent state →
      Plays script registry built agent (script.world.answer call state).2

/-- An agent that plays in the world of a script is one that can be reached from the built one. -/
theorem Plays.reaches (h : script.Plays registry built agent state) : built.Reaches agent := by
  induction h with
  | start => exact .start
  | step _ ih => exact ih.step _ _
  | run config _ ih => exact ih.run _ config _
  | reset _ ih => exact ih.reset
  | setClock clock _ ih => exact ih.setClock clock
  | setDiscipline discipline _ ih => exact ih.setDiscipline discipline
  | other _ _ _ ih => exact ih

/-- The blackboard never loses what the senses read there. -/
theorem Plays.stocked (hbuilt : script.Built registry) (hasBuilt : built.AsBuilt)
    (hkeeps : built.Keeps (Offered registry)) (h : script.Plays registry built agent state) :
    script.Stocked state := by
  induction h with
  | start => exact hbuilt.stocked_start
  | step hplays ih =>
    have hkept := hplays.reaches.keptBy hasBuilt
    obtain ⟨outcome, after, hstep, hstocked⟩ := hkept.step_succeeds hkeeps hbuilt.reliable ih
    rw [hstep]
    exact hstocked
  | run config hplays ih =>
    have hkept := hplays.reaches.keptBy hasBuilt
    exact (hkept.run_succeeds hasBuilt.competencesLast hkeeps hbuilt.reliable config ih).2
  | reset _ ih => exact ih
  | setClock _ _ ih => exact ih
  | setDiscipline _ _ ih => exact ih
  | other call hcall _ ih => exact ih.answers (hbuilt.answers hcall ih)

/-- Whatever the agent does next, nothing fails. -/
structure Unfailing (script : Script) (registry : Registry) (agent : Agent) (state : State) :
    Prop where
  step : ∃ outcome, (agent.step script.world state).1 = .ok outcome
  run : ∀ config : Config, config.error? = none →
    ∃ summary, (agent.run script.world config state).result = .ok summary
  /-- All that is called in a step is answered. -/
  exchanges : ∀ exchange ∈ agent.exchanges script.world state, exchange.error? = none
  runExchanges : ∀ (config : Config),
    ∀ exchange ∈ agent.runExchanges script.world config state, exchange.error? = none
  /-- Every sense has a reading, also for others than the agent. -/
  reads : ∀ capability, registry.sense? capability.name = some capability →
    ∃ reading, (script.world.read capability state).1 = .ok reading

/-- In the world of a script that builds, an agent that builds is never failed by a capability:
its steps have outcomes and its runs have summaries, from the start and after any use. -/
theorem scripted_never_fails {plan : Plan} (hscript : script.registry = .ok registry)
    (hbuild : plan.build registry = .ok built) (hplays : script.Plays registry built agent state) :
    script.Unfailing registry agent state := by
  have hbuilt := built_of_registry hscript
  have hasBuilt := build_asBuilt hbuild
  have hkeeps := ((build_eq_ok hbuilt.reached).1 hbuild).2.keeps hbuilt.reached
  have hkept := hplays.reaches.keptBy hasBuilt
  have hstocked := hplays.stocked hbuilt hasBuilt hkeeps
  have hworld := hbuilt.reliable
  -- Nothing is on record yet, so nothing on record is an error.
  have hrecorded : script.Stocked state ∧
      ∀ exchange ∈ ([] : List (Exchange ReadError)), exchange.error? = none :=
    ⟨hstocked, List.forall_mem_nil _⟩
  refine ⟨?_, ?_, ?_, ?_, ?_⟩
  · obtain ⟨outcome, after, hstep, -⟩ := hkept.step_succeeds hkeeps hworld hstocked
    exact ⟨outcome, congrArg Prod.fst hstep⟩
  · intro config hvalid
    exact (hkept.run_succeeds hasBuilt.competencesLast hkeeps hworld config hstocked).1 hvalid
  · obtain ⟨outcome, after, hstep, -, hrecord⟩ :=
      hkept.step_succeeds hkeeps hworld.recorded (w := (state, [])) hrecorded
    rw [Agent.exchanges, hstep]
    exact forall_mem_reverse hrecord
  · intro config
    have hrun := hkept.run_succeeds hasBuilt.competencesLast hkeeps hworld.recorded config
      (w := (state, [])) hrecorded
    exact forall_mem_reverse hrun.2.2
  · intro capability hsense
    have hoffered : Offered registry (.read capability) := hsense
    obtain ⟨reading, after, hread, -⟩ := hworld.read hoffered hstocked
    exact ⟨reading, congrArg Prod.fst hread⟩

/-! ## A porter at the door -/

/-- The porter goes to the door when the lamp is on, and looks at the lamp until then. -/
def porterPlan : Plan where
  docstring := none
  collection := some
    { tag := "SDC", name := "porter", goal := some [.check "locked" (some "false") none]
      levels := [[⟨"enter", some [.bare "lamp"], "approach", none⟩],
        [⟨"wait", none, "watch", some 1⟩]] }
  competences := [⟨"watch", none, none, [[⟨"look", none, "approach", 2⟩]]⟩]
  patterns := [⟨"approach", none, [.sense "lamp" (some "0") none, .named "unlock"]⟩]

def porterLibrary : Library where
  competences := [⟨"watch", [], [[⟨"look", [], .node (.pattern "approach"), 2⟩]]⟩]
  patterns := [⟨"approach",
    [.sense ⟨⟨"door", "lamp"⟩, .compare .eq (.int 0)⟩, .action ⟨"door", "unlock"⟩]⟩]

/-- The agent of `porterPlan`. -/
def porter : Agent where
  name := "porter"
  discipline := .stepped
  docstring := none
  library := porterLibrary
  goal := [⟨⟨"door", "locked"⟩, .compare .eq (.bool false)⟩]
  levels :=
    [[.fresh porterLibrary "enter" [⟨⟨"door", "lamp"⟩, .truthy⟩] (.node (.pattern "approach"))
        none],
      [.fresh porterLibrary "wait" [] (.node (.competence "watch")) (some 1)]]
  clock := .stepped 0

theorem build_porterPlan : porterPlan.build doorRegistry = .ok porter := by
  rfl

/-- The porter, after one step, with the world as it is then. -/
theorem scripted_never_fails_porter :
    door.registry = .ok doorRegistry ∧ porterPlan.build doorRegistry = .ok porter ∧
      door.Plays doorRegistry porter (porter.step door.world door.start).2.1
        (porter.step door.world door.start).2.2 ∧
      door.Unfailing doorRegistry (porter.step door.world door.start).2.1
        (porter.step door.world door.start).2.2 := by
  have hscript : door.registry = .ok doorRegistry := by
    rfl
  have hplays : door.Plays doorRegistry porter (porter.step door.world door.start).2.1
      (porter.step door.world door.start).2.2 := .step .start
  exact ⟨hscript, build_porterPlan, hplays, scripted_never_fails hscript build_porterPlan hplays⟩

/-- At the second attempt the door opens, and the porter is done. -/
example : (porter.run door.world ⟨20, false, .default⟩ door.start).result = .ok ⟨8, 0, .won⟩ := by
  rfl

end Script

end SlipStack
