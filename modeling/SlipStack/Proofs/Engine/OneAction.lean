import SlipStack.Proofs.Engine.Exchanges
import SlipStack.Proofs.Engine.Interrupted
import SlipStack.Proofs.Engine.Resolution

/-!
# One action at most

Drive collections, competences and patterns all look for something to do by reading senses, and
stop at the first they find. So the calls of a step are reads and, if an action is called at all,
one action in the last place (`one_action_per_step`). `Asks` says this of the firing of a node,
`Agent.Asked` of a step, and what is on record tells the same.
-/

namespace SlipStack.Engine

variable {ω ε : Type} {world : World ω ε} {w w₁ w' : ω}

/-! ## Firing -/

/-- Reads that succeed, and after them an action that does not fail, or none. -/
inductive Asks (world : World ω ε) (w : ω) : ω → Prop
  | reads {senses : List Capability} {w' : ω} : Reads world w senses w' → Asks world w w'
  | act {senses : List Capability} {capability : Capability} {succeeded : Bool} {w₁ w' : ω} :
      Reads world w senses w₁ → world.act capability w₁ = (.ok succeeded, w') → Asks world w w'

/-- More reads before. -/
theorem Asks.after {senses : List Capability} (h : Asks world w₁ w')
    (hreads : Reads world w senses w₁) : Asks world w w' := by
  cases h with
  | reads hmore => exact .reads (hreads.trans hmore)
  | act hmore hact => exact .act (hreads.trans hmore) hact

namespace Node

/-- A competence that comes to a move has asked its goal and its elements for readings, and has
acted at most at the end. -/
theorem competence_asks {goal : Trigger} {levels levels' : List (List ElementState)} {move : Move}
    {result : Except ε Move} (h : Competed world goal w levels result levels' w')
    (hresult : result = .ok move) : Asks world w w' := by
  cases h with
  | goalFailed | triggerFailed => cases hresult
  | reached hgoal =>
    obtain ⟨senses, hreads⟩ := Trigger.reads_of_reached hgoal
    exact .reads hreads
  | unready hgoal hpassed =>
    obtain ⟨senses, hreads⟩ := ElementState.reads_before hgoal hpassed
    exact .reads hreads
  | fired hgoal hpassed hready hfire =>
    obtain ⟨senses, hreads⟩ := ElementState.reads_before hgoal hpassed
    obtain ⟨last, hlast⟩ := ElementState.reads_of_ready hready
    -- The element that is fired acts or hands over; what was asked before are readings.
    rw [ElementState.fire] at hfire
    split at hfire
    · cases hfire
      exact .reads (hreads.trans hlast)
    · split at hfire
      · rename_i hact
        cases hfire
        exact .act (hreads.trans hlast) hact
      · cases hfire
        cases hresult

/-- Firing a node calls one action at most, after all that it reads. -/
theorem fire_asks {node node' : Node} {move : Move}
    (h : node.fire world w = (.ok move, node', w')) : Asks world w w' := by
  generalize hresult : Except.ok move = result at h
  cases fire_enacted h with
  | @called _ answer _ hact =>
    cases answer with
    | error e => cases hresult
    | ok succeeded => exact .act .start hact
  | competed name hcompeted => exact competence_asks hcompeted hresult.symm
  | ended | handedOff => exact .reads .start
  | stepped name _ htaken =>
    cases htaken with
    | acted hact => exact .act .start hact
    | sensed hholds => exact .reads (Sense.reads_of_holds hholds)
  | stepFailed => cases hresult

end Node

/-! ## Steps -/

namespace Agent

/-- What is asked of the world in a step of the given result. -/
inductive Asked (world : World ω ε) (w : ω) : Except ε Outcome → ω → Prop
  | decided {outcome : Outcome} {senses : List Capability} {w' : ω} : outcome ≠ .followed →
      Reads world w senses w' → Asked world w (.ok outcome) w'
  | followed {w' : ω} : Asks world w w' → Asked world w (.ok .followed) w'
  | failed {call : Call} {e : ε} {w' : ω} : Fails world w call e w' →
      Asked world w (.error e) w'

/-- A step asks the goal, then the triggers in order up to the element that is fired, and then
what this one does. Nothing is asked after that. -/
theorem step_asked {agent agent' : Agent} {result : Except ε Outcome}
    (h : agent.step world w = (result, agent', w')) : Asked world w result w' := by
  have hsettled := step_settled h
  generalize agent.levels = levels at hsettled
  generalize agent'.levels = levels' at hsettled
  -- Readings of the goal and of the triggers passed over come before all else.
  cases hsettled with
  | goalFailed hgoal =>
    obtain ⟨sense, -, hfails⟩ := Trigger.fails_of_reached hgoal
    exact .failed hfails
  | won hgoal =>
    obtain ⟨senses, hreads⟩ := Trigger.reads_of_reached hgoal
    exact .decided (by simp) hreads
  | lost hgoal hpassed =>
    obtain ⟨senses, hreads⟩ := Drive.reads_before hgoal hpassed
    exact .decided (by simp) hreads
  | triggerFailed hgoal hpassed hready =>
    obtain ⟨senses, hreads⟩ := Drive.reads_before hgoal hpassed
    obtain ⟨sense, -, hfails⟩ := Trigger.fails_of_holds (Drive.ready_eq_error.1 hready)
    exact .failed (hfails.after hreads)
  | @fired _ _ _ _ _ moved _ _ _ _ _ hgoal hpassed hready hfire =>
    obtain ⟨senses, hreads⟩ := Drive.reads_before hgoal hpassed
    obtain ⟨last, hlast⟩ := Drive.reads_of_ready hready
    have hbefore := hreads.trans hlast
    cases moved with
    | ok move => exact .followed ((Node.fire_asks hfire).after hbefore)
    | error e =>
      obtain ⟨call, -, hfails⟩ := Node.fire_interrupted hfire
      exact .failed (hfails.after hbefore)

/-- The exchanges of a step, in order. -/
def exchanges (world : World ω ε) (agent : Agent) (w : ω) : List (Exchange ε) :=
  (agent.step world.recorded (w, [])).2.2.2.reverse

end Agent

/-! ## On record -/

/-- The exchanges, told in order, are readings up to the last one, as a step of the given result
may have it. -/
inductive ActsLast : List (Exchange ε) → Except ε Outcome → Prop
  | quiet {readings : List (Exchange ε)} (outcome : Outcome) :
      (∀ exchange ∈ readings, exchange.isReading) → ActsLast readings (.ok outcome)
  | acted {readings : List (Exchange ε)} (capability : Capability) (succeeded : Bool) :
      (∀ exchange ∈ readings, exchange.isReading) →
      ActsLast (readings ++ [.act capability (.ok succeeded)]) (.ok .followed)
  | failed {readings : List (Exchange ε)} {last : Exchange ε} {e : ε} :
      (∀ exchange ∈ readings, exchange.isReading) → last.error? = some e →
      ActsLast (readings ++ [last]) (.error e)

theorem forall_mem_reverse {α : Type} {p : α → Prop} {as : List α} (h : ∀ a ∈ as, p a) :
    ∀ a ∈ as.reverse, p a :=
  fun a ha => h a (List.mem_reverse.1 ha)

/-- What a step puts on record are readings, with an action at the very end if there is one, or
the call that failed. -/
theorem Agent.exchanges_actsLast (world : World ω ε) (agent : Agent) (w : ω) :
    ActsLast (agent.exchanges world w) (agent.step world w).1 := by
  rcases hstep : agent.step world.recorded (w, []) with ⟨result, agent', w', record⟩
  rw [agent.step_recorded world w [], Agent.exchanges, hstep]
  cases Agent.step_asked hstep with
  | decided _ hreads =>
    obtain ⟨readings, rfl, hreadings⟩ := hreads.of_recorded
    rw [List.append_nil]
    exact .quiet _ (forall_mem_reverse hreadings)
  | followed hasks =>
    cases hasks with
    | reads hreads =>
      obtain ⟨readings, rfl, hreadings⟩ := hreads.of_recorded
      rw [List.append_nil]
      exact .quiet _ (forall_mem_reverse hreadings)
    | @act _ capability succeeded before _ hreads hact =>
      obtain ⟨w₁, record₁⟩ := before
      obtain ⟨readings, rfl, hreadings⟩ := hreads.of_recorded
      rw [World.act_recorded hact, List.append_nil, List.reverse_cons]
      exact .acted capability succeeded (forall_mem_reverse hreadings)
  | failed hfails =>
    obtain ⟨last, readings, rfl, hlast, hreadings⟩ := hfails.of_recorded
    rw [List.append_nil, List.reverse_cons]
    exact .failed (forall_mem_reverse hreadings) hlast

/-- What holds of the exchanges of a step, told in order, with its result. -/
structure OneAction (exchanges : List (Exchange ε)) (result : Except ε Outcome) : Prop where
  /-- One action is called at most, and once. -/
  once : exchanges.countP Exchange.isAction ≤ 1
  /-- Nothing is called after an action. -/
  last : ∀ before exchange after, exchanges = before ++ exchange :: after →
    exchange.isAction → after = []
  /-- A step that is won or lost calls no action. -/
  decided : result = .ok .won ∨ result = .ok .lost → exchanges.countP Exchange.isAction = 0
  /-- Nor does one in which a sense fails. -/
  senseFailed : ∀ sense e, .read sense (.error e) ∈ exchanges →
    result = .error e ∧ exchanges.countP Exchange.isAction = 0
  /-- A step fails as its last call does. -/
  failed : ∀ e, result = .error e → ∃ before last, exchanges = before ++ [last] ∧
    last.error? = some e

theorem countP_isAction_eq_zero {readings : List (Exchange ε)}
    (h : ∀ exchange ∈ readings, exchange.isReading) :
    readings.countP Exchange.isAction = 0 := by
  rw [List.countP_eq_zero]
  intro exchange hmem
  simp [Exchange.not_isAction_of_isReading (h exchange hmem)]

/-- Readings do not count beside the last exchange. -/
theorem countP_isAction_append {readings : List (Exchange ε)}
    (h : ∀ exchange ∈ readings, exchange.isReading) (last : Exchange ε) :
    (readings ++ [last]).countP Exchange.isAction = [last].countP Exchange.isAction := by
  rw [List.countP_append, countP_isAction_eq_zero h, Nat.zero_add]

/-- Where all exchanges but the last are readings, nothing comes after an action. -/
theorem eq_nil_after_action {readings before after : List (Exchange ε)}
    {last exchange : Exchange ε} (hreadings : ∀ exchange ∈ readings, exchange.isReading)
    (hsplit : readings ++ [last] = before ++ exchange :: after) (haction : exchange.isAction) :
    after = [] := by
  rcases List.eq_nil_or_concat after with hnil | ⟨earlier, final, rfl⟩
  · exact hnil
  · rw [List.concat_eq_append, ← List.cons_append, ← List.append_assoc] at hsplit
    obtain ⟨rfl, -⟩ := List.append_inj' hsplit rfl
    have hreading := hreadings exchange (by simp)
    simp [Exchange.not_isAction_of_isReading hreading] at haction

/-- A sense that fails among readings and one more exchange is that exchange. -/
theorem eq_of_senseFailed {readings : List (Exchange ε)} {last exchange : Exchange ε} {e : ε}
    (hreadings : ∀ exchange ∈ readings, exchange.isReading)
    (hmem : exchange ∈ readings ++ [last]) (hfailed : exchange.error? = some e) :
    exchange = last := by
  rcases List.mem_append.1 hmem with hreading | hlast
  · rw [Exchange.error?_of_isReading (hreadings exchange hreading)] at hfailed
    cases hfailed
  · exact List.mem_singleton.1 hlast

/-- Readings that are followed by at most one action have at most one action, and tell what the
result of the step can be. -/
theorem ActsLast.oneAction {exchanges : List (Exchange ε)} {result : Except ε Outcome}
    (h : ActsLast exchanges result) : OneAction exchanges result := by
  -- In each case the readings come first, and at most one exchange after them.
  cases h with
  | quiet outcome hreadings =>
    have hnone := countP_isAction_eq_zero hreadings
    refine ⟨by omega, ?_, fun _ => hnone, ?_, fun e he => by cases he⟩
    · intro before exchange after hsplit haction
      have hreading := hreadings exchange (by simp [hsplit])
      simp [Exchange.not_isAction_of_isReading hreading] at haction
    · intro sense e hmem
      cases hreadings _ hmem
  | acted capability succeeded hreadings =>
    refine ⟨?_, fun _ _ _ => eq_nil_after_action hreadings, ?_, ?_, fun e he => by cases he⟩
    · rw [countP_isAction_append hreadings]
      exact List.countP_le_length
    · intro hdecided
      simp at hdecided
    · intro sense e hmem
      cases eq_of_senseFailed hreadings hmem rfl
  | @failed readings last e hreadings hlast =>
    refine ⟨?_, fun _ _ _ => eq_nil_after_action hreadings, ?_, ?_, ?_⟩
    · rw [countP_isAction_append hreadings]
      exact List.countP_le_length
    · intro hdecided
      simp at hdecided
    · intro sense e' hmem
      obtain rfl := eq_of_senseFailed hreadings hmem rfl
      cases hlast
      exact ⟨rfl, countP_isAction_append hreadings _⟩
    · intro e' he
      cases he
      exact ⟨readings, last, rfl, hlast⟩

/-- A step calls at most one action, as its last call, and none if it is won or lost or if a sense
fails. -/
theorem one_action_per_step (world : World ω ε) (agent : Agent) (w : ω) :
    OneAction (agent.exchanges world w) (agent.step world w).1 :=
  (agent.exchanges_actsLast world w).oneAction

/-- The patrol is not due where the guard is tired, and what is due instead fails. -/
example : (patroller.exchanges broken ()).map Exchange.call =
    [.read ⟨"guard", "tired"⟩, .act ⟨"guard", "greet"⟩] := by
  rfl

end SlipStack.Engine
