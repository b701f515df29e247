import SlipStack.Proofs.Engine.Exchanges
import SlipStack.Proofs.Script.Described

/-!
# What a scripted world answers

The world of a script keeps one blackboard, one record of actions and one count of uses for
each capability, all in one state. `Performs` says what any sequence of calls comes to: each
capability goes through its own sequence however the calls are mixed, the blackboard shows
what was written last under each name, and the record holds the actions called.

`Answers` says all that one call can do, as long as the blackboard has what the senses read there
(`Stocked`). What one call does to the uses, the blackboard and the record is read off it, and
what several calls do follows call by call (`Converses`).
-/

namespace SlipStack

namespace Script

open Engine

/-! ## Sequences -/

/-- The place that the item of a number comes from, in a sequence of the given length. -/
def Repeat.place (mode : Repeat) (length number : Nat) : Nat :=
  match mode with
  | .last => min number (length - 1)
  | .cycle => number % length

/-- What a sequence gives at a number is its item at the place that its way of repeating assigns
to the number. -/
theorem Repeat.item?_eq {α : Type} (mode : Repeat) (items : List α) (number : Nat) :
    mode.item? items number = items[mode.place items.length number]? := by
  cases mode with
  | cycle => rfl
  | last =>
    rw [item?, place, List.getLast?_eq_getElem?]
    rcases Nat.lt_or_ge number items.length with hlt | hge
    · rw [List.getElem?_eq_getElem hlt, Nat.min_eq_left (by omega), List.getElem?_eq_getElem hlt]
      rfl
    · rw [List.getElem?_eq_none hge, Nat.min_eq_right (by omega)]
      rfl

/-- The place of a number lies within the sequence, unless this is empty. -/
theorem Repeat.place_lt (mode : Repeat) {length : Nat} (hlength : 0 < length) (number : Nat) :
    mode.place length number < length := by
  cases mode with
  | last =>
    rw [place]
    omega
  | cycle => exact Nat.mod_lt _ hlength

/-- What the call of a number comes to, where the first has the number zero. -/
def Action.result (action : Action) (number : Nat) : Bool :=
  action.results.getD (action.mode.place action.results.length number) true

/-- What the read of a number shows, if the sense has values. -/
def Sense.reading? (sense : Sense) (number : Nat) : Option Value :=
  sense.values[sense.mode.place sense.values.length number]?

/-! ## Effects and records -/

/-- What the effects of an action leave under a name. -/
def Action.effect? (action : Action) (name : String) : Option Value :=
  (NameMap.ofEntries action.effects.entries).get? name

/-- What an exchange wrote under a name. An action that does not succeed writes nothing. -/
def written? (script : Script) (name : String) : Exchange ReadError → Option Value
  | .act capability (.ok true) => (script.action? capability).bind (·.effect? name)
  | _ => none

/-- What the blackboard starts with under a name. -/
def initial? (script : Script) (name : String) : Option Value :=
  (script.senses.find? (·.name = name)).bind (·.initial)

/-- The record of an action that was called. -/
def activity? : Exchange ReadError → Option Activity
  | .act capability (.ok succeeded) => some ⟨capability.owner, capability.name, succeeded⟩
  | _ => none

/-- Whether this is a call of an action of the name. -/
def isCallOf (name : String) : Call → Bool
  | .act capability => capability.name = name
  | .read _ => false

/-- What calls on the world of a script come to, from its start: the exchanges that they make,
and the state that they leave. -/
structure Performs (script : Script) (calls : List Call) (exchanges : List (Exchange ReadError))
    (state : State) : Prop where
  /-- The exchanges are those of the calls, in their order. -/
  order : exchanges.map Exchange.call = calls
  /-- An action goes through its results, whatever else is called in between. -/
  results : ∀ (before after : List Call) capability action,
    calls = before ++ .act capability :: after → script.HasAction capability action →
    exchanges[before.length]? =
      some (.act capability (.ok (action.result (before.count (.act capability)))))
  /-- A sense with values goes through them, whatever else is called in between. -/
  readings : ∀ (before after : List Call) capability sense,
    calls = before ++ .read capability :: after → script.HasSense capability sense →
    sense.initial = none →
    ∃ value, sense.reading? (before.count (.read capability)) = some value ∧
      exchanges[before.length]? = some (.read capability (.ok value))
  /-- Under each name stands what was written last, or else what the blackboard starts with. -/
  board : ∀ name, state.board.get? name =
    (exchanges.reverse.findSome? (script.written? name)).or (script.initial? name)
  /-- A sense with an initial value reads what stands under its name, and something does. -/
  shown : ∀ capability sense value, script.HasSense capability sense →
    sense.initial = some value →
    ∃ now, state.board.get? sense.name = some now ∧
      script.world.read capability state = (.ok now, state)
  /-- All actions called are recorded, in their order, with what they came to. -/
  activity : state.activity = exchanges.filterMap activity?
  fired : ∀ name, state.fired name = calls.countP (isCallOf name)

/-! ## One call -/

/-- What a call comes to in a state, and the state that it leaves. -/
inductive Answers (script : Script) (state : State) :
    Call → Exchange ReadError → State → Prop
  | acted {capability : Capability} {action : Action} {succeeded : Bool} :
      script.action? capability = some action →
      action.result (state.uses.count capability) = succeeded →
      Answers script state (.act capability) (.act capability (.ok succeeded))
        { board := if succeeded then state.board.write action.effects.entries else state.board
          uses := state.uses.add capability
          history := ⟨capability.owner, capability.name, succeeded⟩ :: state.history }
  | replayed {capability : Capability} {sense : Sense} {value : Value} :
      script.sense? capability = some sense → sense.initial = none →
      sense.reading? (state.uses.count capability) = some value →
      Answers script state (.read capability) (.read capability (.ok value))
        { state with uses := state.uses.add capability }
  | shown {capability : Capability} {sense : Sense} {first value : Value} :
      script.sense? capability = some sense → sense.initial = some first →
      state.board.get? capability.name = some value →
      Answers script state (.read capability) (.read capability (.ok value)) state

/-- Something stands on the blackboard under the name of each sense that is to read it. -/
def Stocked (script : Script) (state : State) : Prop :=
  ∀ capability sense first, script.sense? capability = some sense →
    sense.initial = some first → ∃ value, state.board.get? capability.name = some value

/-- Whether the call uses up an item of a sequence. The read of a sense with an initial value does
not. -/
def draws (script : Script) : Call → Bool
  | .act _ => true
  | .read capability => ((script.sense? capability).bind (·.initial)).isNone

variable {script : Script} {registry : Registry} {capability : Capability} {action : Action}
  {sense : Sense} {calls : List Call} {call own : Call} {exchange : Exchange ReadError}
  {exchanges : List (Exchange ReadError)} {state state' : State}

theorem read_shown {first value : Value} (hsense : script.sense? capability = some sense)
    (hinitial : sense.initial = some first)
    (hvalue : state.board.get? capability.name = some value) :
    script.read capability state = (.ok value, state) := by
  simp only [read, hsense, Option.getD_some, hinitial, hvalue]

theorem Answers.call_eq (h : script.Answers state call exchange state') : exchange.call = call := by
  cases h <;> rfl

theorem Answers.error?_eq_none (h : script.Answers state call exchange state') :
    exchange.error? = none := by
  cases h <;> rfl

/-- A call that draws from a sequence moves its position on by one, and other calls leave it. -/
theorem Answers.count (h : script.Answers state call exchange state')
    (hdraws : script.draws own) (hsame : call.capability = own.capability → call = own) :
    state'.uses.count own.capability =
      state.uses.count own.capability + if call = own then 1 else 0 := by
  have hiff : call.capability = own.capability ↔ call = own :=
    ⟨hsame, congrArg Call.capability⟩
  cases h with
  | acted _ _ =>
    rw [Uses.count_add]
    exact congrArg (_ + ·) (if_congr hiff rfl rfl)
  | replayed _ _ _ =>
    rw [Uses.count_add]
    exact congrArg (_ + ·) (if_congr hiff rfl rfl)
  | shown hsense hinitial _ =>
    rw [if_neg, Nat.add_zero]
    rintro rfl
    simp [draws, hsense, hinitial] at hdraws

/-- What stands on the blackboard after a call is what the call has written there, or what stood
there before. -/
theorem Answers.board (h : script.Answers state call exchange state') (name : String) :
    state'.board.get? name = (script.written? name exchange).or (state.board.get? name) := by
  cases h with
  | @acted capability action succeeded haction _ =>
    cases succeeded with
    | true => simp [written?, haction, NameMap.get?_write, Action.effect?]
    | false => rfl
  | replayed _ _ _ => rfl
  | shown _ _ _ => rfl

/-- An action that was performed is added to the activity; readings are not. -/
theorem Answers.activity (h : script.Answers state call exchange state') :
    state'.activity = state.activity ++ (activity? exchange).toList := by
  cases h with
  | acted _ _ => exact List.reverse_cons
  | replayed _ _ _ => exact (List.append_nil _).symm
  | shown _ _ _ => exact (List.append_nil _).symm

theorem Answers.fired (h : script.Answers state call exchange state') (name : String) :
    state'.fired name = state.fired name + if isCallOf name call then 1 else 0 := by
  rw [State.fired, h.activity, List.countP_append]
  cases h with
  | acted _ _ => simp [activity?, isCallOf, State.fired, List.countP_cons]
  | replayed _ _ _ => rfl
  | shown _ _ _ => rfl

/-- No call takes from the blackboard the value that a sense reads there. -/
theorem Stocked.answers (hstocked : script.Stocked state)
    (h : script.Answers state call exchange state') : script.Stocked state' := by
  intro capability sense first hsense hinitial
  obtain ⟨value, hvalue⟩ := hstocked capability sense first hsense hinitial
  rw [h.board, hvalue, Option.or_some]
  exact ⟨_, rfl⟩

/-! ## Several calls -/

/-- What calls come to one after the other. -/
inductive Converses (script : Script) :
    State → List Call → List (Exchange ReadError) → State → Prop
  | silent {state : State} : Converses script state [] [] state
  | said {state between state' : State} {call : Call} {calls : List Call}
      {exchange : Exchange ReadError} {exchanges : List (Exchange ReadError)} :
      script.Answers state call exchange between →
      Converses script between calls exchanges state' →
      Converses script state (call :: calls) (exchange :: exchanges) state'

theorem Converses.order (h : script.Converses state calls exchanges state') :
    exchanges.map Exchange.call = calls := by
  induction h with
  | silent => rfl
  | said hanswers _ ih => rw [List.map_cons, hanswers.call_eq, ih]

/-- Over many calls the position of a sequence moves on by the number of calls that draw from it,
in whatever order they come between others. -/
theorem Converses.count (h : script.Converses state calls exchanges state')
    (hdraws : script.draws own)
    (hsame : ∀ call ∈ calls, call.capability = own.capability → call = own) :
    state'.uses.count own.capability = state.uses.count own.capability + calls.count own := by
  induction h with
  | silent => rfl
  | said hanswers _ ih =>
    obtain ⟨hhere, hlater⟩ := List.forall_mem_cons.1 hsame
    rw [ih hlater, hanswers.count hdraws hhere, List.count_cons, Nat.add_assoc,
      Nat.add_comm (ite _ _ _)]
    simp only [beq_iff_eq]

/-- Over many calls the blackboard has, under each name, what was written there last, or what it
had at the start. -/
theorem Converses.board (h : script.Converses state calls exchanges state') (name : String) :
    state'.board.get? name =
      (exchanges.reverse.findSome? (script.written? name)).or (state.board.get? name) := by
  induction h with
  | silent => rfl
  | said hanswers _ ih =>
    rw [ih, hanswers.board, ← Option.or_assoc, List.reverse_cons, List.findSome?_append]
    congr
    simp

/-- Over many calls the activity is what the actions among them have added, in their order. -/
theorem Converses.activity (h : script.Converses state calls exchanges state') :
    state'.activity = state.activity ++ exchanges.filterMap activity? := by
  induction h with
  | silent => exact (List.append_nil _).symm
  | @said _ _ _ _ _ exchange _ hanswers _ ih =>
    rw [ih, hanswers.activity, List.append_assoc]
    cases hactivity : activity? exchange <;> simp [hactivity]

theorem Converses.fired (h : script.Converses state calls exchanges state') (name : String) :
    state'.fired name = state.fired name + calls.countP (isCallOf name) := by
  induction h with
  | silent => rfl
  | said hanswers _ ih =>
    rw [ih, hanswers.fired, List.countP_cons, Nat.add_assoc, Nat.add_comm (ite _ _ _)]

/-- The run lemma: after any calls every sense that reads the blackboard finds a value there. -/
theorem Stocked.converses (hstocked : script.Stocked state)
    (h : script.Converses state calls exchanges state') : script.Stocked state' := by
  induction h with
  | silent => exact hstocked
  | said hanswers _ ih => exact ih (hstocked.answers hanswers)

/-! ## The world of a script that builds -/

/-- The capability of the call is registered, as what the call takes it for. -/
def Offered (registry : Registry) (call : Call) : Prop :=
  registry.capability? call.kind call.capability.name = some call.capability

instance : DecidablePred (Offered registry) :=
  fun _ => inferInstanceAs (Decidable (_ = _))

/-- A call that is offered is of a capability that the registry provides. -/
theorem Offered.provides (hreached : registry.Reached) (h : Offered registry call) :
    registry.Provides call.kind call.capability :=
  (hreached.provides_of_capability? h).2

theorem Offered.eq_of_capability_eq (hreached : registry.Reached) (hcall : Offered registry call)
    (hown : Offered registry own) (h : call.capability = own.capability) : call = own := by
  obtain ⟨hkind, hcapability⟩ :=
    hreached.unique (hown.provides hreached) (hcall.provides hreached) (congrArg Capability.name h)
  exact Call.eq_of_kind_eq hkind hcapability

theorem Repeat.exists_item (mode : Repeat) {α : Type} {items : List α} (h : items ≠ [])
    (number : Nat) : ∃ item, items[mode.place items.length number]? = some item :=
  ⟨_, List.getElem?_eq_getElem (mode.place_lt (List.length_pos_iff.2 h) number)⟩

namespace Built

variable (hbuilt : script.Built registry)
include hbuilt

theorem values_ne_nil (h : script.HasSense capability sense) (hinitial : sense.initial = none) :
    sense.values ≠ [] := by
  obtain ⟨behaviour, hbehaviour, hsense, rfl⟩ := h
  intro hvalues
  have hfault := List.findSome?_eq_none_iff.1 hbuilt.valid behaviour hbehaviour
  rw [Behaviour.fault?] at hfault
  split at hfault
  · cases hfault
  · have hsound := List.findSome?_eq_none_iff.1 (Option.or_eq_none_iff.1 hfault).2 sense hsense
    simp [Sense.fault?, hvalues, hinitial] at hsound

/-- What a call comes to, if the script describes it. -/
theorem answers (hcall : Offered registry call) (hstocked : script.Stocked state) :
    script.Answers state call (script.world.answer call state).1
      (script.world.answer call state).2 := by
  cases call with
  | act capability =>
    have hprovides : registry.Provides .action capability := hcall.provides hbuilt.reached
    obtain ⟨action, hdescribed⟩ := hbuilt.exists_action hprovides
    have haction := hbuilt.action?_eq_some.2 hdescribed
    have hresult : (action.mode.item? action.results (state.uses.count capability)).getD true =
        action.result (state.uses.count capability) := by
      rw [Repeat.item?_eq, Action.result, List.getD_eq_getElem?_getD]
    simp only [World.answer, world, act, haction, Option.getD_some, hresult]
    exact .acted haction rfl
  | read capability =>
    have hprovides : registry.Provides .sense capability := hcall.provides hbuilt.reached
    obtain ⟨sense, hdescribed⟩ := hbuilt.exists_sense hprovides
    have hsense := hbuilt.sense?_eq_some.2 hdescribed
    -- A sense without an initial value reads its sequence, and one with it reads the blackboard.
    cases hinitial : sense.initial with
    | none =>
      simp only [World.answer, world, read, hsense, Option.getD_some, hinitial]
      obtain ⟨value, hvalue⟩ := sense.mode.exists_item
        (hbuilt.values_ne_nil hdescribed hinitial) (state.uses.count capability)
      rw [Repeat.item?_eq, hvalue]
      exact .replayed hsense hinitial hvalue
    | some first =>
      obtain ⟨value, hvalue⟩ := hstocked capability sense first hsense hinitial
      simp only [World.answer, world, read_shown hsense hinitial hvalue]
      exact .shown hsense hinitial hvalue

/-- Calls that the registry offers are all answered by the script, each from the state that the
earlier ones left. -/
theorem converses (hcalls : ∀ call ∈ calls, Offered registry call)
    (hstocked : script.Stocked state) :
    script.Converses state calls (script.world.converse calls state).1
      (script.world.converse calls state).2 := by
  induction calls generalizing state with
  | nil => exact .silent
  | cons call calls ih =>
    obtain ⟨hcall, hcalls⟩ := List.forall_mem_cons.1 hcalls
    have hanswers := hbuilt.answers hcall hstocked
    exact .said hanswers (ih hcalls (hstocked.answers hanswers))

end Built

/-! ## The start -/

/-- Where the names of senses differ, the blackboard shows the initial value of each. -/
theorem get?_initials {senses : List Sense} (hnodup : (senses.map (·.name)).Nodup)
    (name : String) :
    (NameMap.ofEntries
        (senses.filterMap fun sense => sense.initial.map (sense.name, ·))).get? name =
      (senses.find? (·.name = name)).bind (·.initial) := by
  induction senses with
  | nil => rfl
  | cons sense senses ih =>
    obtain ⟨hfresh, hnodup⟩ := List.nodup_cons.1 hnodup
    have hrest := ih hnodup
    rw [List.filterMap_cons]
    by_cases hname : sense.name = name
    · subst hname
      rw [find?_key_eq_none hfresh] at hrest
      rw [List.find?_cons_of_pos (by simp)]
      cases hinitial : sense.initial with
      | none => simpa [hinitial] using hrest
      | some value => simp [hinitial, NameMap.get?_ofEntries_cons, hrest]
    · rw [List.find?_cons_of_neg (by simpa using hname), ← hrest]
      cases sense.initial with
      | none => rfl
      | some value => simp [NameMap.get?_ofEntries_cons, hname]

theorem Built.get?_initialBoard (hbuilt : script.Built registry) (name : String) :
    script.initialBoard.get? name = script.initial? name := by
  rw [initialBoard, ← List.filterMap_flatMap]
  exact get?_initials hbuilt.nodup_senses name

theorem Built.initial?_eq (hbuilt : script.Built registry)
    (h : script.HasSense capability sense) : script.initial? capability.name = sense.initial := by
  obtain ⟨behaviour, hbehaviour, hsense, rfl⟩ := h
  have hmem : sense ∈ script.senses := List.mem_flatMap_of_mem hbehaviour hsense
  exact congrArg (Option.bind · Sense.initial) (find?_key_of_mem hbuilt.nodup_senses hmem)

theorem Built.stocked_start (hbuilt : script.Built registry) : script.Stocked script.start := by
  intro capability sense first hsense hinitial
  refine ⟨first, ?_⟩
  rw [start, hbuilt.get?_initialBoard, hbuilt.initial?_eq (hbuilt.sense?_eq_some.1 hsense),
    hinitial]

/-! ## What the calls come to -/

namespace Built

variable (hbuilt : script.Built registry) {before after : List Call}
include hbuilt

/-- A call that uses up an item finds its capability as often used as it was made before. -/
theorem exists_answers (hcalls : ∀ made ∈ before ++ call :: after, Offered registry made) :
    ∃ between exchange next, script.Answers between call exchange next ∧
      (script.world.converse (before ++ call :: after) script.start).1[before.length]? =
        some exchange ∧
      (script.draws call → between.uses.count call.capability = before.count call) := by
  obtain ⟨hbefore, hcall⟩ := List.forall_mem_append.1 hcalls
  have hcall := hcall call List.mem_cons_self
  have hconverses := hbuilt.converses hbefore hbuilt.stocked_start
  have hanswers := hbuilt.answers hcall (hbuilt.stocked_start.converses hconverses)
  refine ⟨_, _, _, hanswers, World.getElem?_converse _ before after call _, fun hdraws => ?_⟩
  rw [hconverses.count hdraws fun other hother hsame =>
    (hbefore other hother).eq_of_capability_eq hbuilt.reached hcall hsame]
  exact Nat.zero_add _

/-- The answer to an action, after any calls before it, is the result at the place that the number
of its earlier calls assigns. -/
theorem result_of_act
    (hcalls : ∀ made ∈ before ++ .act capability :: after, Offered registry made)
    (haction : script.HasAction capability action) :
    (script.world.converse (before ++ .act capability :: after) script.start).1[before.length]? =
      some (.act capability (.ok (action.result (before.count (.act capability))))) := by
  obtain ⟨between, exchange, next, hanswers, hexchange, hcount⟩ := hbuilt.exists_answers hcalls
  have hcount := hcount rfl
  cases hanswers with
  | acted hfound hresult =>
    obtain rfl := Option.some.inj (hfound.symm.trans (hbuilt.action?_eq_some.2 haction))
    rw [hexchange, ← hresult, ← hcount]
    rfl

/-- The answer to a sense that reads a sequence is the value at the place that the number of its
earlier readings assigns. -/
theorem reading_of_read
    (hcalls : ∀ made ∈ before ++ .read capability :: after, Offered registry made)
    (hsense : script.HasSense capability sense) (hinitial : sense.initial = none) :
    ∃ value, sense.reading? (before.count (.read capability)) = some value ∧
      (script.world.converse (before ++ .read capability :: after)
          script.start).1[before.length]? =
        some (.read capability (.ok value)) := by
  have hfound := hbuilt.sense?_eq_some.2 hsense
  obtain ⟨between, exchange, next, hanswers, hexchange, hcount⟩ := hbuilt.exists_answers hcalls
  have hcount := hcount (by simp [draws, hfound, hinitial])
  cases hanswers with
  | replayed hfound' _ hreading =>
    obtain rfl := Option.some.inj (hfound.symm.trans hfound')
    rw [← hcount]
    exact ⟨_, hreading, hexchange⟩
  | shown hfound' hinitial' _ =>
    obtain rfl := Option.some.inj (hfound.symm.trans hfound')
    rw [hinitial] at hinitial'
    cases hinitial'

end Built

/-- Calls on the world of a script that builds, in any order: each action and each sense with
values goes through its own sequence, the blackboard shows what was written last under each name,
and the record holds the actions called. -/
theorem conversation_performs (hregistry : script.registry = .ok registry)
    (hcalls : ∀ call ∈ calls, Offered registry call) :
    script.Performs calls (script.world.converse calls script.start).1
      (script.world.converse calls script.start).2 := by
  have hbuilt := built_of_registry hregistry
  -- All parts are read off the account of the conversation, call by call.
  have hconverses := hbuilt.converses hcalls hbuilt.stocked_start
  have hstocked := hbuilt.stocked_start.converses hconverses
  refine
    { order := hconverses.order
      results := ?_
      readings := ?_
      board := ?_
      shown := ?_
      activity := hconverses.activity
      fired := ?_ }
  · intro before after capability action hsplit haction
    subst hsplit
    exact hbuilt.result_of_act hcalls haction
  · intro before after capability sense hsplit hsense hinitial
    subst hsplit
    exact hbuilt.reading_of_read hcalls hsense hinitial
  · intro name
    rw [hconverses.board, start, hbuilt.get?_initialBoard]
  · intro capability sense first hsense hinitial
    have hfound := hbuilt.sense?_eq_some.2 hsense
    obtain ⟨now, hnow⟩ := hstocked capability sense first hfound hinitial
    obtain ⟨behaviour, -, -, rfl⟩ := hsense
    exact ⟨now, hnow, read_shown hfound hinitial hnow⟩
  · intro name
    rw [hconverses.fired]
    exact Nat.zero_add _

/-- A door that opens at the second attempt, and a lamp over it that blinks. -/
def door : Script :=
  ⟨[{ name := "door"
      actions := [⟨"unlock", [false, true], .last, .ofEntries [("locked", .bool false)]⟩]
      senses :=
        [⟨"lamp", [.int 0, .int 1], .cycle, none⟩, ⟨"locked", [], .last, some (.bool true)⟩] }]⟩

/-- What `door` provides. -/
def doorRegistry : Registry :=
  .grow .empty (SlipStack.Behaviour.offer ⟨"door", ["unlock"], ["lamp", "locked"]⟩)

/-- Two attempts at the door, with looks at the lamp in between. -/
def doorCalls : List Call :=
  [.read ⟨"door", "lamp"⟩, .act ⟨"door", "unlock"⟩, .read ⟨"door", "locked"⟩,
    .read ⟨"door", "lamp"⟩, .act ⟨"door", "unlock"⟩, .read ⟨"door", "lamp"⟩]

theorem conversation_performs_door :
    door.registry = .ok doorRegistry ∧
      door.Performs doorCalls (door.world.converse doorCalls door.start).1
        (door.world.converse doorCalls door.start).2 ∧
      (door.world.converse doorCalls door.start).2.board.get? "locked" = some (.bool false) ∧
      (door.world.converse doorCalls door.start).2.fired "unlock" = 2 := by
  have hregistry : door.registry = .ok doorRegistry := by
    decide
  exact ⟨hregistry, conversation_performs hregistry (by decide), by decide, by decide⟩

end Script

end SlipStack
