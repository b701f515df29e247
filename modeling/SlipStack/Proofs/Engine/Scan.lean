import SlipStack.Proofs.Engine.Pursuit
import SlipStack.Proofs.Engine.Tracing

/-!
# Priorities as one scan

What a drive collection or a competence does with a row of elements is told by `Scanned`, with
all reads and calls in their order: which element is fired, and what is read of the goal and of
the elements before that one. The evaluation is exactly that (`pursue_eq_iff`), and levels come to
the same as a row (`levels_scanned_as_one`).
-/

namespace SlipStack.Engine

variable {ω ε α β : Type}

/-! ## What is read -/

/-- The senses of a trigger that are read, each one once and in order, up to the first that does
not pass, with what comes of it. -/
inductive Trigger.Asked (world : World ω ε) :
    Trigger → ω → Except ε Bool → List Sense → ω → Prop
  | all (w : ω) : Asked world [] w (.ok true) [] w
  | last {sense : Sense} {rest : Trigger} {answer : Except ε Bool} {w w' : ω} :
      sense.holds world w = (answer, w') → answer ≠ .ok true →
        Asked world (sense :: rest) w answer [sense] w'
  | more {sense : Sense} {rest : Trigger} {answer : Except ε Bool} {asked : List Sense}
      {w w₁ w' : ω} : sense.holds world w = (.ok true, w₁) → Asked world rest w₁ answer asked w' →
        Asked world (sense :: rest) w answer (sense :: asked) w'

/-- What is read of a goal. An absent one is never reached. -/
inductive Trigger.Sought (world : World ω ε) :
    Trigger → ω → Except ε Bool → List Sense → ω → Prop
  | absent (w : ω) : Sought world [] w (.ok false) [] w
  | present {goal : Trigger} {answer : Except ε Bool} {asked : List Sense} {w w' : ω} :
      goal ≠ [] → goal.Asked world w answer asked w' → Sought world goal w answer asked w'

/-- Elements that are not ready, with the senses that are read of each: its trigger does not
hold, or it does and the element is barred. -/
inductive Aside (world : World ω ε) (trigger : α → Trigger) (barred : α → Bool) :
    List α → ω → List (List Sense) → ω → Prop
  | nil (w : ω) : Aside world trigger barred [] w [] w
  | cons {x : α} {xs : List α} {holds : Bool} {asked : List Sense} {rest : List (List Sense)}
      {w w₁ w' : ω} : (trigger x).Asked world w (.ok holds) asked w₁ →
        (holds = true → barred x = true) → Aside world trigger barred xs w₁ rest w' →
        Aside world trigger barred (x :: xs) w (asked :: rest) w'

/-- The calls that read senses. -/
def reads (senses : List Sense) : List Call :=
  senses.map fun sense => .read sense.capability

@[simp]
theorem reads_append (senses more : List Sense) :
    reads (senses ++ more) = reads senses ++ reads more :=
  List.map_append

/-- What a goal and a row of elements come to, what becomes of the elements, and all calls in
their order. Nothing is read of the elements after the one that is fired. -/
inductive Scanned (world : World ω ε) (trigger : α → Trigger) (barred : α → Bool)
    (fire : α → ω × List Call → Except ε β × α × ω × List Call) (goal : Trigger) (w : ω) :
    List α → Except ε (Verdict β) → List α → List Call → ω → Prop
  | goalFailed {xs : List α} {e : ε} {sought : List Sense} {w' : ω} :
      goal.Sought world w (.error e) sought w' →
      Scanned world trigger barred fire goal w xs (.error e) xs (reads sought) w'
  | reached {xs : List α} {sought : List Sense} {w' : ω} :
      goal.Sought world w (.ok true) sought w' →
      Scanned world trigger barred fire goal w xs (.ok .reached) xs (reads sought) w'
  | unready {xs : List α} {sought : List Sense} {aside : List (List Sense)} {w₁ w' : ω} :
      goal.Sought world w (.ok false) sought w₁ → Aside world trigger barred xs w₁ aside w' →
      Scanned world trigger barred fire goal w xs (.ok .unready) xs
        (reads (sought ++ aside.flatten)) w'
  | triggerFailed {before after : List α} {x : α} {e : ε} {sought asked : List Sense}
      {aside : List (List Sense)} {w₁ w₂ w' : ω} : goal.Sought world w (.ok false) sought w₁ →
      Aside world trigger barred before w₁ aside w₂ →
      (trigger x).Asked world w₂ (.error e) asked w' →
      Scanned world trigger barred fire goal w (before ++ x :: after) (.error e)
        (before ++ x :: after) (reads (sought ++ aside.flatten ++ asked)) w'
  | fired {before after : List α} {x x' : α} {result : Except ε β} {sought asked : List Sense}
      {aside : List (List Sense)} {calls : List Call} {w₁ w₂ w₃ w' : ω} :
      goal.Sought world w (.ok false) sought w₁ →
      Aside world trigger barred before w₁ aside w₂ →
      (trigger x).Asked world w₂ (.ok true) asked w₃ → barred x = false →
      fire x (w₃, []) = (result, x', w', calls.reverse) →
      Scanned world trigger barred fire goal w (before ++ x :: after)
        (result.map (.fired before.length)) (before ++ x' :: after)
        (reads (sought ++ aside.flatten ++ asked) ++ calls) w'

/-! ## Reads on record -/

section Record

variable {world : World ω ε} {w w' : ω} {calls calls' : List Call} {answer : Except ε Bool}

/-- What was recorded before does not matter. -/
theorem World.traced_extends (world : World ω ε) (calls : List Call) :
    World.Shows (Prod.map id (· ++ calls)) world.traced world.traced :=
  ⟨fun _ _ => rfl, fun _ _ => rfl⟩

/-- A sense that is asked in the traced world puts its reading, and nothing else, on the list of
calls. -/
theorem Sense.holds_traced (sense : Sense) (w : ω) (calls : List Call) :
    sense.holds world.traced (w, calls) =
      ((sense.holds world w).1, (sense.holds world w).2, .read sense.capability :: calls) := by
  have hread : world.traced.read sense.capability (w, calls) =
      ((world.read sense.capability w).1, (world.read sense.capability w).2,
        .read sense.capability :: calls) := rfl
  rw [holds, holds, hread]
  rcases world.read sense.capability w with ⟨result, w₁⟩
  cases result <;> rfl

/-- A trigger asked in the traced world has read its senses in order up to one that does not pass,
and these readings are on the list. -/
theorem Trigger.asked_of_holds {trigger : Trigger}
    (h : trigger.holds world.traced (w, calls) = (answer, w', calls')) :
    ∃ asked, trigger.Asked world w answer asked w' ∧ calls' = (reads asked).reverse ++ calls := by
  induction trigger generalizing w calls with
  | nil =>
    cases h
    exact ⟨[], .all _, rfl⟩
  | cons sense rest ih =>
    rw [holds, Sense.holds_traced] at h
    rcases hsense : sense.holds world w with ⟨first, w₁⟩
    rw [hsense] at h
    rcases first with e | _ | _
    · cases h
      exact ⟨[sense], .last hsense (by simp), rfl⟩
    · cases h
      exact ⟨[sense], .last hsense (by simp), rfl⟩
    · obtain ⟨asked, hasked, rfl⟩ := ih h
      exact ⟨sense :: asked, .more hsense hasked, by simp [reads]⟩

/-- The converse: senses read in order up to one that does not pass are what asking the trigger
comes to. -/
theorem Trigger.Asked.holds_traced {trigger : Trigger} {asked : List Sense}
    (h : trigger.Asked world w answer asked w') (calls : List Call) :
    trigger.holds world.traced (w, calls) = (answer, w', (reads asked).reverse ++ calls) := by
  induction h generalizing calls with
  | all => rfl
  | @last sense rest answer w w' hsense hfirst =>
    rw [holds, Sense.holds_traced, hsense]
    rcases answer with e | _ | _
    · rfl
    · rfl
    · exact absurd rfl hfirst
  | @more sense rest answer asked w w₁ w' hsense _ ih =>
    rw [holds, Sense.holds_traced, hsense]
    dsimp only
    rw [ih]
    simp [reads]

/-- What is read of a trigger comes first in it. -/
theorem Trigger.Asked.prefix_trigger {trigger : Trigger} {asked : List Sense}
    (h : trigger.Asked world w answer asked w') : asked <+: trigger := by
  induction h with
  | all => exact List.prefix_rfl
  | last => exact List.cons_prefix_cons.2 ⟨rfl, List.nil_prefix⟩
  | more _ _ ih => exact List.cons_prefix_cons.2 ⟨rfl, ih⟩

/-- A trigger that holds has had all its senses read. -/
theorem Trigger.Asked.eq_of_holds {trigger : Trigger} {asked : List Sense}
    (h : trigger.Asked world w answer asked w') (hholds : answer = .ok true) : asked = trigger := by
  induction h with
  | all => rfl
  | last _ hfirst => exact absurd hholds hfirst
  | more _ _ ih => rw [ih hholds]

/-- A goal asked in the traced world has read its senses up to one that does not pass, or none at
all if it is absent. -/
theorem Trigger.sought_of_reached {goal : Trigger}
    (h : goal.reached world.traced (w, calls) = (answer, w', calls')) :
    ∃ sought, goal.Sought world w answer sought w' ∧
      calls' = (reads sought).reverse ++ calls := by
  rw [reached] at h
  split at h
  case isTrue habsent =>
    subst habsent
    cases h
    exact ⟨[], .absent _, rfl⟩
  case isFalse hpresent =>
    obtain ⟨sought, hsought, hcalls⟩ := Trigger.asked_of_holds h
    exact ⟨sought, .present hpresent hsought, hcalls⟩

theorem Trigger.Sought.reached_traced {goal : Trigger} {sought : List Sense}
    (h : goal.Sought world w answer sought w') (calls : List Call) :
    goal.reached world.traced (w, calls) = (answer, w', (reads sought).reverse ++ calls) := by
  cases h with
  | absent => rfl
  | present hpresent hasked => rw [reached, if_neg hpresent, hasked.holds_traced]

/-! ## Elements on record -/

variable {trigger : α → Trigger} {barred : α → Bool}

/-- Whether the element is ready: its trigger holds, and it is not barred. -/
def readyBy (trigger : α → Trigger) (barred : α → Bool) (world : World ω ε) (x : α) (w : ω) :
    Except ε Bool × ω :=
  match (trigger x).holds world w with
  | (.ok true, w) => (.ok (!barred x), w)
  | (.ok false, w) => (.ok false, w)
  | (.error e, w) => (.error e, w)

theorem asked_of_readyBy {x : α}
    (h : readyBy trigger barred world.traced x (w, calls) = (answer, w', calls')) :
    ∃ holds asked, (trigger x).Asked world w holds asked w' ∧
      calls' = (reads asked).reverse ++ calls ∧
      answer = holds.map fun passed => passed && !barred x := by
  rw [readyBy] at h
  rcases hholds : (trigger x).holds world.traced (w, calls) with ⟨holds, w₁, calls₁⟩
  obtain ⟨asked, hasked, rfl⟩ := Trigger.asked_of_holds hholds
  rw [hholds] at h
  rcases holds with e | _ | _ <;> cases h <;> exact ⟨_, asked, hasked, rfl, rfl⟩

theorem Trigger.Asked.readyBy_traced (barred : α → Bool) {x : α} {holds : Except ε Bool}
    {asked : List Sense} (h : (trigger x).Asked world w holds asked w') (calls : List Call) :
    readyBy trigger barred world.traced x (w, calls) =
      (holds.map fun passed => passed && !barred x, w', (reads asked).reverse ++ calls) := by
  rw [readyBy, h.holds_traced]
  rcases holds with e | _ | _ <;> rfl

variable {fire : α → ω × List Call → Except ε β × α × ω × List Call}

/-- Elements passed over in the traced world leave on the list the readings of their triggers, in
the order of the elements. -/
theorem aside_of_passed {xs : List α}
    (h : Passed (guarded (readyBy trigger barred world.traced) fire) xs (w, calls) (w', calls')) :
    ∃ aside, Aside world trigger barred xs w aside w' ∧
      calls' = (reads aside.flatten).reverse ++ calls := by
  generalize hstart : (w, calls) = start at h
  generalize hlast : (w', calls') = last at h
  induction h generalizing w calls with
  | nil =>
    subst hstart
    cases hlast
    exact ⟨[], .nil _, rfl⟩
  | @cons x xs _ between _ hx _ ih =>
    subst hstart
    obtain ⟨w₁, calls₁⟩ := between
    obtain ⟨holds, asked, hasked, rfl, hanswer⟩ := asked_of_readyBy (guarded_eq_none.1 hx).1
    obtain ⟨aside, haside, hcalls⟩ := ih rfl hlast
    match holds with
    | .error e => cases hanswer
    | .ok passed =>
      refine ⟨asked :: aside, .cons hasked (fun hpassed => ?_) haside, ?_⟩
      · simpa [Except.map, hpassed] using hanswer
      · simp [hcalls]

/-- The converse: elements that are set aside, with their readings, are passed over by the search.
-/
theorem Aside.passed {xs : List α} {aside : List (List Sense)}
    (h : Aside world trigger barred xs w aside w')
    (fire : α → ω × List Call → Except ε β × α × ω × List Call) (calls : List Call) :
    Passed (guarded (readyBy trigger barred world.traced) fire) xs (w, calls)
      (w', (reads aside.flatten).reverse ++ calls) := by
  induction h generalizing calls with
  | nil => exact .nil _
  | @cons x xs holds asked rest w w₁ w' hasked hbarred _ ih =>
    have hready := hasked.readyBy_traced barred calls
    have hunready : (holds && !barred x) = false := by
      cases holds with
      | false => rfl
      | true => simpa using hbarred rfl
    rw [Except.map, hunready] at hready
    have hrest := ih ((reads asked).reverse ++ calls)
    rw [← List.append_assoc, ← List.reverse_append, ← reads_append] at hrest
    exact .cons (guarded_eq_none.2 ⟨hready, rfl⟩) hrest

/-! ## The scan -/

section Scan

variable {goal : Trigger} {xs xs' : List α} {verdict : Except ε (Verdict β)}
  (hfire : ∀ x w calls, fire x (w, calls) =
    Prod.map id (Prod.map id (Prod.map id (· ++ calls))) (fire x (w, [])))

include hfire

/-- The first half of the correspondence in the case of a firing: goal, elements set aside, and
the one that is fired, with all calls in order. -/
theorem scanned_of_fired {before after : List α} {x x' : α} {result : Except ε β}
    {sought : List Sense} {calls₂ calls₃ : List Call} {w₁ w₂ w₃ : ω}
    (hgoal : goal.Sought world w (.ok false) sought w₁)
    (hpassed : Passed (guarded (readyBy trigger barred world.traced) fire) before
      (w₁, (reads sought).reverse) (w₂, calls₂))
    (hready : readyBy trigger barred world.traced x (w₂, calls₂) = (.ok true, w₃, calls₃))
    (hx : fire x (w₃, calls₃) = (result, x', w', calls')) :
    Scanned world trigger barred fire goal w (before ++ x :: after)
      (result.map (.fired before.length)) (before ++ x' :: after) calls'.reverse w' := by
  obtain ⟨aside, haside, rfl⟩ := aside_of_passed hpassed
  obtain ⟨holds, asked, hasked, rfl, hanswer⟩ := asked_of_readyBy hready
  have hboth : holds = .ok true ∧ barred x = false := by
    match holds with
    | .error e => cases hanswer
    | .ok false => cases hanswer
    | .ok true => exact ⟨rfl, by simpa [Except.map] using hanswer.symm⟩
  obtain ⟨rfl, hfree⟩ := hboth
  rw [hfire] at hx
  rcases hfirst : fire x (w₃, []) with ⟨result₀, x₀, w₀, calls₀⟩
  rw [hfirst] at hx
  cases hx
  -- The list has the latest call first, and the firing put its calls before the readings.
  have hcalls : (calls₀ ++ ((reads asked).reverse ++
      ((reads aside.flatten).reverse ++ (reads sought).reverse))).reverse =
        reads (sought ++ aside.flatten ++ asked) ++ calls₀.reverse := by simp
  rw [← List.reverse_reverse calls₀] at hfirst
  rw [hcalls]
  exact .fired hgoal haside hasked hfree hfirst

/-- Any search over one level, whether it fires, fails or finds nothing, is a scan in the sense of
`Scanned`. -/
theorem scanned_of_searched {sought : List Sense} {w₁ : ω} {result : Except ε (Option (Nat × β))}
    (hgoal : goal.Sought world w (.ok false) sought w₁)
    (h : Searched (guarded (readyBy trigger barred world.traced) fire) 0
      (w₁, (reads sought).reverse) xs result xs' (w', calls')) :
    Scanned world trigger barred fire goal w xs (result.map .ofReady) xs' calls'.reverse w' := by
  generalize hlast : (w', calls') = last at h
  -- The three ways in which a search can end are those of a scan.
  cases h with
  | none hpassed =>
    subst hlast
    obtain ⟨aside, haside, rfl⟩ := aside_of_passed hpassed
    have hcalls : ((reads aside.flatten).reverse ++ (reads sought).reverse).reverse =
        reads (sought ++ aside.flatten) := by simp
    rw [hcalls]
    exact .unready hgoal haside
  | @ready before after x x' found between _ hpassed hx =>
    subst hlast
    obtain ⟨⟨w₃, calls₃⟩, hready, hfired⟩ := guarded_eq_some.1 hx
    have hscan : Scanned world trigger barred fire goal w (before ++ x :: after)
        (.ok (.fired before.length found)) (before ++ x' :: after) calls'.reverse w' :=
      scanned_of_fired hfire hgoal hpassed hready hfired
    rw [Nat.zero_add]
    exact hscan
  | @failed before after x x' e between _ hpassed hx =>
    subst hlast
    rcases guarded_eq_error.1 hx with ⟨hready, rfl⟩ | ⟨⟨w₃, calls₃⟩, hready, hfired⟩
    · obtain ⟨w₂, calls₂⟩ := between
      obtain ⟨aside, haside, rfl⟩ := aside_of_passed hpassed
      obtain ⟨holds, asked, hasked, rfl, hanswer⟩ := asked_of_readyBy hready
      match holds with
      | .ok passed => cases hanswer
      | .error e =>
        cases hanswer
        have hcalls : ((reads asked).reverse ++
            ((reads aside.flatten).reverse ++ (reads sought).reverse)).reverse =
              reads (sought ++ aside.flatten ++ asked) := by simp
        rw [hcalls]
        exact .triggerFailed hgoal haside hasked
    · exact scanned_of_fired hfire hgoal hpassed hready hfired

/-- A pursuit over one level is a scan; its calls, the latest first on the list, are those of the
scan in reverse. -/
theorem scanned_of_pursue
    (h : pursue world.traced (guarded (readyBy trigger barred world.traced) fire) goal [xs]
      (w, []) = (verdict, [xs'], w', calls')) :
    Scanned world trigger barred fire goal w xs verdict xs' calls'.reverse w' := by
  rw [pursue_singleton] at h
  rcases hgoal : goal.reached world.traced (w, []) with ⟨answer, w₁, calls₁⟩
  rw [hgoal] at h
  obtain ⟨sought, hsought, rfl⟩ := Trigger.sought_of_reached hgoal
  rw [List.append_nil] at h
  match answer with
  | .error e =>
    cases h
    rw [List.reverse_reverse]
    exact .goalFailed hsought
  | .ok true =>
    cases h
    rw [List.reverse_reverse]
    exact .reached hsought
  | .ok false =>
    dsimp only at h
    rcases hsearch : firstReady (guarded (readyBy trigger barred world.traced) fire) 0 xs
      (w₁, (reads sought).reverse) with ⟨result, after, w₂, calls₂⟩
    rw [hsearch] at h
    cases h
    exact scanned_of_searched hfire hsought (firstReady_searched guarded_quiet hsearch)

/-- The converse: a scan determines the pursuit, with result, elements, calls and world. Together
they make `Scanned` a full account. -/
theorem Scanned.pursue_eq {calls : List Call}
    (h : Scanned world trigger barred fire goal w xs verdict xs' calls w') :
    pursue world.traced (guarded (readyBy trigger barred world.traced) fire) goal [xs] (w, []) =
      (verdict, [xs'], w', calls.reverse) := by
  rw [pursue_singleton]
  cases h with
  | goalFailed hgoal => rw [hgoal.reached_traced, List.append_nil]
  | reached hgoal => rw [hgoal.reached_traced, List.append_nil]
  | @unready xs sought aside w₁ w' hgoal haside =>
    have hpassed := haside.passed fire (reads sought).reverse
    rw [hgoal.reached_traced, List.append_nil]
    dsimp only
    rw [hpassed.firstReady_eq]
    simp [Except.map, Verdict.ofReady]
  | @triggerFailed before after x e sought asked aside w₁ w₂ w' hgoal haside hasked =>
    have hpassed := haside.passed fire (reads sought).reverse
    have hready := hasked.readyBy_traced barred
      ((reads aside.flatten).reverse ++ (reads sought).reverse)
    rw [hgoal.reached_traced, List.append_nil]
    dsimp only
    rw [hpassed.firstReady_append, firstReady, guarded, hready]
    simp [Except.map]
  | @fired before after x x' result sought asked aside calls w₁ w₂ w₃ w' hgoal haside hasked hfree
      hx =>
    have hpassed := haside.passed fire (reads sought).reverse
    -- What was read before is passed on untouched, so it is given a name.
    generalize hrecord : (reads aside.flatten).reverse ++ (reads sought).reverse = record at hpassed
    have hready : readyBy trigger barred world.traced x (w₂, record) =
        (.ok true, w₃, (reads asked).reverse ++ record) := by
      rw [hasked.readyBy_traced, hfree]
      rfl
    have hattempt : guarded (readyBy trigger barred world.traced) fire x (w₂, record) =
        (result.map some, x', w', calls.reverse ++ ((reads asked).reverse ++ record)) := by
      rw [guarded, hready]
      dsimp only
      rw [hfire, hx]
      rfl
    rw [hgoal.reached_traced, List.append_nil]
    dsimp only
    rw [hpassed.firstReady_append, firstReady, hattempt]
    cases result <;> simp [Except.map, Verdict.ofReady, ← hrecord]

/-- A goal and a row of elements come to what the scan says, and to nothing else. -/
theorem pursue_eq_iff {calls : List Call} :
    pursue world.traced (guarded (readyBy trigger barred world.traced) fire) goal [xs] (w, []) =
        (verdict, [xs'], w', calls.reverse) ↔
      Scanned world trigger barred fire goal w xs verdict xs' calls w' := by
  refine ⟨fun h => ?_, fun h => h.pursue_eq hfire⟩
  have hscan := scanned_of_pursue hfire h
  rw [List.reverse_reverse] at hscan
  exact hscan

end Scan

end Record

/-! ## Drive collections and competences -/

variable {world : World ω ε}

/-- The firing of a drive element that is ready at the time `now`. -/
def Drive.fireAt (library : Library) (world : World ω ε) (now : Int) (drive : Drive) (w : ω) :
    Except ε Unit × Drive × ω :=
  ({ drive with lastFired := now } : Drive).fire library world w

/-- What an evaluation of the drive elements at the time `now` comes to. -/
abbrev Drive.Scanned (library : Library) (world : World ω ε) (now : Int) :=
  Engine.Scanned world Drive.trigger (Drive.tooEarly · now) (Drive.fireAt library world.traced now)

/-- What an evaluation of the elements of a competence comes to. -/
abbrev ElementState.Scanned (world : World ω ε) :=
  Engine.Scanned world (·.element.trigger) ElementState.exhausted (ElementState.fire world.traced)

/-- Attempts on drive elements have the common form: a trigger, a bar, which is the interval, and
a firing. -/
theorem Drive.attempt_eq_readyBy (library : Library) (world : World ω ε) (now : Int) :
    attempt library world now =
      guarded (readyBy Drive.trigger (tooEarly · now) world) (fireAt library world now) :=
  attempt_eq_guarded library world now

/-- Attempts on elements of competences have the common form: a trigger, a bar, which is
exhaustion, and a firing. -/
theorem ElementState.attempt_eq_readyBy (world : World ω ε) :
    attempt world = guarded (readyBy (·.element.trigger) exhausted world) (fire world) :=
  attempt_eq_guarded world

theorem Drive.fireAt_traced (library : Library) (now : Int) (drive : Drive) (w : ω)
    (calls : List Call) :
    drive.fireAt library world.traced now (w, calls) =
      Prod.map id (Prod.map id (Prod.map id (· ++ calls)))
        (drive.fireAt library world.traced now (w, [])) := by
  have hnode := Node.fire_shown (world.traced_extends calls) (drive.node library) (w, [])
  have hstart : Prod.map id (· ++ calls) (w, []) = (w, calls) := rfl
  rw [hstart] at hnode
  rw [fireAt, fireAt, fire_eq, fire_eq, hnode]
  rcases (drive.node library).fire world.traced (w, []) with ⟨result, node, w₁⟩
  cases result <;> rfl

theorem ElementState.fire_traced (state : ElementState) (w : ω) (calls : List Call) :
    state.fire world.traced (w, calls) =
      Prod.map id (Prod.map id (Prod.map id (· ++ calls))) (state.fire world.traced (w, [])) :=
  state.fire_shown (world.traced_extends calls) (w, [])

/-- Levels come to the same as the single level of all their elements, and that to what the scan
of a row says. The second evaluation keeps a record of all calls, the latest first. -/
structure OneScan {ρ : Type} (plain : List (List α) → ω → Except ε ρ × List (List α) × ω)
    (recorded : List (List α) → ω × List Call → Except ε ρ × List (List α) × ω × List Call)
    (answer : Verdict β → ρ)
    (scanned : ω → List α → Except ε (Verdict β) → List α → List Call → ω → Prop) : Prop where
  /-- The record makes no difference. -/
  record : ∀ levels w,
    plain levels w = Prod.map id (Prod.map id Prod.fst) (recorded levels (w, []))
  /-- Result, elements, world and calls are the same as with a single level. -/
  flatten : ∀ levels w, recorded [levels.flatten] (w, []) =
    Prod.map id (Prod.map (fun levels => [levels.flatten]) id) (recorded levels (w, []))
  /-- No element changes its level. -/
  lengths : ∀ levels w, (recorded levels (w, [])).2.1.map List.length = levels.map List.length
  scan : ∀ xs w result xs' calls w', recorded [xs] (w, []) = (result, [xs'], w', calls.reverse) ↔
    ∃ verdict : Except ε (Verdict β), verdict.map answer = result ∧
      scanned w xs verdict xs' calls w'

/-- Whatever is a pursuit over levels, with attempts in the common form, scans the levels as one.
Drives and competences are its two instances. -/
theorem oneScan_of_pursue {ρ : Type} {trigger : α → Trigger} {barred : α → Bool}
    {plain : List (List α) → ω → Except ε ρ × List (List α) × ω}
    {recorded : List (List α) → ω × List Call → Except ε ρ × List (List α) × ω × List Call}
    {fire : α → ω × List Call → Except ε β × α × ω × List Call} {goal : Trigger}
    {answer : Verdict β → ρ}
    (hrecord : ∀ levels w,
      plain levels w = Prod.map id (Prod.map id Prod.fst) (recorded levels (w, [])))
    (hfire : ∀ x w calls, fire x (w, calls) =
      Prod.map id (Prod.map id (Prod.map id (· ++ calls))) (fire x (w, [])))
    (hpursue : ∀ levels w, recorded levels w = Prod.map (Except.map answer) id
      (pursue world.traced (guarded (readyBy trigger barred world.traced) fire) goal levels w)) :
    OneScan plain recorded answer (Scanned world trigger barred fire goal) := by
  refine ⟨hrecord, fun levels w => ?_, fun levels w => ?_, fun xs w result xs' calls w' => ?_⟩
  · rw [hpursue, hpursue, pursue_flatten]
    rfl
  · rw [hpursue]
    exact map_length_pursue ..
  · rw [hpursue]
    constructor
    · intro h
      rcases hrow : pursue world.traced (guarded (readyBy trigger barred world.traced) fire) goal
        [xs] (w, []) with ⟨verdict, levels, w₁⟩
      rw [hrow] at h
      cases h
      exact ⟨verdict, rfl, (pursue_eq_iff hfire).1 hrow⟩
    · intro h
      obtain ⟨verdict, rfl, hscan⟩ := h
      rw [(pursue_eq_iff hfire).2 hscan]
      rfl

/-- For drive collections and for competences, levels of priority come to one scan for the first
ready element. Of the trigger of an element the scan reads what comes first in it, and all of it
only if it holds so far. -/
theorem levels_scanned_as_one (world : World ω ε) :
    (∀ library goal now,
      OneScan (evaluate library world goal now) (evaluate library world.traced goal now)
        Verdict.outcome (Drive.Scanned library world now goal)) ∧
      (∀ goal, OneScan (fireCompetence world goal) (fireCompetence world.traced goal)
        Verdict.move (ElementState.Scanned world goal)) ∧
      ∀ trigger w answer asked w', Trigger.Asked world trigger w answer asked w' →
        asked <+: trigger ∧ (answer = .ok true → asked = trigger) := by
  refine ⟨fun library goal now => ?_, fun goal => ?_, fun trigger w answer asked w' hasked => ?_⟩
  · refine oneScan_of_pursue (fun levels w => ?_) (Drive.fireAt_traced library now)
      fun levels w => ?_
    · exact evaluate_shown world.traced_shows library goal now levels (w, [])
    · rw [evaluate_eq_pursue, Drive.attempt_eq_readyBy]
  · refine oneScan_of_pursue (fun levels w => ?_) ElementState.fire_traced fun levels w => ?_
    · exact fireCompetence_shown world.traced_shows goal levels (w, [])
    · rw [fireCompetence_eq_pursue, ElementState.attempt_eq_readyBy]
  · exact ⟨hasked.prefix_trigger, hasked.eq_of_holds⟩

end SlipStack.Engine
