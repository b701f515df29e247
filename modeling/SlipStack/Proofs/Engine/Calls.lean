import SlipStack.Proofs.Engine.Ready

/-!
# What is asked of the world

To find out whether a goal is reached, or an element ready, senses are read and nothing else is
done (`Reads`, `Looks`). So the senses that are read before the first ready element is fired do
not fail, and where an evaluation fails it is by its last call (`Fails`).
-/

namespace SlipStack.Engine

variable {ω ε : Type} {world : World ω ε} {w w₁ w' : ω} {e : ε}

/-- Reads that succeed, one right after the other, with the senses that are read, the latest
first. -/
inductive Reads (world : World ω ε) (start : ω) : List Capability → ω → Prop
  | start : Reads world start [] start
  | read {senses : List Capability} {sense : Capability} {reading : Value} {w w' : ω} :
      Reads world start senses w → world.read sense w = (.ok reading, w') →
      Reads world start (sense :: senses) w'

/-- Readings after readings are readings, the later ones first in the list. -/
theorem Reads.trans {senses more : List Capability} (h : Reads world w senses w₁)
    (h' : Reads world w₁ more w') : Reads world w (more ++ senses) w' := by
  induction h' with
  | start => exact h
  | read _ hread ih => exact .read ih hread

/-- What a call does, whatever it answers. -/
def Call.perform (world : World ω ε) (w : ω) : Call → Except ε Unit × ω
  | .act capability =>
    let (result, w) := world.act capability w
    (result.map fun _ => (), w)
  | .read capability =>
    let (result, w) := world.read capability w
    (result.map fun _ => (), w)

theorem Call.perform_read {capability : Capability} (h : world.read capability w = (.error e, w')) :
    (Call.read capability).perform world w = (.error e, w') := by
  rw [perform, h]
  rfl

theorem Call.perform_act {capability : Capability} (h : world.act capability w = (.error e, w')) :
    (Call.act capability).perform world w = (.error e, w') := by
  rw [perform, h]
  rfl

/-- The call fails, the last one after reads that succeed. -/
def Fails (world : World ω ε) (w : ω) (call : Call) (e : ε) (w' : ω) : Prop :=
  ∃ senses w₁, Reads world w senses w₁ ∧ call.perform world w₁ = (.error e, w')

theorem Fails.of_perform {call : Call} (h : call.perform world w = (.error e, w')) :
    Fails world w call e w' :=
  ⟨[], w, .start, h⟩

/-- More reads before. -/
theorem Fails.after {call : Call} {senses : List Capability} (h : Fails world w₁ call e w')
    (hreads : Reads world w senses w₁) : Fails world w call e w' := by
  obtain ⟨more, w₂, hmore, hcall⟩ := h
  exact ⟨_, w₂, hreads.trans hmore, hcall⟩

/-- Senses are read, the last of which may fail, and no action is called. -/
inductive Looks (world : World ω ε) (w : ω) : ω → Prop
  | reads {senses : List Capability} {w' : ω} : Reads world w senses w' → Looks world w w'
  | failed {sense : Capability} {e : ε} {w' : ω} : Fails world w (.read sense) e w' →
      Looks world w w'

/-- Looking, after some senses have been read, is still nothing but looking. -/
theorem Looks.after {senses : List Capability} (h : Looks world w₁ w')
    (hreads : Reads world w senses w₁) : Looks world w w' := by
  cases h with
  | reads hmore => exact .reads (hreads.trans hmore)
  | failed hfails => exact .failed (hfails.after hreads)

/-! ## Triggers and goals -/

/-- A sense that gives an answer has read its capability once, and done nothing else to the world.
-/
theorem Sense.reads_of_holds {sense : Sense} {passed : Bool}
    (h : sense.holds world w = (.ok passed, w')) : Reads world w [sense.capability] w' := by
  rw [holds] at h
  split at h
  · rename_i hread
    cases h
    exact .read .start hread
  · cases h

/-- A sense gives an error only if the reading of its capability does, and then the error is that
of the capability. -/
theorem Sense.fails_of_holds {sense : Sense} (h : sense.holds world w = (.error e, w')) :
    Fails world w (.read sense.capability) e w' := by
  rw [holds] at h
  split at h
  · cases h
  · rename_i hread
    cases h
    exact .of_perform (Call.perform_read hread)

namespace Trigger

/-- A trigger that gives an answer has only read: the senses up to the first that does not hold,
or all of them. -/
theorem reads_of_holds {trigger : Trigger} {passed : Bool}
    (h : trigger.holds world w = (.ok passed, w')) : ∃ senses, Reads world w senses w' := by
  induction trigger generalizing w with
  | nil =>
    cases h
    exact ⟨[], .start⟩
  | cons sense rest ih =>
    rw [holds] at h
    split at h
    · rename_i hfirst
      obtain ⟨senses, hrest⟩ := ih h
      exact ⟨_, (Sense.reads_of_holds hfirst).trans hrest⟩
    · rename_i hfirst
      cases h
      exact ⟨_, Sense.reads_of_holds hfirst⟩
    · cases h

/-- An error of a trigger is that of the reading of one of its senses, and is the last thing that
happens to the world. -/
theorem fails_of_holds {trigger : Trigger} (h : trigger.holds world w = (.error e, w')) :
    ∃ sense ∈ trigger, Fails world w (.read sense.capability) e w' := by
  induction trigger generalizing w with
  | nil => cases h
  | cons sense rest ih =>
    rw [holds] at h
    split at h
    · rename_i hfirst
      obtain ⟨failing, hmem, hfails⟩ := ih h
      exact ⟨failing, List.mem_cons_of_mem _ hmem, hfails.after (Sense.reads_of_holds hfirst)⟩
    · cases h
    · rename_i hfirst
      cases h
      exact ⟨sense, List.mem_cons_self, Sense.fails_of_holds hfirst⟩

/-- A goal that gives an answer has only read, as a trigger does. A goal without senses reads
nothing. -/
theorem reads_of_reached {goal : Trigger} {passed : Bool}
    (h : goal.reached world w = (.ok passed, w')) : ∃ senses, Reads world w senses w' := by
  rw [reached] at h
  split at h
  · cases h
    exact ⟨[], .start⟩
  · exact reads_of_holds h

theorem fails_of_reached {goal : Trigger} (h : goal.reached world w = (.error e, w')) :
    ∃ sense ∈ goal, Fails world w (.read sense.capability) e w' := by
  rw [reached] at h
  split at h
  · cases h
  · exact fails_of_holds h

end Trigger

/-! ## Elements -/

/-- An element of a competence that is asked whether it is ready only reads. An exhausted one does
not even do that. -/
theorem ElementState.reads_of_ready {state : ElementState} {passed : Bool}
    (h : state.ready world w = (.ok passed, w')) : ∃ senses, Reads world w senses w' := by
  rw [ready] at h
  split at h
  · rename_i hholds
    cases h
    exact Trigger.reads_of_holds hholds
  · rename_i hholds
    cases h
    exact Trigger.reads_of_holds hholds
  · cases h

/-- A drive element that is asked whether it is ready only reads: the interval is looked at after
its trigger, in its own state. -/
theorem Drive.reads_of_ready {drive : Drive} {now : Int} {passed : Bool}
    (h : drive.ready world now w = (.ok passed, w')) : ∃ senses, Reads world w senses w' := by
  rw [ready] at h
  split at h
  · rename_i hholds
    cases h
    exact Trigger.reads_of_holds hholds
  · rename_i hholds
    cases h
    exact Trigger.reads_of_holds hholds
  · cases h

/-- To pass over what is not ready takes reads only. -/
theorem Passed.reads {α β : Type} {ready : α → ω → Except ε Bool × ω}
    {fire : α → ω → Except ε β × α × ω}
    (hready : ∀ x w w', ready x w = (.ok false, w') → ∃ senses, Reads world w senses w')
    {xs : List α} (h : Passed (guarded ready fire) xs w w') :
    ∃ senses, Reads world w senses w' := by
  induction h with
  | nil => exact ⟨[], .start⟩
  | cons hx _ ih =>
    obtain ⟨senses, hfirst⟩ := hready _ _ _ (guarded_eq_none.1 hx).1
    obtain ⟨more, hrest⟩ := ih
    exact ⟨_, hfirst.trans hrest⟩

/-- Before an element of a competence is tried there are reads only. -/
theorem ElementState.reads_before {goal : Trigger} {reached : Bool} {states : List ElementState}
    (hgoal : goal.reached world w = (.ok reached, w₁))
    (hpassed : Passed (attempt world) states w₁ w') : ∃ senses, Reads world w senses w' := by
  rw [attempt_eq_guarded] at hpassed
  obtain ⟨senses, hreads⟩ := Trigger.reads_of_reached hgoal
  obtain ⟨more, hmore⟩ := hpassed.reads fun _ _ _ => reads_of_ready
  exact ⟨_, hreads.trans hmore⟩

/-- Before a drive element is tried there are reads only. -/
theorem Drive.reads_before {library : Library} {goal : Trigger} {reached : Bool} {now : Int}
    {drives : List Drive} (hgoal : goal.reached world w = (.ok reached, w₁))
    (hpassed : Passed (attempt library world now) drives w₁ w') :
    ∃ senses, Reads world w senses w' := by
  rw [attempt_eq_guarded] at hpassed
  obtain ⟨senses, hreads⟩ := Trigger.reads_of_reached hgoal
  obtain ⟨more, hmore⟩ := hpassed.reads fun _ _ _ => reads_of_ready
  exact ⟨_, hreads.trans hmore⟩

end SlipStack.Engine
