import Mathlib.Algebra.BigOperators.Ring.Finset
import Mathlib.Data.List.Infix
import SlipStack.Engine.Config

/-!
# The books of a real-time clock

A real-time clock is told of waits, of ends of steps, of resets and of new periods, each with what
the clock of the system reads then (`Pacer.Event`). What it keeps of all that is told here by the
calls alone, in any order of them and with waits and ends that have no counterpart: the durations
of the steps since the last fresh start (`History.durations`), the latest end of a step and the
period. The pacer keeps exactly the latest of these durations, as many as its window holds
(`Pacer.Keeps`), and paces the steps by their mean.

The number of durations is narrowed to 32 bits before it is divided by. So the mean is the right
one only as long as 32 bits hold their number.
-/

namespace SlipStack.Engine

namespace Pacer

/-- A call that changes a pacer. -/
inductive Call where
  /-- A wait is over, and a step starts. -/
  | wait
  /-- A step ends. -/
  | finish
  | reset
  | setPeriod (periodMs : Nat)
  deriving DecidableEq, Repr

/-- A call with the nanoseconds that the clock of the system read for it. -/
structure Event where
  call : Call
  reading : Nat
  deriving DecidableEq, Repr

/-- The pacer after a call. -/
def told (pacer : Pacer) (event : Event) : Pacer :=
  match event.call with
  | .wait => pacer.beginStep event.reading
  | .finish => pacer.endStep event.reading
  | .reset => pacer.restart event.reading
  | .setPeriod periodMs => pacer.setPeriod periodMs event.reading

/-! ## What the calls tell -/

/-- Calls, the latest first. -/
abbrev History := List Event

namespace History

/-- Whether a call makes a fresh start. -/
def restarts (event : Event) : Bool :=
  match event.call with
  | .wait | .finish => false
  | .reset | .setPeriod _ => true

/-- The calls since the last fresh start. -/
def fresh (history : History) : History :=
  history.takeWhile fun event => !restarts event

/-- When the step was started that is still open: at the latest of the waits after which there was
no other call. -/
def opened? (history : History) : Option Nat :=
  (history.takeWhile fun event => event.call = .wait).head?.map Event.reading

/-- How long the step took that the latest call ended, if there is one. -/
def duration? : History → Option Int
  | ⟨.finish, reading⟩ :: earlier => (opened? earlier).map fun started => reading - started
  | _ => none

/-- The durations of the steps since the last fresh start, the latest first. -/
def durations (history : History) : List Int :=
  (fresh history).tails.filterMap duration?

/-- When a step was ended last since the last fresh start. -/
def ended? (history : History) : Option Nat :=
  ((fresh history).find? fun event => event.call = .finish).map Event.reading

/-- The period that was set last, in milliseconds. -/
def period (first : Nat) (history : History) : Nat :=
  (history.findSome? fun event =>
    match event.call with
    | .setPeriod periodMs => some periodMs
    | _ => none).getD first

/-- The readings never go back. -/
def Steady (history : History) : Prop :=
  history.Pairwise fun later earlier => earlier.reading ≤ later.reading

variable {history : History} {event : Event} {now started : Nat}

/-- A call that starts the pacer over leaves nothing of the history to count. -/
theorem fresh_cons_of_restarts (h : restarts event = true) : fresh (event :: history) = [] := by
  simp [fresh, h]

theorem fresh_cons (h : restarts event = false) :
    fresh (event :: history) = event :: fresh history := by
  simp [fresh, h]

theorem durations_cons_of_restarts (h : restarts event = true) :
    durations (event :: history) = [] := by
  rw [durations, fresh_cons_of_restarts h]
  rfl

/-- A call that does not start the pacer over adds the duration of the step that it finishes, if
it finishes one, and leaves the earlier durations. -/
theorem durations_cons (h : restarts event = false) :
    durations (event :: history) =
      (duration? (event :: fresh history)).toList ++ durations history := by
  rw [durations, fresh_cons h, List.tails_cons, List.filterMap_cons, ← durations]
  cases duration? (event :: fresh history) <;> rfl

/-- The start of an open step is a reading of the clock that the history tells of, so it is not
later than now. -/
theorem exists_of_opened? (h : opened? (fresh history) = some started) :
    ∃ event ∈ history, event.reading = started := by
  obtain ⟨event, hevent, hreading⟩ := Option.map_eq_some_iff.1 h
  have hmem := (List.takeWhile_prefix _).subset (List.mem_of_mem_head? hevent)
  exact ⟨event, (List.takeWhile_prefix _).subset hmem, hreading⟩

/-- The end of the last step is a reading of the clock that the history tells of, so it is not
later than now. -/
theorem exists_of_ended? (h : ended? history = some started) :
    ∃ event ∈ history, event.reading = started := by
  obtain ⟨event, hevent, hreading⟩ := Option.map_eq_some_iff.1 h
  exact ⟨event, (List.takeWhile_prefix _).subset (List.mem_of_find?_eq_some hevent), hreading⟩

end History

open History

/-! ## What the pacer keeps -/

/-- Finishing a step that was never begun marks its end, but adds no cost, as there is nothing to
measure. -/
theorem endStep_of_none {pacer : Pacer} (h : pacer.started = none) (now : Nat) :
    pacer.endStep now = { pacer with ended := some now } := by
  rw [endStep, h]

/-- Finishing a step adds its cost at the end of the window, and drops the oldest one once the
window is full. -/
theorem endStep_of_some {pacer : Pacer} {started : Nat} (h : pacer.started = some started)
    (now : Nat) : pacer.endStep now =
      { pacer with costs := pacer.record (now - started), started := none, ended := some now } := by
  rw [endStep, h]

/-- Of the costs with one more, the latest are kept. -/
theorem reverse_record (pacer : Pacer) (cost : Nat) :
    (pacer.record cost).reverse = (cost :: pacer.costs.reverse).take pacer.window := by
  rw [record, List.reverse_drop, List.reverse_append, List.length_append]
  have hlength : (cost :: pacer.costs.reverse).length = pacer.costs.length + 1 := by simp
  refine (List.take_eq_take_iff.2 ?_ :
    (cost :: pacer.costs.reverse).take _ = (cost :: pacer.costs.reverse).take _)
  rw [hlength, List.length_singleton]
  omega

/-- The pacer keeps what the calls tell: it is at the start of the step that is open, and has the
costs of the latest steps that were closed. -/
structure Keeps (firstMs size : Nat) (history : History) (pacer : Pacer) : Prop where
  period : pacer.period = history.period firstMs * millisecond
  window : pacer.window = size
  started : pacer.started = opened? (fresh history)
  ended : pacer.ended = ended? history
  costs : pacer.costs.reverse.map Nat.cast = (durations history).take size

variable {firstMs size : Nat} {history : History} {pacer : Pacer} {event : Event}

/-- A pacer that was just made keeps the empty history: no cost, no open step, and the first
period. -/
theorem keeps_start (firstMs begun : Nat) (hsize : 1 ≤ size) :
    Keeps firstMs size [] (.start firstMs size begun) :=
  ⟨rfl, Nat.max_eq_left hsize, rfl, rfl, by simp [start, durations, fresh, duration?]⟩

/-- The end of a wait opens a step, and is no end and no duration. -/
theorem Keeps.wait (h : Keeps firstMs size history pacer) (reading : Nat) :
    Keeps firstMs size (⟨.wait, reading⟩ :: history) (pacer.beginStep reading) where
  period := h.period
  window := h.window
  started := by
    rw [fresh_cons rfl]
    rfl
  ended := by
    rw [ended?, fresh_cons rfl]
    exact h.ended
  costs := by
    rw [durations_cons rfl]
    exact h.costs

/-- The end of a step closes the open one, if there is one, and its duration is the latest. -/
theorem Keeps.finish (h : Keeps firstMs size history pacer) {reading : Nat}
    (hsteady : Steady (⟨.finish, reading⟩ :: history)) :
    Keeps firstMs size (⟨.finish, reading⟩ :: history) (pacer.endStep reading) := by
  have hopened : opened? (fresh (⟨.finish, reading⟩ :: history)) = none := by
    rw [fresh_cons rfl]
    rfl
  have hlast : ended? (⟨.finish, reading⟩ :: history) = some reading := by
    rw [ended?, fresh_cons rfl]
    rfl
  cases hopen : pacer.started with
  | none =>
    rw [endStep_of_none hopen]
    refine ⟨h.period, h.window, hopen.trans hopened.symm, hlast.symm, ?_⟩
    rw [durations_cons rfl, duration?, ← h.started, hopen]
    exact h.costs
  | some started =>
    -- The step was started at an earlier reading.
    obtain ⟨event, hevent, hreading⟩ := exists_of_opened? (h.started.symm.trans hopen)
    have hle : started ≤ reading := hreading ▸ List.rel_of_pairwise_cons hsteady hevent
    rw [endStep_of_some hopen]
    refine ⟨h.period, h.window, hopened.symm, hlast.symm, ?_⟩
    rw [durations_cons rfl, duration?, ← h.started, hopen, reverse_record, h.window,
      List.map_take, List.map_cons, h.costs, Int.natCast_sub hle]
    cases size with
    | zero => rfl
    | succ size => simp [List.take_take]

/-- A fresh start leaves the period and the window, and nothing else of the calls before it. -/
theorem keeps_restart (hrestarts : restarts event = true)
    (hperiod : pacer.period = History.period firstMs (event :: history) * millisecond)
    (hwindow : pacer.window = size) (reading : Nat) :
    Keeps firstMs size (event :: history) (pacer.restart reading) where
  period := hperiod
  window := hwindow
  started := by
    rw [fresh_cons_of_restarts hrestarts]
    rfl
  ended := by
    rw [ended?, fresh_cons_of_restarts hrestarts]
    rfl
  costs := by
    rw [durations_cons_of_restarts hrestarts]
    simp [restart]

/-- The step lemma of pacing: after any one call the state of the pacer is again what the history
of calls says, with that call in front. -/
theorem Keeps.told (h : Keeps firstMs size history pacer)
    (hsteady : Steady (event :: history)) :
    Keeps firstMs size (event :: history) (pacer.told event) := by
  rcases event with ⟨call, reading⟩
  cases call with
  | wait => exact h.wait reading
  | finish => exact h.finish hsteady
  | reset =>
    have hrestarts : restarts ⟨.reset, reading⟩ = true := rfl
    exact keeps_restart hrestarts h.period h.window reading
  | setPeriod periodMs =>
    have hrestarts : restarts ⟨.setPeriod periodMs, reading⟩ = true := rfl
    have hperiod : ({ pacer with period := periodMs * millisecond } : Pacer).period =
        History.period firstMs (⟨.setPeriod periodMs, reading⟩ :: history) * millisecond := rfl
    exact keeps_restart hrestarts hperiod h.window reading

/-- The pacer after all calls. -/
def after (pacer : Pacer) (history : History) : Pacer :=
  history.foldr (fun event pacer => pacer.told event) pacer

/-- The run lemma of pacing: after any calls, with readings that never go back, the state of the
pacer is a function of their history. -/
theorem keeps_after (firstMs begun : Nat) (hsize : 1 ≤ size) (hsteady : Steady history) :
    Keeps firstMs size history ((start firstMs size begun).after history) := by
  induction history with
  | nil => exact keeps_start firstMs begun hsize
  | cons event history ih => exact (ih hsteady.of_cons).told hsteady

/-! ## The mean and the wait -/

/-- The number of costs. -/
def History.count (size : Nat) (history : History) : Nat :=
  min size (durations history).length

/-- The durations of the last steps, the latest first, as many as the window holds. -/
def History.latest (size : Nat) (history : History) : List Int :=
  (durations history).take (history.count size)

/-- Their mean, rounded down; zero if there is none. -/
def History.mean (size : Nat) (history : History) : Int :=
  (history.latest size).sum / history.count size

/-- The pacer keeps the right costs, and paces the steps by them. -/
structure Paces (firstMs size : Nat) (history : History) (now : Nat) (pacer : Pacer) : Prop where
  /-- The oldest first. -/
  costs : pacer.costs.map Nat.cast = (history.latest size).reverse
  divisor : pacer.divisor = history.count size % UInt32.size
  /-- Before the first end of a step there is nothing to wait for. -/
  unended : ended? history = none → pacer.pending now = 0
  pending_le : pacer.pending now ≤ history.period firstMs * millisecond
  divisor_ne_zero : history.count size < UInt32.size → pacer.costs ≠ [] → pacer.divisor ≠ 0
  average : history.count size < UInt32.size → (pacer.averageCost : Int) = history.mean size
  pending : history.count size < UInt32.size → ∀ ended, ended? history = some ended →
    (pacer.pending now : Int) =
      max 0 (history.period firstMs * millisecond - history.mean size - (now - ended))

section Kept

variable {now : Nat}

/-- The queue of the pacer holds the durations of the latest steps, the oldest first, as many as
the window has room for. -/
theorem Keeps.costs_eq (h : Keeps firstMs size history pacer) :
    pacer.costs.map Nat.cast = (history.latest size).reverse := by
  rw [latest, count, ← List.take_eq_take_min, ← h.costs, List.map_reverse, List.reverse_reverse]

/-- There are as many costs as steps have been finished, up to the size of the window. -/
theorem Keeps.length_costs (h : Keeps firstMs size history pacer) :
    pacer.costs.length = history.count size := by
  rw [← List.length_reverse, ← List.length_map (Nat.cast : Nat → Int), h.costs, List.length_take,
    count]

/-- The mean that the pacer computes is that of the latest durations. The count must fit 32 bits,
to which the division narrows it. -/
theorem Keeps.averageCost (h : Keeps firstMs size history pacer)
    (hcount : history.count size < UInt32.size) :
    (pacer.averageCost : Int) = history.mean size := by
  have hdivisor : pacer.divisor = history.count size := by
    rw [divisor, h.length_costs, Nat.mod_eq_of_lt hcount]
  have hsum : (pacer.costs.sum : Int) = (history.latest size).sum := by
    rw [Nat.cast_list_sum, h.costs_eq, List.sum_reverse]
  rw [Pacer.averageCost, mean, ← hsum, hdivisor]
  split
  · rename_i hnone
    rw [hnone]
    simp
  · exact Int.natCast_ediv _ _

/-- The time still to wait is the period less the mean cost and less what has passed since the end
of the last step, or nothing if that is negative. -/
theorem Keeps.pending_eq (h : Keeps firstMs size history pacer)
    (hnow : ∀ event ∈ history, event.reading ≤ now) {ended : Nat}
    (hended : ended? history = some ended) (hcount : history.count size < UInt32.size) :
    (pacer.pending now : Int) =
      max 0 (history.period firstMs * millisecond - history.mean size - (now - ended)) := by
  obtain ⟨event, hevent, hreading⟩ := exists_of_ended? hended
  have hle : ended ≤ now := hreading ▸ hnow event hevent
  have hperiod : (pacer.period : Int) = history.period firstMs * millisecond := by
    rw [h.period]
    exact Int.natCast_mul _ _
  rw [pending, h.ended, hended, ← h.averageCost hcount, ← hperiod]
  dsimp only
  omega

theorem Keeps.paces (h : Keeps firstMs size history pacer)
    (hnow : ∀ event ∈ history, event.reading ≤ now) : Paces firstMs size history now pacer where
  costs := h.costs_eq
  divisor := by rw [Pacer.divisor, h.length_costs]
  unended := fun hnone => by rw [Pacer.pending, h.ended, hnone]
  pending_le := by
    rw [← h.period, Pacer.pending]
    split <;> omega
  divisor_ne_zero := fun hcount hcosts => by
    have hpos := List.length_pos_iff.2 hcosts
    rw [Pacer.divisor, h.length_costs, Nat.mod_eq_of_lt hcount, ← h.length_costs]
    omega
  average := h.averageCost
  pending := fun hcount _ hended => h.pending_eq hnow hended hcount

end Kept

end Pacer

open Pacer Pacer.History

/-- A valid configuration has a window for one cost at least, so that the queue is never asked to
drop from nothing. -/
theorem Config.one_le_window {config : Config} (h : config.error? = none) :
    1 ≤ config.timer.window := by
  rw [error?] at h
  split at h
  · cases h
  · split at h
    · cases h
    · split at h
      · cases h
      · omega

/-- For every window that a configuration may have, every period and all calls in any order, at
readings that do not go back, the pacer keeps the durations of the last steps. If 32 bits hold
their number, it never divides by zero, and it waits for what the mean of them and the time since
the last end of a step leave of the period. -/
theorem pacing_exact {config : Config} (hvalid : config.error? = none) (periodMs begun : Nat)
    {history : History} {now : Nat} (hsteady : Steady history)
    (hnow : ∀ event ∈ history, event.reading ≤ now) :
    Paces periodMs config.timer.window history now
      ((Pacer.start periodMs config.timer.window begun).after history) :=
  (keeps_after periodMs begun (Config.one_le_window hvalid) hsteady).paces hnow

/-- The default configuration with another window. -/
def Config.ofWindow (window : Nat) : Config :=
  { Config.default with timer := { Timer.default with window } }

/-- An end without a step, a step that was started twice, two more steps, and an open one; the
latest first. -/
def errands : History :=
  [⟨.wait, 50⟩, ⟨.finish, 44⟩, ⟨.wait, 40⟩, ⟨.finish, 32⟩, ⟨.wait, 30⟩, ⟨.finish, 20⟩, ⟨.wait, 10⟩,
    ⟨.wait, 5⟩, ⟨.finish, 3⟩]

/-- The window holds the last two of the three durations. -/
theorem pacing_exact_errands :
    (Config.ofWindow 2).error? = none ∧ Steady errands ∧
      (∀ event ∈ errands, event.reading ≤ 60) ∧ durations errands = [4, 2, 10] ∧
      errands.latest 2 = [4, 2] ∧ errands.mean 2 = 3 ∧
      Paces 20 2 errands 60 ((Pacer.start 20 2 0).after errands) := by
  have hvalid : (Config.ofWindow 2).error? = none := rfl
  have hsteady : Steady errands := by
    unfold Steady
    decide
  have hnow : ∀ event ∈ errands, event.reading ≤ 60 := by decide
  exact ⟨hvalid, hsteady, hnow, by decide, by decide, by decide,
    pacing_exact hvalid 20 0 hsteady hnow⟩

/-! ## More costs than 32 bits count -/

/-- So many steps, none of which takes any time. -/
def Pacer.rounds (steps : Nat) : History :=
  (List.replicate steps [⟨.finish, 0⟩, ⟨.wait, 0⟩]).flatten

theorem rounds_succ (steps : Nat) :
    rounds (steps + 1) = ⟨.finish, 0⟩ :: ⟨.wait, 0⟩ :: rounds steps := by
  rw [rounds, List.replicate_succ, List.flatten_cons]
  rfl

theorem reading_of_mem_rounds {steps : Nat} {event : Event} (h : event ∈ rounds steps) :
    event.reading = 0 := by
  obtain ⟨round, hround, hevent⟩ := List.mem_flatten.1 h
  rw [List.eq_of_mem_replicate hround] at hevent
  simp only [List.mem_cons, List.not_mem_nil, or_false] at hevent
  rcases hevent with rfl | rfl <;> rfl

theorem steady_rounds (steps : Nat) : Steady (rounds steps) :=
  List.pairwise_of_forall_mem_list fun later hlater earlier hearlier => by
    rw [reading_of_mem_rounds hlater, reading_of_mem_rounds hearlier]

/-- Steps that take no time have durations of zero, one for each of them. -/
theorem durations_rounds (steps : Nat) :
    durations (rounds steps) = List.replicate steps 0 := by
  induction steps with
  | zero => rfl
  | succ steps ih =>
    rw [rounds_succ, durations_cons rfl, durations_cons rfl, fresh_cons rfl, ih,
      List.replicate_succ]
    rfl

/-- The costs of the steps that take no time fill the window, and 32 bits count them. -/
theorem divisor_rounds {size : Nat} (hsize : 1 ≤ size) (firstMs steps : Nat) :
    ((start firstMs size 0).after (rounds steps)).costs.length = min size steps ∧
      ((start firstMs size 0).after (rounds steps)).divisor = min size steps % UInt32.size := by
  have hkeeps := keeps_after firstMs 0 hsize (steady_rounds steps)
  have hlength : ((start firstMs size 0).after (rounds steps)).costs.length = min size steps := by
    rw [hkeeps.length_costs, count, durations_rounds, List.length_replicate]
  exact ⟨hlength, by rw [Pacer.divisor, hlength]⟩

/-- A window that needs more than 32 bits is valid. Once as many steps are made as 32 bits cannot
count, there are costs, but the mean of them divides by zero. -/
theorem mean_divides_by_zero :
    (Config.ofWindow UInt32.size).error? = none ∧ Steady (rounds UInt32.size) ∧
      ((start 20 UInt32.size 0).after (rounds UInt32.size)).costs ≠ [] ∧
      ((start 20 UInt32.size 0).after (rounds UInt32.size)).divisor = 0 := by
  have hsize : 1 ≤ UInt32.size := by decide
  obtain ⟨hlength, hdivisor⟩ := divisor_rounds hsize 20 UInt32.size
  rw [Nat.min_self] at hlength hdivisor
  refine ⟨rfl, steady_rounds _, fun hnone => ?_, hdivisor.trans (Nat.mod_self _)⟩
  rw [hnone] at hlength
  cases hlength

end SlipStack.Engine
