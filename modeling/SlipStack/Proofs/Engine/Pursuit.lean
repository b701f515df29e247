import SlipStack.Engine.Drive

/-!
# Levels of priority in one row

A search through levels comes to the same as a search through the row of all their elements
(`firstReadyByLevel_flatten`), and so do drive collections and competences, which have in common
what `pursue` does: the first ready element is fired, unless the goal is reached.
-/

namespace SlipStack.Engine

variable {ω ε α β : Type}

/-! ## Searches -/

section Search

variable (attempt : Attempt ω ε α β)

/-- Elements behind others are tried only if none of those is ready. -/
theorem firstReady_append (position : Nat) (xs ys : List α) (w : ω) :
    firstReady attempt position (xs ++ ys) w =
      match firstReady attempt position xs w with
      | (.ok none, xs', w) =>
        let (result, ys, w) := firstReady attempt (position + xs.length) ys w
        (result, xs' ++ ys, w)
      | (result, xs', w) => (result, xs' ++ ys, w) := by
  induction xs generalizing position w with
  | nil => rfl
  | cons x xs ih =>
    rw [List.cons_append, firstReady, firstReady]
    rcases attempt x w with ⟨result, x', w₁⟩
    match result with
    | .error e => rfl
    | .ok (some found) => rfl
    | .ok none =>
      have hposition : position + 1 + xs.length = position + (x :: xs).length := by
        rw [List.length_cons]
        omega
      dsimp only
      rw [ih, hposition]
      rcases firstReady attempt (position + 1) xs w₁ with ⟨result, xs', w₂⟩
      match result with
      | .error e => rfl
      | .ok (some found) => rfl
      | .ok none => rfl

/-- Searching all levels as one list comes to searching them level by level; only the positions
have to be counted through. -/
theorem firstReady_flatten (position : Nat) (levels : List (List α)) (w : ω) :
    firstReady attempt position levels.flatten w =
      Prod.map id (Prod.map List.flatten id) (firstReadyByLevel attempt position levels w) := by
  induction levels generalizing position w with
  | nil => rfl
  | cons level levels ih =>
    rw [List.flatten_cons, firstReady_append, firstReadyByLevel]
    rcases firstReady attempt position level w with ⟨result, level', w₁⟩
    match result with
    | .error e => rfl
    | .ok (some found) => rfl
    | .ok none =>
      dsimp only
      rw [ih]
      rfl

/-- A single level is a row. -/
theorem firstReadyByLevel_singleton (position : Nat) (xs : List α) (w : ω) :
    firstReadyByLevel attempt position [xs] w =
      Prod.map id (Prod.map (fun row => [row]) id) (firstReady attempt position xs w) := by
  rw [firstReadyByLevel]
  rcases firstReady attempt position xs w with ⟨result, xs', w₁⟩
  match result with
  | .error e => rfl
  | .ok (some found) => rfl
  | .ok none => rfl

/-- Levels come to the same as the single level of all their elements. -/
theorem firstReadyByLevel_flatten (position : Nat) (levels : List (List α)) (w : ω) :
    firstReadyByLevel attempt position [levels.flatten] w =
      Prod.map id (Prod.map (fun levels => [levels.flatten]) id)
        (firstReadyByLevel attempt position levels w) := by
  rw [firstReadyByLevel_singleton, firstReady_flatten]
  rfl

theorem length_firstReady (position : Nat) (xs : List α) (w : ω) :
    (firstReady attempt position xs w).2.1.length = xs.length := by
  induction xs generalizing position w with
  | nil => rfl
  | cons x xs ih =>
    rw [firstReady]
    rcases attempt x w with ⟨result, x', w₁⟩
    match result with
    | .error e => rfl
    | .ok (some found) => rfl
    | .ok none => exact congrArg (· + 1) (ih (position + 1) w₁)

/-- No element changes its level. -/
theorem map_length_firstReadyByLevel (position : Nat) (levels : List (List α)) (w : ω) :
    (firstReadyByLevel attempt position levels w).2.1.map List.length =
      levels.map List.length := by
  induction levels generalizing position w with
  | nil => rfl
  | cons level levels ih =>
    have hlevel := length_firstReady attempt position level w
    rw [firstReadyByLevel]
    rcases hfirst : firstReady attempt position level w with ⟨result, level', w₁⟩
    rw [hfirst] at hlevel
    match result with
    | .error e | .ok (some found) => exact congrArg (· :: levels.map List.length) hlevel
    | .ok none =>
      dsimp only at hlevel ⊢
      rw [List.map_cons, List.map_cons, hlevel, ih]

end Search

/-! ## Goals and the first ready element -/

/-- What goals and elements come to. -/
inductive Verdict (β : Type) where
  /-- The goal is reached. -/
  | reached
  /-- No element is ready. -/
  | unready
  /-- The first ready element was fired. -/
  | fired (position : Nat) (found : β)

namespace Verdict

def ofReady : Option (Nat × β) → Verdict β
  | some (position, found) => .fired position found
  | none => .unready

def outcome : Verdict Unit → Outcome
  | .reached => .won
  | .unready => .lost
  | .fired _ _ => .followed

def move : Verdict (Option NodeRef) → Move
  | .reached | .unready => .home
  | .fired position found => .ofReady (some (position, found))

end Verdict

/-- What drive collections and competences have in common: the first ready element is fired,
unless the goal is reached. -/
def pursue (world : World ω ε) (attempt : Attempt ω ε α β) (goal : Trigger)
    (levels : List (List α)) (w : ω) : Except ε (Verdict β) × List (List α) × ω :=
  match goal.reached world w with
  | (.error e, w) => (.error e, levels, w)
  | (.ok true, w) => (.ok .reached, levels, w)
  | (.ok false, w) =>
    let (result, levels, w) := firstReadyByLevel attempt 0 levels w
    (result.map .ofReady, levels, w)

/-- The evaluation of a drive collection is a pursuit: the goal, then the elements in order, with
the outcome read off the verdict. -/
theorem evaluate_eq_pursue (library : Library) (world : World ω ε) (goal : Trigger) (now : Int)
    (levels : List (List Drive)) (w : ω) :
    evaluate library world goal now levels w =
      Prod.map (Except.map Verdict.outcome) id
        (pursue world (Drive.attempt library world now) goal levels w) := by
  rw [evaluate, pursue]
  rcases goal.reached world w with ⟨answer, w₁⟩
  match answer with
  | .error e => rfl
  | .ok true => rfl
  | .ok false =>
    dsimp only
    rcases firstReadyByLevel (Drive.attempt library world now) 0 levels w₁ with
      ⟨result, levels', w₂⟩
    match result with
    | .error e => rfl
    | .ok none => rfl
    | .ok (some found) => rfl

/-- The firing of a competence is the same pursuit, over its elements and with the move read off
the verdict. -/
theorem fireCompetence_eq_pursue (world : World ω ε) (goal : Trigger)
    (levels : List (List ElementState)) (w : ω) :
    fireCompetence world goal levels w =
      Prod.map (Except.map Verdict.move) id
        (pursue world (ElementState.attempt world) goal levels w) := by
  rw [fireCompetence, pursue]
  rcases goal.reached world w with ⟨answer, w₁⟩
  match answer with
  | .error e => rfl
  | .ok true => rfl
  | .ok false =>
    dsimp only
    rcases firstReadyByLevel (ElementState.attempt world) 0 levels w₁ with ⟨result, levels', w₂⟩
    match result with
    | .error e => rfl
    | .ok none => rfl
    | .ok (some found) => rfl

/-- A pursuit does not notice where one level ends and the next begins. -/
theorem pursue_flatten (world : World ω ε) (attempt : Attempt ω ε α β) (goal : Trigger)
    (levels : List (List α)) (w : ω) :
    pursue world attempt goal [levels.flatten] w =
      Prod.map id (Prod.map (fun levels => [levels.flatten]) id)
        (pursue world attempt goal levels w) := by
  rw [pursue, pursue]
  rcases goal.reached world w with ⟨answer, w₁⟩
  match answer with
  | .error e => rfl
  | .ok true => rfl
  | .ok false =>
    dsimp only
    rw [firstReadyByLevel_flatten]
    rfl

/-- A pursuit over one level is the search of its elements, once the goal is found not reached. -/
theorem pursue_singleton (world : World ω ε) (attempt : Attempt ω ε α β) (goal : Trigger)
    (xs : List α) (w : ω) :
    pursue world attempt goal [xs] w =
      match goal.reached world w with
      | (.error e, w) => (.error e, [xs], w)
      | (.ok true, w) => (.ok .reached, [xs], w)
      | (.ok false, w) =>
        Prod.map (Except.map .ofReady) (Prod.map (fun xs => [xs]) id)
          (firstReady attempt 0 xs w) := by
  rw [pursue]
  rcases goal.reached world w with ⟨answer, w₁⟩
  match answer with
  | .error e => rfl
  | .ok true => rfl
  | .ok false =>
    dsimp only
    rw [firstReadyByLevel_singleton]
    rfl

/-- A pursuit keeps the shape of the levels: it changes elements where they stand and neither adds
nor removes any. -/
theorem map_length_pursue (world : World ω ε) (attempt : Attempt ω ε α β) (goal : Trigger)
    (levels : List (List α)) (w : ω) :
    (pursue world attempt goal levels w).2.1.map List.length = levels.map List.length := by
  rw [pursue]
  rcases goal.reached world w with ⟨answer, w₁⟩
  match answer with
  | .error e => rfl
  | .ok true => rfl
  | .ok false => exact map_length_firstReadyByLevel attempt 0 levels w₁

end SlipStack.Engine
