/-!
# The first ready of many

Drive collections and competences hold elements in levels of priority and settle on the
first element that is ready. `firstReady` tries the elements of a list in order, and
`firstReadyByLevel` those of a list of levels. An attempt may change the element that it is
made on and the world; nothing after the first ready element is touched. Positions count
through all levels, so that the levels make no difference to the result.
-/

namespace SlipStack.Engine

/-- An attempt on an element: what came of it (`none` if the element is not ready), the
element afterwards and the world afterwards. -/
abbrev Attempt (ω ε α β : Type) := α → ω → Except ε (Option β) × α × ω

variable {ω ε α β : Type}

/-- The first ready element with its position, counted from `position`. A failing attempt
ends the search. -/
def firstReady (attempt : Attempt ω ε α β) (position : Nat) :
    List α → ω → Except ε (Option (Nat × β)) × List α × ω
  | [], w => (.ok none, [], w)
  | x :: xs, w =>
    match attempt x w with
    | (.ok none, x, w) =>
      let (result, xs, w) := firstReady attempt (position + 1) xs w
      (result, x :: xs, w)
    | (.ok (some found), x, w) => (.ok (some (position, found)), x :: xs, w)
    | (.error e, x, w) => (.error e, x :: xs, w)

/-- The first ready element of the most urgent level that has one. -/
def firstReadyByLevel (attempt : Attempt ω ε α β) (position : Nat) :
    List (List α) → ω → Except ε (Option (Nat × β)) × List (List α) × ω
  | [], w => (.ok none, [], w)
  | level :: levels, w =>
    match firstReady attempt position level w with
    | (.ok none, level', w) =>
      let (result, levels, w) :=
        firstReadyByLevel attempt (position + level.length) levels w
      (result, level' :: levels, w)
    | (result, level', w) => (result, level' :: levels, w)

end SlipStack.Engine
