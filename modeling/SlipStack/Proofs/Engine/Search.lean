import Mathlib.Data.List.Forall2
import SlipStack.Engine.Priority

/-!
# What a search for the first ready element does

A search ends in one of three ways (`Searched`): no element was ready, one was, or an attempt
failed. Where an attempt leaves an element alone that is not ready (`Quiet`), a search
changes the element that it ended at and nothing else. `SearchedLevels` says the same of the
search through levels.

Two searches whose attempts agree on related elements agree on related levels
(`firstReadyByLevel_agree`).
-/

namespace SlipStack.Engine

variable {ω ε α β γ : Type}

/-- The attempt leaves an element alone that is not ready. -/
def Quiet (attempt : Attempt ω ε α β) : Prop :=
  ∀ ⦃x : α⦄ ⦃w : ω⦄ ⦃x' : α⦄ ⦃w' : ω⦄, attempt x w = (.ok none, x', w') → x' = x

/-- None of the elements is ready, tried in order from one state of the world to another. -/
inductive Passed (attempt : Attempt ω ε α β) : List α → ω → ω → Prop
  | nil (w : ω) : Passed attempt [] w w
  | cons {x : α} {xs : List α} {w w₁ w₂ : ω} : attempt x w = (.ok none, x, w₁) →
      Passed attempt xs w₁ w₂ → Passed attempt (x :: xs) w w₂

/-- Elements that are passed over one part after the other are passed over as a whole. -/
theorem Passed.append {attempt : Attempt ω ε α β} {xs ys : List α} {w w₁ w₂ : ω}
    (h : Passed attempt xs w w₁) (h' : Passed attempt ys w₁ w₂) :
    Passed attempt (xs ++ ys) w w₂ := by
  induction h with
  | nil => exact h'
  | cons hx _ ih => exact .cons hx (ih h')

/-- A search passes over what is not ready. -/
theorem Passed.firstReady_append {attempt : Attempt ω ε α β} {xs : List α} {w w' : ω}
    (h : Passed attempt xs w w') (position : Nat) (ys : List α) :
    firstReady attempt position (xs ++ ys) w =
      Prod.map id (Prod.map (xs ++ ·) id) (firstReady attempt (position + xs.length) ys w') := by
  induction h generalizing position with
  | nil => rfl
  | @cons x xs w w₁ w₂ hx _ ih =>
    have hposition : position + 1 + xs.length = position + (x :: xs).length := by
      rw [List.length_cons]
      omega
    rw [List.cons_append, firstReady, hx]
    dsimp only
    rw [ih, hposition]
    rfl

/-- A search through elements that are all passed over finds nothing and changes none of them. -/
theorem Passed.firstReady_eq {attempt : Attempt ω ε α β} {xs : List α} {w w' : ω}
    (h : Passed attempt xs w w') (position : Nat) :
    firstReady attempt position xs w = (.ok none, xs, w') := by
  have happend := h.firstReady_append position []
  rw [List.append_nil] at happend
  rw [happend]
  simp [firstReady]

/-- What a search makes of a list, with its result and the world that it leaves. What stands
before the element that it ended at was not ready. -/
inductive Searched (attempt : Attempt ω ε α β) (position : Nat) (start : ω) :
    List α → Except ε (Option (Nat × β)) → List α → ω → Prop
  | none {xs : List α} {w : ω} : Passed attempt xs start w →
      Searched attempt position start xs (.ok none) xs w
  | ready {before after : List α} {x x' : α} {found : β} {w w' : ω} :
      Passed attempt before start w → attempt x w = (.ok (some found), x', w') →
        Searched attempt position start (before ++ x :: after)
          (.ok (some (position + before.length, found))) (before ++ x' :: after) w'
  | failed {before after : List α} {x x' : α} {e : ε} {w w' : ω} :
      Passed attempt before start w → attempt x w = (.error e, x', w') →
        Searched attempt position start (before ++ x :: after) (.error e)
          (before ++ x' :: after) w'

/-- One more element in front, which was not ready. -/
theorem Searched.cons {attempt : Attempt ω ε α β} {position : Nat} {xs xs' : List α}
    {result : Except ε (Option (Nat × β))} {start w₁ w : ω} {y : α}
    (hy : attempt y start = (.ok .none, y, w₁))
    (h : Searched attempt (position + 1) w₁ xs result xs' w) :
    Searched attempt position start (y :: xs) result (y :: xs') w := by
  cases h with
  | none hpassed => exact .none (.cons hy hpassed)
  | @ready before after x x' found _ _ hpassed hx =>
    have hposition : position + 1 + before.length = position + (y :: before).length := by
      rw [List.length_cons]
      omega
    rw [hposition, ← List.cons_append, ← List.cons_append]
    exact .ready (.cons hy hpassed) hx
  | failed hpassed hx =>
    rw [← List.cons_append, ← List.cons_append]
    exact .failed (.cons hy hpassed) hx

/-- What a search with a quiet attempt comes to: elements passed over, and then nothing more, an
error, or something found. -/
theorem firstReady_searched {attempt : Attempt ω ε α β} (hquiet : Quiet attempt)
    {position : Nat} {xs xs' : List α} {w w' : ω} {result : Except ε (Option (Nat × β))}
    (h : firstReady attempt position xs w = (result, xs', w')) :
    Searched attempt position w xs result xs' w' := by
  induction xs generalizing position w xs' with
  | nil =>
    cases h
    exact .none (.nil _)
  | cons x xs ih =>
    rw [firstReady] at h
    split at h
    · rename_i x' w₁ hx
      obtain rfl := hquiet hx
      cases h
      exact Searched.cons hx (ih rfl)
    · rename_i found x' w₁ hx
      cases h
      exact (Searched.ready (.nil w) hx :
        Searched attempt position w ([] ++ x :: xs) _ ([] ++ x' :: xs) _)
    · rename_i e x' w₁ hx
      cases h
      exact (Searched.failed (.nil w) hx :
        Searched attempt position w ([] ++ x :: xs) _ ([] ++ x' :: xs) _)

/-- What a search makes of levels. -/
inductive SearchedLevels (attempt : Attempt ω ε α β) (position : Nat) (start : ω) :
    List (List α) → Except ε (Option (Nat × β)) → List (List α) → ω → Prop
  | none {levels : List (List α)} {w : ω} : Passed attempt levels.flatten start w →
      SearchedLevels attempt position start levels (.ok none) levels w
  | ready {above below : List (List α)} {before after : List α} {x x' : α} {found : β}
      {w w' : ω} :
      Passed attempt (above.flatten ++ before) start w →
        attempt x w = (.ok (some found), x', w') →
        SearchedLevels attempt position start (above ++ (before ++ x :: after) :: below)
          (.ok (some (position + above.flatten.length + before.length, found)))
          (above ++ (before ++ x' :: after) :: below) w'
  | failed {above below : List (List α)} {before after : List α} {x x' : α} {e : ε}
      {w w' : ω} :
      Passed attempt (above.flatten ++ before) start w → attempt x w = (.error e, x', w') →
        SearchedLevels attempt position start (above ++ (before ++ x :: after) :: below)
          (.error e) (above ++ (before ++ x' :: after) :: below) w'

/-- One more level above, in which nothing was ready. -/
theorem SearchedLevels.cons {attempt : Attempt ω ε α β} {position : Nat}
    {levels levels' : List (List α)} {result : Except ε (Option (Nat × β))} {start w₁ w : ω}
    {level : List α} (hlevel : Passed attempt level start w₁)
    (h : SearchedLevels attempt (position + level.length) w₁ levels result levels' w) :
    SearchedLevels attempt position start (level :: levels) result (level :: levels') w := by
  cases h with
  | none hpassed => exact .none (hlevel.append hpassed)
  | @ready above below before after x x' found _ _ hpassed hx =>
    have hposition : position + level.length + above.flatten.length + before.length =
        position + (level :: above).flatten.length + before.length := by
      rw [List.flatten_cons, List.length_append]
      omega
    have habove := hlevel.append hpassed
    rw [← List.append_assoc, ← List.flatten_cons] at habove
    rw [hposition, ← List.cons_append, ← List.cons_append]
    exact .ready habove hx
  | failed hpassed hx =>
    have habove := hlevel.append hpassed
    rw [← List.append_assoc, ← List.flatten_cons] at habove
    rw [← List.cons_append, ← List.cons_append]
    exact .failed habove hx

/-- The same for levels, with the position counted through all of them and the deciding level
taken apart. -/
theorem firstReadyByLevel_searched {attempt : Attempt ω ε α β} (hquiet : Quiet attempt)
    {position : Nat} {levels levels' : List (List α)} {w w' : ω}
    {result : Except ε (Option (Nat × β))}
    (h : firstReadyByLevel attempt position levels w = (result, levels', w')) :
    SearchedLevels attempt position w levels result levels' w' := by
  induction levels generalizing position w levels' with
  | nil =>
    cases h
    exact .none (.nil _)
  | cons level levels ih =>
    rw [firstReadyByLevel] at h
    split at h
    · rename_i level' w₁ hlevel
      cases h
      have hsearched := firstReady_searched hquiet hlevel
      generalize hnone : Except.ok (none : Option (Nat × β)) = outcome at hsearched
      cases hsearched with
      | none hpassed => exact SearchedLevels.cons hpassed (ih rfl)
      | ready | failed => cases hnone
    · rename_i level' w₁ hne hlevel
      cases h
      -- The search ended in this level, so nothing is above it.
      have hsearched := firstReady_searched hquiet hlevel
      cases hsearched with
      | none => exact absurd rfl hne
      | @ready before after x x' found w w' hpassed hx =>
        exact (SearchedLevels.ready hpassed hx : SearchedLevels attempt position _
          ([] ++ (before ++ x :: after) :: levels) _ ([] ++ (before ++ x' :: after) :: levels) w')
      | @failed before after x x' e w w' hpassed hx =>
        exact (SearchedLevels.failed hpassed hx : SearchedLevels attempt position _
          ([] ++ (before ++ x :: after) :: levels) _ ([] ++ (before ++ x' :: after) :: levels) w')

/-! ## What decides a search -/

/-- If a list is passed over, so is its front, and the rest in the world that this leaves. -/
theorem Passed.split {attempt : Attempt ω ε α β} {xs ys : List α} {w w' : ω}
    (h : Passed attempt (xs ++ ys) w w') :
    ∃ w₁, Passed attempt xs w w₁ ∧ Passed attempt ys w₁ w' := by
  induction xs generalizing w with
  | nil => exact ⟨w, .nil w, h⟩
  | cons x xs ih =>
    cases h with
    | cons hx hrest =>
      obtain ⟨w₁, hxs, hys⟩ := ih hrest
      exact ⟨w₁, .cons hx hxs, hys⟩

/-- A search through levels passes over a level in which nothing is ready. -/
theorem Passed.firstReadyByLevel_cons {attempt : Attempt ω ε α β} {level : List α} {w w' : ω}
    (h : Passed attempt level w w') (position : Nat) (levels : List (List α)) :
    firstReadyByLevel attempt position (level :: levels) w =
      Prod.map id (Prod.map (level :: ·) id)
        (firstReadyByLevel attempt (position + level.length) levels w') := by
  rw [firstReadyByLevel, h.firstReady_eq]
  rfl

theorem Passed.firstReadyByLevel_eq {attempt : Attempt ω ε α β} {levels : List (List α)}
    {w w' : ω} (h : Passed attempt levels.flatten w w') (position : Nat) :
    firstReadyByLevel attempt position levels w = (.ok none, levels, w') := by
  induction levels generalizing position w with
  | nil =>
    cases h
    rfl
  | cons level levels ih =>
    obtain ⟨w₁, hlevel, hrest⟩ := h.split
    rw [hlevel.firstReadyByLevel_cons, ih hrest]
    rfl

/-- A search ends at the element behind those that are not ready, unless that one is not
ready either. -/
theorem Passed.firstReadyByLevel_decided {attempt : Attempt ω ε α β} {above : List (List α)}
    {before : List α} {x x' : α} {w w₁ w' : ω} {result : Except ε (Option β)}
    (h : Passed attempt (above.flatten ++ before) w w₁)
    (hx : attempt x w₁ = (result, x', w')) (hresult : result ≠ .ok none) (position : Nat)
    (after : List α) (below : List (List α)) :
    firstReadyByLevel attempt position (above ++ (before ++ x :: after) :: below) w =
      (result.map (Option.map (position + above.flatten.length + before.length, ·)),
        above ++ (before ++ x' :: after) :: below, w') := by
  induction above generalizing position w with
  | nil =>
    have hbefore : Passed attempt before w w₁ := h
    rw [List.nil_append, firstReadyByLevel, hbefore.firstReady_append, firstReady, hx]
    match result with
    | .error e => rfl
    | .ok (some found) => rfl
    | .ok none => exact absurd rfl hresult
  | cons level above ih =>
    rw [List.flatten_cons, List.append_assoc] at h
    obtain ⟨w₂, hlevel, hrest⟩ := h.split
    have hposition : position + level.length + above.flatten.length =
        position + (level :: above).flatten.length := by
      rw [List.flatten_cons, List.length_append, Nat.add_assoc]
    rw [List.cons_append, hlevel.firstReadyByLevel_cons, ih hrest, hposition]
    rfl

/-! ## Searches that take the same course -/

/-- The same result in the same world, with what `R` relates. -/
structure Agree {ρ α' : Type} (R : α → α' → Prop) (left : ρ × α × ω) (right : ρ × α' × ω) :
    Prop where
  result : left.1 = right.1
  state : R left.2.1 right.2.1
  world : left.2.2 = right.2.2

theorem Agree.exists_eq {ρ α' : Type} {R : α → α' → Prop} {left : ρ × α × ω} {right : ρ × α' × ω}
    (h : Agree R left right) :
    ∃ result x x' w, left = (result, x, w) ∧ right = (result, x', w) ∧ R x x' := by
  obtain ⟨result, x, w⟩ := left
  obtain ⟨result', x', w'⟩ := right
  obtain ⟨hresult, hstate, hworld⟩ := h
  cases hresult
  cases hworld
  exact ⟨result, x, x', w, rfl, rfl, hstate⟩

variable {α' : Type} {R : α → α' → Prop} {attempt : Attempt ω ε α β} {attempt' : Attempt ω ε α' β}

/-- Attempts that agree on related elements make searches that agree on related lists, by
induction along both lists at once. -/
theorem firstReady_agree (hattempt : ∀ x x' w, R x x' → Agree R (attempt x w) (attempt' x' w))
    {xs : List α} {xs' : List α'} (h : List.Forall₂ R xs xs') (position : Nat) (w : ω) :
    Agree (List.Forall₂ R) (firstReady attempt position xs w)
      (firstReady attempt' position xs' w) := by
  induction h generalizing position w with
  | nil => exact ⟨rfl, .nil, rfl⟩
  | @cons x x' xs xs' hx hxs ih =>
    obtain ⟨result, y, y', w₁, hleft, hright, hstate⟩ := (hattempt x x' w hx).exists_eq
    rw [firstReady, firstReady, hleft, hright]
    match result with
    | .ok none =>
      have htail := ih (position + 1) w₁
      exact ⟨htail.result, .cons hstate htail.state, htail.world⟩
    | .ok (some found) => exact ⟨rfl, .cons hstate hxs, rfl⟩
    | .error e => exact ⟨rfl, .cons hstate hxs, rfl⟩

/-- The same for levels. Simulations of drives and of competences are both instances of it. -/
theorem firstReadyByLevel_agree
    (hattempt : ∀ x x' w, R x x' → Agree R (attempt x w) (attempt' x' w))
    {levels : List (List α)} {levels' : List (List α')}
    (h : List.Forall₂ (List.Forall₂ R) levels levels') (position : Nat) (w : ω) :
    Agree (List.Forall₂ (List.Forall₂ R)) (firstReadyByLevel attempt position levels w)
      (firstReadyByLevel attempt' position levels' w) := by
  induction h generalizing position w with
  | nil => exact ⟨rfl, .nil, rfl⟩
  | @cons level level' levels levels' hlevel hlevels ih =>
    obtain ⟨result, after, after', w₁, hleft, hright, hstate⟩ :=
      (firstReady_agree hattempt hlevel position w).exists_eq
    rw [firstReadyByLevel, firstReadyByLevel, hleft, hright]
    match result with
    | .ok none =>
      have htail := ih (position + level.length) w₁
      rw [← hlevel.length_eq]
      exact ⟨htail.result, .cons hstate htail.state, htail.world⟩
    | .ok (some found) => exact ⟨rfl, .cons hstate hlevels, rfl⟩
    | .error e => exact ⟨rfl, .cons hstate hlevels, rfl⟩

/-! ## Searches among images -/

section Map

variable {β' ω' : Type} (attempt : Attempt ω ε α β) {attempt' : Attempt ω' ε α' β'} {f : α → α'}
  {g : β → β'} {see : ω → ω'}

/-- A search among the images of elements, in a world that is the image of another one, finds
the image of what is found among them. -/
theorem firstReady_map
    (hattempt : ∀ x w, attempt' (f x) (see w) =
      let (result, x, w) := attempt x w
      (result.map (Option.map g), f x, see w))
    (position : Nat) (xs : List α) (w : ω) :
    firstReady attempt' position (xs.map f) (see w) =
      let (result, xs, w) := firstReady attempt position xs w
      (result.map (Option.map (Prod.map id g)), xs.map f, see w) := by
  induction xs generalizing position w with
  | nil => rfl
  | cons x xs ih =>
    rw [List.map_cons, firstReady, firstReady, hattempt]
    rcases attempt x w with ⟨result, x', w₁⟩
    match result with
    | .error e => rfl
    | .ok (some found) => rfl
    | .ok none =>
      dsimp only [Except.map, Option.map]
      rw [ih]
      rfl

theorem firstReadyByLevel_map
    (hattempt : ∀ x w, attempt' (f x) (see w) =
      let (result, x, w) := attempt x w
      (result.map (Option.map g), f x, see w))
    (position : Nat) (levels : List (List α)) (w : ω) :
    firstReadyByLevel attempt' position (levels.map fun level => level.map f) (see w) =
      let (result, levels, w) := firstReadyByLevel attempt position levels w
      (result.map (Option.map (Prod.map id g)), levels.map fun level => level.map f, see w) := by
  induction levels generalizing position w with
  | nil => rfl
  | cons level levels ih =>
    rw [List.map_cons, firstReadyByLevel, firstReadyByLevel, firstReady_map attempt hattempt]
    rcases firstReady attempt position level w with ⟨result, level', w₁⟩
    match result with
    | .error e => rfl
    | .ok (some found) => rfl
    | .ok none =>
      dsimp only [Except.map, Option.map]
      rw [List.length_map, ih]
      rfl

end Map

end SlipStack.Engine
