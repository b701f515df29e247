import SlipStack.Lap.Parser

/-!
# The parser does not know where its tokens come from

A production takes tokens from its supply one after the other and does nothing else with it. So
on two supplies with the same tokens (`Supply.Hom`) it does the same: it reads the same, or gets
stuck for the same cause, and what is left of the one supply is what is left of the other
(`Parser.Follows`). It never gives tokens back, so the comparisons of sizes that end its loops
always succeed.
-/

namespace SlipStack.Lap

variable {σ τ α β : Type} [Supply σ] [Supply τ]

/-- The map keeps the tokens of a supply. -/
structure Supply.Hom (f : σ → τ) : Prop where
  head?_eq : ∀ supply, head? (f supply) = head? supply
  tail_eq : ∀ supply, tail (f supply) = f (tail supply)

namespace Parser

/-! ## Loops and choices by the next token -/

section Equations

variable {tokens : σ} {token : Token}

theorem many_of_end (starts : Kind → Bool) (item : Token → ParserOn σ α)
    (h : Supply.head? tokens = none) : many starts item tokens = .error ⟨.endOfInput, tokens⟩ := by
  rw [many]
  split
  · rfl
  · rename_i hhead
    cases h.symm.trans hhead

theorem many_of_head? (starts : Kind → Bool) (item : Token → ParserOn σ α)
    (h : Supply.head? tokens = some token) :
    many starts item tokens =
      if starts token.kind then
        match item token (Supply.tail tokens) with
        | .error stuck => .error stuck
        | .ok (x, after) =>
          if _h : Supply.size after ≤ Supply.size (Supply.tail tokens) then
            match many starts item after with
            | .error stuck => .error stuck
            | .ok (xs, after) => .ok (x :: xs, after)
          else .ok ([x], after)
      else .ok ([], tokens) := by
  rw [many]
  split
  · rename_i hhead
    cases h.symm.trans hhead
  · rename_i hhead
    cases h.symm.trans hhead
    rfl

theorem addPart_of_end (plan : Plan) (h : Supply.head? tokens = none) :
    addPart plan tokens = .error ⟨.endOfInput, tokens⟩ := by
  rw [addPart, h]

theorem addPart_of_head? (plan : Plan) (h : Supply.head? tokens = some token) :
    addPart plan tokens =
      match token.kind with
      | .documentation => addDocstring plan tokens
      | .competence => do
        let (part, rest) ← competence (Supply.tail tokens)
        pure ({ plan with competences := plan.competences ++ [part] }, rest)
      | .actionPattern => do
        let (part, rest) ← actionPattern (Supply.tail tokens)
        pure ({ plan with patterns := plan.patterns ++ [part] }, rest)
      | kind =>
        if kind.isCollectionTag then addCollection plan token.text tokens
        else stuck (.noPart token.text) tokens := by
  rw [addPart]
  split
  · rename_i hhead
    cases h.symm.trans hhead
  · rename_i hhead
    cases h.symm.trans hhead
    rfl

theorem addParts_of_end (plan : Plan) (h : Supply.head? tokens = none) :
    addParts plan tokens = .error ⟨.endOfInput, tokens⟩ := by
  rw [addParts]
  split
  · rfl
  · rename_i hhead
    cases h.symm.trans hhead

theorem addParts_of_head? (plan : Plan) (h : Supply.head? tokens = some token) :
    addParts plan tokens =
      if token.kind = .rightParen then .ok (plan, Supply.tail tokens)
      else if token.kind = .leftParen then
        match addPart plan (Supply.tail tokens) with
        | .error stuck => .error stuck
        | .ok (plan, after) =>
          if _h : Supply.size after ≤ Supply.size (Supply.tail tokens) then addParts plan after
          else .ok (plan, after)
      else unmet .partOrPlanEnd tokens := by
  rw [addParts]
  split
  · rename_i hhead
    cases h.symm.trans hhead
  · rename_i hhead
    cases h.symm.trans hhead
    rfl

end Equations

/-! ## Doing the same -/

/-- The second result is the first one, seen through the map. What is left is no more than there
was, on either side. -/
inductive Matches (f : σ → τ) (tokens : σ) :
    Except (StuckAt σ) (α × σ) → Except (StuckAt τ) (α × τ) → Prop
  | stuck (cause : Cause) (rest : σ) :
      Matches f tokens (.error ⟨cause, rest⟩) (.error ⟨cause, f rest⟩)
  | read (x : α) {rest : σ} : Supply.size rest ≤ Supply.size tokens →
      Supply.size (f rest) ≤ Supply.size (f tokens) →
      Matches f tokens (.ok (x, rest)) (.ok (x, f rest))

/-- The second production does on the image of a supply what the first does on the supply. -/
def Follows (f : σ → τ) (p : ParserOn σ α) (q : ParserOn τ α) : Prop :=
  ∀ tokens, Matches f tokens (p tokens) (q (f tokens))

section Follows

variable {f : σ → τ} {p : ParserOn σ α} {q : ParserOn τ α}

/-- A result that is reached with fewer tokens. -/
theorem Matches.mono {tokens behind : σ} {r : Except (StuckAt σ) (α × σ)}
    {r' : Except (StuckAt τ) (α × τ)} (h : Matches f behind r r')
    (hσ : Supply.size behind ≤ Supply.size tokens)
    (hτ : Supply.size (f behind) ≤ Supply.size (f tokens)) : Matches f tokens r r' := by
  cases h with
  | stuck cause rest => exact .stuck cause rest
  | read x hσ' hτ' => exact .read x (Nat.le_trans hσ' hσ) (Nat.le_trans hτ' hτ)

theorem follows_pure (x : α) : Follows f (pure x) (pure x) :=
  fun _ => .read x (Nat.le_refl _) (Nat.le_refl _)

theorem follows_stuck (cause : Cause) :
    Follows f (stuck cause : ParserOn σ α) (stuck cause) :=
  fun tokens => .stuck cause tokens

/-- Parsers that follow each other may be put in sequence: the second part starts where the first
has left both supplies. -/
theorem Follows.bind {k : α → ParserOn σ β} {l : α → ParserOn τ β} (hp : Follows f p q)
    (hk : ∀ x, Follows f (k x) (l x)) : Follows f (p >>= k) (q >>= l) := by
  intro tokens
  change Matches f tokens (p tokens >>= fun r => k r.1 r.2) (q (f tokens) >>= fun r => l r.1 r.2)
  have hfirst := hp tokens
  generalize p tokens = r, q (f tokens) = r' at hfirst
  cases hfirst with
  | stuck cause rest => exact .stuck cause rest
  | read x hσ hτ => exact (hk x _).mono hσ hτ

theorem follows_ite {c : Prop} [Decidable c] {p' : ParserOn σ α} {q' : ParserOn τ α}
    (hp : Follows f p q) (hp' : Follows f p' q') :
    Follows f (if c then p else p') (if c then q else q') := by
  split
  · exact hp
  · exact hp'

variable (hf : Supply.Hom f)

include hf

theorem follows_unmet (expected : Expected) :
    Follows f (unmet expected : ParserOn σ α) (unmet expected) := by
  intro tokens
  rw [unmet, unmet, hf.head?_eq]
  cases Supply.head? tokens with
  | none => exact .stuck _ tokens
  | some token => exact .stuck _ tokens

/-- What is behind the next token is less than there was. -/
theorem Matches.tail {tokens : σ} {r : Except (StuckAt σ) (α × σ)}
    {r' : Except (StuckAt τ) (α × τ)} (h : Matches f (Supply.tail tokens) r r') :
    Matches f tokens r r' := by
  refine h.mono (Supply.size_tail_le tokens) ?_
  rw [← hf.tail_eq]
  exact Supply.size_tail_le (f tokens)

theorem follows_skip : Follows f skip skip := by
  intro tokens
  rw [skip, skip, hf.tail_eq]
  exact Matches.tail hf (.read () (Nat.le_refl _) (Nat.le_refl _))

/-- Expecting a kind looks at the token ahead only, which the two supplies share. -/
theorem follows_expect (kinds : List Kind) (expected : Expected) :
    Follows f (expect kinds expected) (expect kinds expected) := by
  intro tokens
  rw [expect, expect, hf.head?_eq, hf.tail_eq]
  cases Supply.head? tokens with
  | none => exact follows_unmet hf expected tokens
  | some token =>
    dsimp only
    split
    · exact Matches.tail hf (.read token (Nat.le_refl _) (Nat.le_refl _))
    · exact follows_unmet hf expected tokens

theorem follows_peek : Follows f peek peek := by
  intro tokens
  rw [peek, peek, hf.head?_eq]
  cases Supply.head? tokens with
  | none => exact .stuck _ tokens
  | some token => exact .read token.kind (Nat.le_refl _) (Nat.le_refl _)

/-- Repetition on the two supplies goes in step, by induction on the size of the one on the left.
-/
theorem follows_many (starts : Kind → Bool) {item : Token → ParserOn σ α}
    {item' : Token → ParserOn τ α} (hitem : ∀ token, Follows f (item token) (item' token)) :
    Follows f (many starts item) (many starts item') := by
  intro tokens
  induction hn : Supply.size tokens using Nat.strongRecOn generalizing tokens with
  | ind n ih =>
    cases hhead : Supply.head? tokens with
    | none =>
      rw [many_of_end starts item hhead, many_of_end starts item' ((hf.head?_eq _).trans hhead)]
      exact .stuck _ tokens
    | some token =>
      rw [many_of_head? starts item hhead,
        many_of_head? starts item' ((hf.head?_eq _).trans hhead), hf.tail_eq]
      split
      · have hfirst := hitem token (Supply.tail tokens)
        generalize item token (Supply.tail tokens) = r,
          item' token (f (Supply.tail tokens)) = r' at hfirst
        cases hfirst with
        | stuck cause rest => exact .stuck cause rest
        | @read x after hσ hτ =>
          -- The item was opened by a token, so what is left is smaller.
          have hless : Supply.size after < n :=
            hn ▸ Nat.lt_of_le_of_lt hσ (Supply.size_tail_lt hhead)
          have hrest := ih _ hless after rfl
          dsimp only
          rw [dif_pos hσ, dif_pos hτ]
          generalize many starts item after = s, many starts item' (f after) = s' at hrest
          cases hrest with
          | stuck cause rest => exact .stuck cause rest
          | read xs hσ' hτ' =>
            exact Matches.tail hf (.read (x :: xs) (Nat.le_trans hσ' hσ) (Nat.le_trans hτ' hτ))
      · exact .read [] (Nat.le_refl _) (Nat.le_refl _)

/-! ## Productions -/

theorem follows_parenthesised (expected : Expected) (hp : Follows f p q) :
    Follows f (parenthesised expected p) (parenthesised expected q) :=
  (follows_peek hf).bind fun _ =>
    follows_ite (follows_many hf _ fun _ => hp) (follows_unmet hf _)

theorem follows_optionalComment : Follows f optionalComment optionalComment :=
  (follows_peek hf).bind fun _ => follows_ite (follows_skip hf) (follows_pure _)

theorem follows_number : Follows f number number := by
  refine (follows_expect hf _ _).bind fun token => ?_
  cases Numeral.decimal? token.text.toList with
  | none => exact follows_stuck _
  | some value => exact follows_pure value

theorem follows_millisOf (unit : Kind) (closing : Expected) :
    Follows f (millisOf unit closing) (millisOf unit closing) := by
  refine (follows_number hf).bind fun value => (follows_expect hf _ _).bind fun _ => ?_
  cases inMillis? unit value with
  | none => exact follows_stuck _
  | some millis => exact follows_pure _

theorem follows_time (unit : Kind) : Follows f (time unit) (time unit) :=
  (follows_skip hf).bind fun _ => follows_millisOf hf _ _

theorem follows_frequency : Follows f frequency frequency :=
  (follows_expect hf _ _).bind fun _ => follows_millisOf hf _ _

theorem follows_operatorSlot : Follows f operatorSlot operatorSlot :=
  (follows_peek hf).bind fun _ => follows_ite (follows_pure _)
    ((follows_expect hf _ _).bind fun _ => follows_pure _)

theorem follows_comparisonSlot : Follows f comparisonSlot comparisonSlot := by
  refine (follows_peek hf).bind fun _ => follows_ite (follows_pure _) ?_
  refine (follows_expect hf _ _).bind fun _ => ?_
  exact (follows_operatorSlot hf).bind fun _ => follows_pure _

theorem follows_sense : Follows f sense sense := by
  refine (follows_expect hf _ _).bind fun _ => (follows_comparisonSlot hf).bind fun _ => ?_
  exact (follows_expect hf _ _).bind fun _ => follows_pure _

theorem follows_condition (first : Token) : Follows f (condition first) (condition first) :=
  follows_ite (follows_pure _) ((follows_sense hf).bind fun _ => follows_pure _)

theorem follows_conditions : Follows f conditions conditions := by
  refine (follows_peek hf).bind fun _ => follows_ite ?_ ?_
  · exact (follows_skip hf).bind fun _ => follows_pure _
  · refine (follows_expect hf _ _).bind fun _ => ?_
    refine (follows_many hf _ (follows_condition hf)).bind fun _ => ?_
    exact (follows_expect hf _ _).bind fun _ => follows_pure _

theorem follows_goal : Follows f goal goal := by
  refine (follows_skip hf).bind fun _ => (follows_conditions hf).bind fun _ => ?_
  exact (follows_expect hf _ _).bind fun _ => follows_pure _

theorem follows_goalAndOpening (owner : String) :
    Follows f (goalAndOpening owner) (goalAndOpening owner) :=
  (follows_goal hf).bind fun _ => (follows_expect hf _ _).bind fun _ => follows_pure _

theorem follows_goalSlot (owner : String) : Follows f (goalSlot owner) (goalSlot owner) := by
  refine (follows_peek hf).bind fun _ => follows_ite ?_ ?_
  · refine (follows_skip hf).bind fun _ => ?_
    exact (follows_expect hf _ _).bind fun _ => follows_pure _
  · refine (follows_expect hf _ _).bind fun _ => (follows_peek hf).bind fun _ => ?_
    exact follows_ite (follows_goalAndOpening hf owner) (follows_pure _)

theorem follows_triggerSlot : Follows f triggerSlot triggerSlot := by
  refine (follows_peek hf).bind fun _ => follows_ite ?_ (follows_ite ?_ (follows_pure _))
  · exact (follows_skip hf).bind fun _ => follows_pure _
  · refine (follows_skip hf).bind fun _ => (follows_expect hf _ _).bind fun _ => ?_
    refine (follows_conditions hf).bind fun _ => ?_
    exact (follows_expect hf _ _).bind fun _ => follows_pure _

theorem follows_intervalSlot : Follows f intervalSlot intervalSlot := by
  refine (follows_peek hf).bind fun _ => follows_ite ?_ (follows_ite ?_ (follows_pure _))
  · exact (follows_skip hf).bind fun _ => follows_pure _
  · refine (follows_skip hf).bind fun _ => ?_
    exact (follows_frequency hf).bind fun _ => follows_pure _

theorem follows_driveElement : Follows f driveElement driveElement := by
  refine (follows_expect hf _ _).bind fun _ => (follows_triggerSlot hf).bind fun _ => ?_
  refine (follows_expect hf _ _).bind fun _ => (follows_intervalSlot hf).bind fun _ => ?_
  refine (follows_optionalComment hf).bind fun _ => ?_
  exact (follows_expect hf _ _).bind fun _ => follows_pure _

theorem follows_driveLevel : Follows f driveLevel driveLevel :=
  (follows_parenthesised hf _ (follows_driveElement hf)).bind fun _ =>
    (follows_expect hf _ _).bind fun _ => follows_pure _

/-- Reading a drive collection uses the supply only through its token ahead, as all productions
do. -/
theorem follows_driveCollection (tag : String) :
    Follows f (driveCollection tag) (driveCollection tag) := by
  refine (follows_expect hf _ _).bind fun _ => (follows_goalSlot hf _).bind fun _ => ?_
  refine (follows_expect hf _ _).bind fun _ => ?_
  refine (follows_parenthesised hf _ (follows_driveLevel hf)).bind fun _ => ?_
  refine (follows_expect hf _ _).bind fun _ => ?_
  exact (follows_expect hf _ _).bind fun _ => follows_pure _

theorem follows_retriesSlot (element : String) :
    Follows f (retriesSlot element) (retriesSlot element) := by
  refine (follows_peek hf).bind fun _ => follows_ite ?_ (follows_ite ?_ (follows_pure _))
  · exact (follows_skip hf).bind fun _ => follows_pure _
  · refine (follows_expect hf _ _).bind fun token => ?_
    cases Numeral.int64? token.text.toList with
    | none => exact follows_stuck _
    | some count => exact follows_pure count

theorem follows_competenceElement (competence : String) :
    Follows f (competenceElement competence) (competenceElement competence) := by
  refine (follows_expect hf _ _).bind fun _ => (follows_triggerSlot hf).bind fun _ => ?_
  refine (follows_expect hf _ _).bind fun _ => (follows_retriesSlot hf _).bind fun _ => ?_
  refine (follows_optionalComment hf).bind fun _ => ?_
  exact (follows_expect hf _ _).bind fun _ => follows_pure _

theorem follows_competenceLevel (competence : String) :
    Follows f (competenceLevel competence) (competenceLevel competence) :=
  (follows_parenthesised hf _ (follows_competenceElement hf _)).bind fun _ =>
    (follows_expect hf _ _).bind fun _ => follows_pure _

theorem follows_competenceHead (name : String) :
    Follows f (competenceHead name) (competenceHead name) := by
  refine (follows_peek hf).bind fun _ => follows_ite ?_ ?_
  · refine (follows_skip hf).bind fun _ => ?_
    exact (follows_goalSlot hf _).bind fun _ => follows_pure _
  · refine (follows_expect hf _ _).bind fun _ => (follows_peek hf).bind fun kind => ?_
    refine follows_ite ?_ (follows_ite ?_ (follows_pure _))
    · refine (follows_time hf kind).bind fun _ => ?_
      exact (follows_goalSlot hf _).bind fun _ => follows_pure _
    · exact (follows_goalAndOpening hf _).bind fun _ => follows_pure _

theorem follows_competence : Follows f competence competence := by
  refine (follows_expect hf _ _).bind fun _ => (follows_competenceHead hf _).bind fun _ => ?_
  refine (follows_expect hf _ _).bind fun _ => ?_
  refine (follows_parenthesised hf _ (follows_competenceLevel hf _)).bind fun _ => ?_
  refine (follows_expect hf _ _).bind fun _ => (follows_optionalComment hf).bind fun _ => ?_
  exact (follows_expect hf _ _).bind fun _ => follows_pure _

theorem follows_patternHead (name : String) :
    Follows f (patternHead name) (patternHead name) := by
  refine (follows_peek hf).bind fun _ => follows_ite ?_ ?_
  · refine (follows_skip hf).bind fun _ => ?_
    exact (follows_expect hf _ _).bind fun _ => follows_pure _
  · refine (follows_expect hf _ _).bind fun _ => (follows_peek hf).bind fun kind => ?_
    refine follows_ite ((follows_time hf kind).bind fun _ => ?_) (follows_pure _)
    exact (follows_expect hf _ _).bind fun _ => follows_pure _

theorem follows_step (first : Token) : Follows f (step first) (step first) :=
  follows_ite (follows_pure _) ((follows_sense hf).bind fun _ => follows_pure _)

theorem follows_steps (pattern : String) : Follows f (steps pattern) (steps pattern) :=
  (follows_peek hf).bind fun _ =>
    follows_ite (follows_many hf _ (follows_step hf)) (follows_unmet hf _)

theorem follows_actionPattern : Follows f actionPattern actionPattern := by
  refine (follows_expect hf _ _).bind fun _ => (follows_patternHead hf _).bind fun _ => ?_
  refine (follows_steps hf _).bind fun _ => (follows_expect hf _ _).bind fun _ => ?_
  refine (follows_optionalComment hf).bind fun _ => ?_
  exact (follows_expect hf _ _).bind fun _ => follows_pure _

theorem follows_docstring : Follows f docstring docstring := by
  refine (follows_expect hf _ _).bind fun _ => (follows_expect hf _ _).bind fun _ => ?_
  refine (follows_expect hf _ _).bind fun _ => ?_
  exact (follows_expect hf _ _).bind fun _ => follows_pure _

/-! ## Plans -/

theorem follows_addDocstring (plan : Plan) :
    Follows f (addDocstring plan) (addDocstring plan) := by
  refine follows_ite ((follows_skip hf).bind fun _ => ?_) (follows_stuck _)
  exact (follows_docstring hf).bind fun _ => follows_pure _

theorem follows_addCollection (plan : Plan) (tag : String) :
    Follows f (addCollection plan tag) (addCollection plan tag) := by
  refine follows_ite ((follows_skip hf).bind fun _ => ?_) (follows_stuck _)
  exact (follows_driveCollection hf tag).bind fun _ => follows_pure _

theorem follows_addCompetence (plan : Plan) :
    Follows f (competence >>= fun part =>
        pure { plan with competences := plan.competences ++ [part] })
      (competence >>= fun part => pure { plan with competences := plan.competences ++ [part] }) :=
  (follows_competence hf).bind fun _ => follows_pure _

theorem follows_addPattern (plan : Plan) :
    Follows f (actionPattern >>= fun part =>
        pure { plan with patterns := plan.patterns ++ [part] })
      (actionPattern >>= fun part => pure { plan with patterns := plan.patterns ++ [part] }) :=
  (follows_actionPattern hf).bind fun _ => follows_pure _

theorem follows_addPart (plan : Plan) : Follows f (addPart plan) (addPart plan) := by
  intro tokens
  cases hhead : Supply.head? tokens with
  | none =>
    rw [addPart_of_end plan hhead, addPart_of_end plan ((hf.head?_eq _).trans hhead)]
    exact .stuck _ tokens
  | some token =>
    rw [addPart_of_head? plan hhead, addPart_of_head? plan ((hf.head?_eq _).trans hhead),
      hf.tail_eq]
    split
    · exact follows_addDocstring hf plan tokens
    · exact Matches.tail hf (follows_addCompetence hf plan _)
    · exact Matches.tail hf (follows_addPattern hf plan _)
    · split
      · exact follows_addCollection hf plan token.text tokens
      · exact follows_stuck _ tokens

theorem follows_addParts (plan : Plan) : Follows f (addParts plan) (addParts plan) := by
  intro tokens
  induction hn : Supply.size tokens using Nat.strongRecOn generalizing plan tokens with
  | ind n ih =>
    cases hhead : Supply.head? tokens with
    | none =>
      rw [addParts_of_end plan hhead, addParts_of_end plan ((hf.head?_eq _).trans hhead)]
      exact .stuck _ tokens
    | some token =>
      rw [addParts_of_head? plan hhead, addParts_of_head? plan ((hf.head?_eq _).trans hhead),
        hf.tail_eq]
      split
      · exact Matches.tail hf (.read plan (Nat.le_refl _) (Nat.le_refl _))
      split
      · have hpart := follows_addPart hf plan (Supply.tail tokens)
        generalize addPart plan (Supply.tail tokens) = r,
          addPart plan (f (Supply.tail tokens)) = r' at hpart
        cases hpart with
        | stuck cause rest => exact .stuck cause rest
        | @read more after hσ hτ =>
          -- The part was opened by a token, so what is left is smaller.
          have hless : Supply.size after < n :=
            hn ▸ Nat.lt_of_le_of_lt hσ (Supply.size_tail_lt hhead)
          dsimp only
          rw [dif_pos hσ, dif_pos hτ]
          exact Matches.tail hf ((ih _ hless more after rfl).mono hσ hτ)
      · exact follows_unmet hf _ tokens

theorem follows_finish (plan : Plan) : Follows f (finish plan) (finish plan) := by
  intro tokens
  rw [finish, finish, hf.head?_eq]
  cases Supply.head? tokens with
  | some token => exact .stuck _ tokens
  | none =>
    dsimp only
    split
    · exact .stuck _ tokens
    · exact .read plan (Nat.le_refl _) (Nat.le_refl _)

/-- Where the tokens come from makes no difference for a plan. -/
theorem follows_plan : Follows f plan plan :=
  (follows_expect hf _ _).bind fun _ =>
    (follows_addParts hf _).bind fun plan => follows_finish hf plan

end Follows

end Parser

end SlipStack.Lap
