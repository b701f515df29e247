import SlipStack.Proofs.Lap.Recognition

/-!
# Plans that are cut short

A text that holds a plan, cut off behind any token but the last, is rejected for no other reason
than that it ends, and on its last line (`truncated_ends_early`).

The invariant is `RunsOutAt`: a production that succeeds on some tokens either gets by without the
last of them, and then reads the same, or finds without them that the input ends. It is kept by
sequences and by choices on the next token, so it holds of every production. What takes a token
without looking at it does not have it (`skip` succeeds on no tokens at all); such a step is always
behind a look at that token, which is why the invariant is stated for given tokens.
-/

namespace SlipStack.Lap

namespace Parser

variable {α β : Type}

/-- If the production succeeds on these tokens with others behind them, then on these alone it
reads the same and leaves what it left in front of the others, or it runs out of input. -/
def RunsOutAt (p : Parser α) (ts : List Token) : Prop :=
  ∀ ⦃behind rest : List Token⦄ ⦃x : α⦄, p (ts ++ behind) = .ok (x, rest) →
    (∃ left, rest = left ++ behind ∧ p ts = .ok (x, left)) ∨ p ts = .error ⟨.endOfInput, []⟩

/-- The production can be cut short anywhere. -/
def RunsOut (p : Parser α) : Prop :=
  ∀ ts, RunsOutAt p ts

/-! ## Sequences and choices -/

theorem bind_error {p : Parser α} {f : α → Parser β} {ts : List Token} {stuck : Stuck}
    (h : p ts = .error stuck) : (p >>= f) ts = .error stuck := by
  change (p ts >>= fun r => f r.1 r.2) = _
  rw [h]
  rfl

theorem runsOut_pure (x : α) : RunsOut (pure x : Parser α) := by
  intro ts behind rest y h
  obtain ⟨rfl, rfl⟩ := pure_ok.1 h
  exact .inl ⟨ts, rfl, rfl⟩

theorem runsOut_stuck (cause : Cause) : RunsOut (stuck cause : Parser α) :=
  fun _ _ _ _ h => absurd h not_stuck_ok

theorem runsOut_unmet (expected : Expected) : RunsOut (unmet expected : Parser α) :=
  fun _ _ _ _ h => absurd h not_unmet_ok

theorem runsOut_expect (kinds : List Kind) (expected : Expected) :
    RunsOut (expect kinds expected) := by
  intro ts behind rest token h
  cases ts with
  | nil => exact .inr rfl
  | cons first others =>
    obtain ⟨heq, hkind⟩ := expect_ok.1 h
    obtain ⟨rfl, rfl⟩ := List.cons.inj heq
    exact .inl ⟨others, rfl, expect_ok.2 ⟨rfl, hkind⟩⟩

theorem RunsOutAt.bind {p : Parser α} {f : α → Parser β} {ts : List Token}
    (hp : RunsOutAt p ts) (hf : ∀ x, RunsOut (f x)) : RunsOutAt (p >>= f) ts := by
  intro behind rest y h
  obtain ⟨x, mid, hx, hy⟩ := bind_ok.1 h
  obtain ⟨left, rfl, hleft⟩ | hend := hp hx
  · -- What runs on what is left runs as it does without the step before.
    have hstep : (p >>= f) ts = f x left := by
      change (p ts >>= fun r => f r.1 r.2) = _
      rw [hleft]
      rfl
    rw [hstep]
    exact hf x left hy
  · exact .inr (bind_error hend)

theorem RunsOut.bind {p : Parser α} {f : α → Parser β} (hp : RunsOut p)
    (hf : ∀ x, RunsOut (f x)) : RunsOut (p >>= f) :=
  fun ts => (hp ts).bind hf

/-- A choice by the next token: without one the input ends. -/
theorem runsOut_peek {f : Kind → Parser β}
    (hf : ∀ token rest, RunsOutAt (f token.kind) (token :: rest)) : RunsOut (peek >>= f) := by
  intro ts behind rest y h
  cases ts with
  | nil => exact .inr rfl
  | cons token others => exact hf token others h

theorem runsOutAt_skip {f : Unit → Parser β} {token : Token} {rest : List Token}
    (hf : RunsOut (f ())) : RunsOutAt (skip >>= f) (token :: rest) :=
  fun _ _ _ h => hf rest h

/-! ## Repetition -/

theorem many_cons_ok {starts : Kind → Bool} {item : Token → Parser α} {token : Token}
    {ts rest : List Token} {xs : List α} (hstarts : starts token.kind = true)
    (h : many starts item (token :: ts) = .ok (xs, rest)) :
    ∃ x after, item token ts = .ok (x, after) ∧
      ((after.length ≤ ts.length ∧ ∃ ys, many starts item after = .ok (ys, rest) ∧ xs = x :: ys) ∨
        (¬ after.length ≤ ts.length ∧ xs = [x] ∧ rest = after)) := by
  rw [many_cons, if_pos hstarts] at h
  split at h
  · cases h
  rename_i x after hx
  refine ⟨x, after, hx, ?_⟩
  split at h
  · rename_i hshort
    split at h
    · cases h
    · rename_i ys last hys
      obtain ⟨rfl, rfl⟩ := Prod.mk.inj (Except.ok.inj h)
      exact .inl ⟨hshort, ys, hys, rfl⟩
  · rename_i hlong
    obtain ⟨rfl, rfl⟩ := Prod.mk.inj (Except.ok.inj h)
    exact .inr ⟨hlong, rfl, rfl⟩

theorem runsOut_many {starts : Kind → Bool} {item : Token → Parser α}
    (hitem : ∀ token, RunsOut (item token)) : RunsOut (many starts item) := by
  intro ts
  induction hn : ts.length using Nat.strong_induction_on generalizing ts with
  | _ n ih =>
    intro behind rest xs h
    cases ts with
    | nil => exact .inr (many_nil _ _)
    | cons token ts =>
      rw [List.cons_append] at h
      by_cases hstarts : starts token.kind = true
      · obtain ⟨x, after, hx, hrest⟩ := many_cons_ok hstarts h
        rw [many_cons, if_pos hstarts]
        -- Either the item was read before the cut, and the rest is a shorter text, or the text
        -- ran out in it.
        obtain ⟨left, rfl, hleft⟩ | hend := hitem token ts hx
        · simp only [hleft, List.length_append, Nat.add_le_add_iff_right] at hrest ⊢
          obtain ⟨hshort, ys, hys, rfl⟩ | ⟨hlong, rfl, rfl⟩ := hrest
          · have hlt : left.length < n := by
              rw [← hn, List.length_cons]
              omega
            rw [dif_pos hshort]
            obtain ⟨last, rfl, hlast⟩ | hend := ih _ hlt left rfl hys
            · exact .inl ⟨last, rfl, by rw [hlast]⟩
            · exact .inr (by rw [hend])
          · rw [dif_neg hlong]
            exact .inl ⟨left, rfl, rfl⟩
        · exact .inr (by rw [hend])
      · rw [many_cons, if_neg hstarts] at h ⊢
        obtain ⟨rfl, rfl⟩ := Prod.mk.inj (Except.ok.inj h)
        exact .inl ⟨token :: ts, rfl, rfl⟩

theorem runsOut_parenthesised {expected : Expected} {item : Parser α} (hitem : RunsOut item) :
    RunsOut (parenthesised expected item) := by
  refine runsOut_peek fun token rest => ?_
  split
  · exact runsOut_many (fun _ => hitem) _
  · exact runsOut_unmet expected _

theorem runsOut_optionalComment : RunsOut optionalComment := by
  refine runsOut_peek fun token rest => ?_
  split
  · exact runsOutAt_skip (runsOut_pure ())
  · exact runsOut_pure () _

/-! ## Durations -/

theorem runsOut_number : RunsOut number := by
  refine (runsOut_expect _ _).bind fun token => ?_
  split
  · exact runsOut_pure _
  · exact runsOut_stuck _

theorem runsOut_millisOf (unit : Kind) (closing : Expected) : RunsOut (millisOf unit closing) := by
  refine runsOut_number.bind fun value => (runsOut_expect _ _).bind fun close => ?_
  split
  · exact runsOut_pure _
  · exact runsOut_stuck _

theorem runsOutAt_time (unit : Kind) (token : Token) (rest : List Token) :
    RunsOutAt (time unit) (token :: rest) :=
  runsOutAt_skip (runsOut_millisOf unit _)

theorem runsOut_frequency : RunsOut frequency :=
  (runsOut_expect _ _).bind fun unit => runsOut_millisOf unit.kind _

/-! ## Conditions -/

theorem runsOut_operatorSlot : RunsOut operatorSlot := by
  refine runsOut_peek fun token rest => ?_
  split
  · exact runsOut_pure _ _
  · exact ((runsOut_expect _ _).bind fun operator => runsOut_pure _) _

theorem runsOut_comparisonSlot : RunsOut comparisonSlot := by
  refine runsOut_peek fun token rest => ?_
  split
  · exact runsOut_pure _ _
  · refine RunsOut.bind (runsOut_expect _ _) (fun value => ?_) _
    exact runsOut_operatorSlot.bind fun operator => runsOut_pure _

theorem runsOut_sense : RunsOut sense := by
  refine (runsOut_expect _ _).bind fun name => runsOut_comparisonSlot.bind fun comparison => ?_
  exact (runsOut_expect _ _).bind fun close => runsOut_pure _

theorem runsOut_condition (first : Token) : RunsOut (condition first) := by
  unfold condition
  split
  · exact runsOut_pure _
  · exact runsOut_sense.bind fun sense => runsOut_pure _

theorem runsOut_conditions : RunsOut conditions := by
  refine runsOut_peek fun token rest => ?_
  split
  · exact runsOutAt_skip (runsOut_pure _)
  · refine RunsOut.bind (runsOut_expect _ _) (fun opening => ?_) _
    refine (runsOut_many runsOut_condition).bind fun conditions => ?_
    exact (runsOut_expect _ _).bind fun close => runsOut_pure _

theorem runsOutAt_goal (token : Token) (rest : List Token) : RunsOutAt goal (token :: rest) := by
  refine runsOutAt_skip (runsOut_conditions.bind fun conditions => ?_)
  exact (runsOut_expect _ _).bind fun close => runsOut_pure _

theorem runsOutAt_goalAndOpening (owner : String) (token : Token) (rest : List Token) :
    RunsOutAt (goalAndOpening owner) (token :: rest) :=
  (runsOutAt_goal token rest).bind fun _ => (runsOut_expect _ _).bind fun _ => runsOut_pure _

theorem runsOut_goalSlot (owner : String) : RunsOut (goalSlot owner) := by
  refine runsOut_peek fun token rest => ?_
  split
  · exact runsOutAt_skip ((runsOut_expect _ _).bind fun opening => runsOut_pure _)
  · refine RunsOut.bind (runsOut_expect _ _) (fun opening => runsOut_peek fun token rest => ?_) _
    split
    · exact runsOutAt_goalAndOpening owner token rest
    · exact runsOut_pure _ _

theorem runsOut_triggerSlot : RunsOut triggerSlot := by
  refine runsOut_peek fun token rest => ?_
  split
  · exact runsOutAt_skip (runsOut_pure _)
  split
  · refine runsOutAt_skip ((runsOut_expect _ _).bind fun keyword => ?_)
    refine runsOut_conditions.bind fun conditions => ?_
    exact (runsOut_expect _ _).bind fun close => runsOut_pure _
  · exact runsOut_pure _ _

/-! ## Drive collections -/

theorem runsOut_intervalSlot : RunsOut intervalSlot := by
  refine runsOut_peek fun token rest => ?_
  split
  · exact runsOutAt_skip (runsOut_pure _)
  split
  · exact runsOutAt_skip (runsOut_frequency.bind fun millis => runsOut_pure _)
  · exact runsOut_pure _ _

theorem runsOut_driveElement : RunsOut driveElement := by
  refine (runsOut_expect _ _).bind fun name => runsOut_triggerSlot.bind fun trigger => ?_
  refine (runsOut_expect _ _).bind fun target => runsOut_intervalSlot.bind fun interval => ?_
  refine runsOut_optionalComment.bind fun _ => ?_
  exact (runsOut_expect _ _).bind fun close => runsOut_pure _

theorem runsOut_driveLevel : RunsOut driveLevel := by
  refine (runsOut_parenthesised runsOut_driveElement).bind fun elements => ?_
  exact (runsOut_expect _ _).bind fun close => runsOut_pure _

theorem runsOut_driveCollection (tag : String) : RunsOut (driveCollection tag) := by
  refine (runsOut_expect _ _).bind fun name => (runsOut_goalSlot _).bind fun goal => ?_
  refine (runsOut_expect _ _).bind fun keyword => ?_
  refine (runsOut_parenthesised runsOut_driveLevel).bind fun levels => ?_
  refine (runsOut_expect _ _).bind fun close => ?_
  exact (runsOut_expect _ _).bind fun close => runsOut_pure _

/-! ## Competences -/

theorem runsOut_retriesSlot (element : String) : RunsOut (retriesSlot element) := by
  refine runsOut_peek fun token rest => ?_
  split
  · exact runsOutAt_skip (runsOut_pure _)
  split
  · refine RunsOut.bind (runsOut_expect _ _) (fun count => ?_) _
    split
    · exact runsOut_pure _
    · exact runsOut_stuck _
  · exact runsOut_pure _ _

theorem runsOut_competenceElement (competence : String) :
    RunsOut (competenceElement competence) := by
  refine (runsOut_expect _ _).bind fun name => runsOut_triggerSlot.bind fun trigger => ?_
  refine (runsOut_expect _ _).bind fun target => (runsOut_retriesSlot _).bind fun retries => ?_
  refine runsOut_optionalComment.bind fun _ => ?_
  exact (runsOut_expect _ _).bind fun close => runsOut_pure _

theorem runsOut_competenceLevel (competence : String) : RunsOut (competenceLevel competence) := by
  refine (runsOut_parenthesised (runsOut_competenceElement _)).bind fun elements => ?_
  exact (runsOut_expect _ _).bind fun close => runsOut_pure _

theorem runsOut_competenceHead (name : String) : RunsOut (competenceHead name) := by
  refine runsOut_peek fun token rest => ?_
  split
  · exact runsOutAt_skip ((runsOut_goalSlot _).bind fun goal => runsOut_pure _)
  · refine RunsOut.bind (runsOut_expect _ _) (fun opening => runsOut_peek fun token rest => ?_) _
    split
    · refine (runsOutAt_time _ token rest).bind fun millis => ?_
      exact (runsOut_goalSlot _).bind fun goal => runsOut_pure _
    split
    · exact (runsOutAt_goalAndOpening _ token rest).bind fun goal => runsOut_pure _
    · exact runsOut_pure _ _

theorem runsOut_competence : RunsOut competence := by
  refine (runsOut_expect _ _).bind fun name => (runsOut_competenceHead _).bind fun head => ?_
  refine (runsOut_expect _ _).bind fun keyword => ?_
  refine (runsOut_parenthesised (runsOut_competenceLevel _)).bind fun levels => ?_
  refine (runsOut_expect _ _).bind fun close => runsOut_optionalComment.bind fun _ => ?_
  exact (runsOut_expect _ _).bind fun close => runsOut_pure _

/-! ## Action patterns -/

theorem runsOut_patternHead (name : String) : RunsOut (patternHead name) := by
  refine runsOut_peek fun token rest => ?_
  split
  · exact runsOutAt_skip ((runsOut_expect _ _).bind fun opening => runsOut_pure _)
  · refine RunsOut.bind (runsOut_expect _ _) (fun opening => runsOut_peek fun token rest => ?_) _
    split
    · refine (runsOutAt_time _ token rest).bind fun millis => ?_
      exact (runsOut_expect _ _).bind fun opening => runsOut_pure _
    · exact runsOut_pure _ _

theorem runsOut_step (first : Token) : RunsOut (step first) := by
  unfold step
  split
  · exact runsOut_pure _
  · exact runsOut_sense.bind fun sense => runsOut_pure _

theorem runsOut_steps (pattern : String) : RunsOut (steps pattern) := by
  refine runsOut_peek fun token rest => ?_
  split
  · exact runsOut_many runsOut_step _
  · exact runsOut_unmet _ _

theorem runsOut_actionPattern : RunsOut actionPattern := by
  refine (runsOut_expect _ _).bind fun name => (runsOut_patternHead _).bind fun time => ?_
  refine (runsOut_steps _).bind fun steps => ?_
  refine (runsOut_expect _ _).bind fun close => runsOut_optionalComment.bind fun _ => ?_
  exact (runsOut_expect _ _).bind fun close => runsOut_pure _

/-! ## Plans -/

theorem runsOut_docstring : RunsOut docstring := by
  refine (runsOut_expect _ _).bind fun title => (runsOut_expect _ _).bind fun author => ?_
  refine (runsOut_expect _ _).bind fun memo => ?_
  exact (runsOut_expect _ _).bind fun close => runsOut_pure _

theorem runsOutAt_addDocstring (plan : Plan) (token : Token) (rest : List Token) :
    RunsOutAt (addDocstring plan) (token :: rest) := by
  unfold addDocstring
  split
  · exact runsOutAt_skip (runsOut_docstring.bind fun part => runsOut_pure _)
  · exact runsOut_stuck _ _

theorem runsOutAt_addCollection (plan : Plan) (tag : String) (token : Token)
    (rest : List Token) : RunsOutAt (addCollection plan tag) (token :: rest) := by
  unfold addCollection
  split
  · exact runsOutAt_skip ((runsOut_driveCollection tag).bind fun part => runsOut_pure _)
  · exact runsOut_stuck _ _

theorem runsOut_addPart (plan : Plan) : RunsOut (addPart plan) := by
  intro ts
  cases ts with
  | nil => exact fun _ _ _ _ => .inr rfl
  | cons token rest =>
    unfold RunsOutAt
    simp only [List.cons_append, addPart_cons]
    split
    · exact runsOutAt_addDocstring plan token rest
    · exact runsOut_competence.bind (fun part => runsOut_pure
        { plan with competences := plan.competences ++ [part] }) rest
    · exact runsOut_actionPattern.bind (fun part => runsOut_pure
        { plan with patterns := plan.patterns ++ [part] }) rest
    split
    · exact runsOutAt_addCollection plan token.text token rest
    · exact runsOut_stuck _ (token :: rest)

theorem runsOut_addParts (plan : Plan) : RunsOut (addParts plan) := by
  intro ts
  induction hn : ts.length using Nat.strong_induction_on generalizing plan ts with
  | _ n ih =>
    intro behind rest after h
    cases ts with
    | nil => exact .inr (addParts_nil _)
    | cons token ts =>
      rw [List.cons_append, addParts_cons] at h
      rw [addParts_cons]
      split at h
      · rename_i hclose
        obtain ⟨rfl, rfl⟩ := Prod.mk.inj (Except.ok.inj h)
        exact .inl ⟨ts, rfl, if_pos hclose⟩
      rename_i hclose
      rw [if_neg hclose]
      split at h
      · rename_i hopens
        rw [if_pos hopens]
        split at h
        · cases h
        rename_i mid others hpart
        -- Either the part was read before the cut, and the rest is a shorter text, or the text
        -- ran out in it.
        obtain ⟨left, rfl, hleft⟩ | hend := runsOut_addPart plan ts hpart
        · simp only [hleft, List.length_append, Nat.add_le_add_iff_right] at h ⊢
          split at h
          · rename_i hshort
            have hlt : left.length < n := by
              rw [← hn, List.length_cons]
              omega
            rw [dif_pos hshort]
            exact ih _ hlt mid left rfl h
          · rename_i hlong
            obtain ⟨rfl, rfl⟩ := Prod.mk.inj (Except.ok.inj h)
            rw [dif_neg hlong]
            exact .inl ⟨left, rfl, rfl⟩
        · exact .inr (by rw [hend])
      · exact absurd h not_unmet_ok

/-- A plan takes up all tokens, so it cannot do without the last of them. -/
theorem plan_cut {ts behind rest : List Token} {p : Plan} (hbehind : behind ≠ [])
    (h : plan (ts ++ behind) = .ok (p, rest)) : plan ts = .error ⟨.endOfInput, []⟩ := by
  let parts : Parser Plan := expect [.leftParen] .planStart >>= fun _ => addParts .empty
  have hplan : plan = parts >>= finish := (bind_assoc _ _ _).symm
  have hruns : RunsOut parts := (runsOut_expect _ _).bind fun _ => runsOut_addParts _
  rw [hplan] at h ⊢
  obtain ⟨read, left, hread, hfinish⟩ := bind_ok.1 h
  obtain rfl : left = [] := by
    cases left with
    | nil => rfl
    | cons => cases hfinish
  obtain ⟨left, hleft, -⟩ | hend := hruns ts hread
  · exact absurd (List.append_eq_nil_iff.1 hleft.symm).2 hbehind
  · exact bind_error hend

end Parser

/-! ## Texts -/

/-- The last line of a text is where a plan is missed that is cut short. -/
theorem parse_of_endOfInput {source : String}
    (h : Parser.plan (tokenize source).1 = .error ⟨.endOfInput, []⟩) :
    parse source = .error ⟨1 + source.toList.count '\n', .endOfInput⟩ := by
  rw [parse_eq, h]
  rfl

/-- A text whose tokens are some of those of a plan, from the first on but not all, is rejected
because it ends, on its last line. The layouts of the two texts have nothing to do with each
other. -/
theorem truncated_ends_early {source cut : String} {p : Plan} (hp : parse source = .ok p)
    (hfront : lexemes (tokenize cut).1 <+: lexemes (tokenize source).1)
    (hproper : lexemes (tokenize cut).1 ≠ lexemes (tokenize source).1) :
    parse cut = .error ⟨1 + cut.toList.count '\n', .endOfInput⟩ ∧
      Cause.endOfInput.text = "unexpected end of input" := by
  obtain ⟨missing, hmissing⟩ := hfront
  obtain ⟨behind, rfl⟩ := exists_lexemes missing
  have hbehind : behind ≠ [] := by
    rintro rfl
    exact hproper (by simpa [lexemes] using hmissing)
  have hplan : Grammar.IsPlan (lexemes ((tokenize cut).1 ++ behind)) p := by
    rw [lexemes, List.map_append, ← lexemes, ← lexemes, hmissing]
    exact parse_eq_ok.1 hp
  have hend := Parser.plan_cut hbehind (Parser.plan_complete hplan)
  exact ⟨parse_of_endOfInput hend, rfl⟩

def walkerText : String :=
  "((SDC walker nil (drives ((walk nil step)))))"

def walkerPlan : Plan where
  docstring := none
  collection := some
    { tag := "SDC", name := "walker", goal := none, levels := [[⟨"walk", none, "step", none⟩]] }
  competences := []
  patterns := []

/-- A front of `walkerText` in another layout, in which a comment holds the rest. -/
def walkerFront : String :=
  "(\n(SDC walker nil ; so far\n(drives ((walk nil step) #))))\n"

theorem truncated_ends_early_walker :
    parse walkerText = .ok walkerPlan ∧
      lexemes (tokenize walkerFront).1 <+: lexemes (tokenize walkerText).1 ∧
      lexemes (tokenize walkerFront).1 ≠ lexemes (tokenize walkerText).1 ∧
      parse walkerFront = .error ⟨4, .endOfInput⟩ := by
  have hread : (parse walkerText).toOption = some walkerPlan := by decide +kernel
  have hparse : parse walkerText = .ok walkerPlan := by
    cases hresult : parse walkerText with
    | error e => simp [hresult, Except.toOption] at hread
    | ok p => simpa [hresult, Except.toOption] using hread
  have hfront : lexemes (tokenize walkerFront).1 <+: lexemes (tokenize walkerText).1 := by
    decide +kernel
  have hproper : lexemes (tokenize walkerFront).1 ≠ lexemes (tokenize walkerText).1 := by
    decide +kernel
  exact ⟨hparse, hfront, hproper, (truncated_ends_early hparse hfront hproper).1⟩

end SlipStack.Lap
