import SlipStack.Lap.Parser
import SlipStack.Proofs.Lap.Parts

/-!
# What the parser reads is derived

Every production of the parser that succeeds has a derivation behind it: what it read is the
meaning, and the tokens it left are those behind the sentence. The proofs follow the
productions line by line. `bind_ok` takes a sequence apart; `peek_bind_ok` says which token
a choice looked at.

A production that is entered behind a token which its caller consumed is stated with that
token in front.
-/

namespace SlipStack.Lap

theorem lexemes_cons_of_kind {token : Token} {kind : Kind} (h : token.kind = kind)
    (tokens : List Token) : lexemes (token :: tokens) = ⟨kind, token.text⟩ :: lexemes tokens := by
  subst h
  rfl

namespace Parser

open Grammar

variable {α β : Type}

/-! ## Lists of tokens -/

theorem expect_cons (kinds : List Kind) (expected : Expected) (token : Token)
    (rest : List Token) :
    expect kinds expected (token :: rest) =
      if token.kind ∈ kinds then .ok (token, rest) else unmet expected (token :: rest) := rfl

theorem many_nil (starts : Kind → Bool) (item : Token → Parser α) :
    many starts item [] = .error ⟨.endOfInput, []⟩ := by
  rw [many]
  rfl

theorem many_cons (starts : Kind → Bool) (item : Token → Parser α) (token : Token)
    (rest : List Token) :
    many starts item (token :: rest) =
      if starts token.kind then
        match item token rest with
        | .error stuck => .error stuck
        | .ok (x, after) =>
          if _h : after.length ≤ rest.length then
            match many starts item after with
            | .error stuck => .error stuck
            | .ok (xs, after) => .ok (x :: xs, after)
          else .ok ([x], after)
      else .ok ([], token :: rest) := by
  rw [many]
  simp only [Supply.head?_cons, Supply.tail_cons, Supply.size_list]
  rcases item token rest with e | ⟨x, after⟩
  · rfl
  · dsimp only
    rcases many starts item after with e | ⟨xs, last⟩ <;> rfl

theorem addPart_cons (plan : Plan) (token : Token) (rest : List Token) :
    addPart plan (token :: rest) =
      match token.kind with
      | .documentation => addDocstring plan (token :: rest)
      | .competence => do
        let (part, rest) ← competence rest
        pure ({ plan with competences := plan.competences ++ [part] }, rest)
      | .actionPattern => do
        let (part, rest) ← actionPattern rest
        pure ({ plan with patterns := plan.patterns ++ [part] }, rest)
      | kind =>
        if kind.isCollectionTag then addCollection plan token.text (token :: rest)
        else stuck (.noPart token.text) (token :: rest) := rfl

theorem addParts_nil (plan : Plan) :
    addParts plan ([] : List Token) = .error ⟨.endOfInput, []⟩ := by
  rw [addParts]
  rfl

theorem addParts_cons (plan : Plan) (token : Token) (rest : List Token) :
    addParts plan (token :: rest) =
      if token.kind = .rightParen then .ok (plan, rest)
      else if token.kind = .leftParen then
        match addPart plan rest with
        | .error stuck => .error stuck
        | .ok (plan, after) =>
          if _h : after.length ≤ rest.length then addParts plan after else .ok (plan, after)
      else unmet .partOrPlanEnd (token :: rest) := by
  rw [addParts]
  simp only [Supply.head?_cons, Supply.tail_cons, Supply.size_list]
  rcases addPart plan rest with e | ⟨part, after⟩ <;> rfl

/-! ## Successful runs -/

theorem bind_ok {p : Parser α} {f : α → Parser β} {ts rest : List Token} {y : β} :
    (p >>= f) ts = .ok (y, rest) ↔
      ∃ x mid, p ts = .ok (x, mid) ∧ f x mid = .ok (y, rest) := by
  change (p ts >>= fun r => f r.1 r.2) = _ ↔ _
  cases h : p ts with
  | error e => simp [bind, Except.bind]
  | ok r =>
    constructor
    · exact fun hf => ⟨r.1, r.2, rfl, hf⟩
    · rintro ⟨x, mid, hr, hf⟩
      obtain rfl : r = (x, mid) := Except.ok.inj hr
      exact hf

theorem pure_ok {x y : α} {ts rest : List Token} :
    (pure x : Parser α) ts = .ok (y, rest) ↔ x = y ∧ ts = rest := by
  change Except.ok (x, ts) = _ ↔ _
  simp only [Except.ok.injEq, Prod.mk.injEq]

theorem not_unmet_ok {expected : Expected} {ts rest : List Token} {x : α} :
    ¬ unmet expected ts = .ok (x, rest) := by
  cases ts <;> simp [unmet]

theorem expect_ok {kinds : List Kind} {expected : Expected} {ts rest : List Token}
    {token : Token} :
    expect kinds expected ts = .ok (token, rest) ↔ ts = token :: rest ∧ token.kind ∈ kinds := by
  cases ts with
  | nil => simp [expect, unmet]
  | cons first others =>
    by_cases hfirst : first.kind ∈ kinds
    · rw [expect_cons, if_pos hfirst]
      simp only [Except.ok.injEq, Prod.mk.injEq, List.cons.injEq]
      constructor
      · rintro ⟨rfl, rfl⟩
        exact ⟨⟨rfl, rfl⟩, hfirst⟩
      · exact fun h => h.1
    · rw [expect_cons, if_neg hfirst]
      simp only [not_unmet_ok, List.cons.injEq, false_iff, not_and]
      rintro ⟨rfl, -⟩
      exact hfirst

/-- The common case of one admissible kind. -/
theorem expect_one_ok {kind : Kind} {expected : Expected} {ts rest : List Token}
    {token : Token} :
    expect [kind] expected ts = .ok (token, rest) ↔ ts = token :: rest ∧ token.kind = kind := by
  rw [expect_ok, List.mem_singleton]

theorem peek_bind_ok {f : Kind → Parser β} {ts rest : List Token} {y : β} :
    (peek >>= f) ts = .ok (y, rest) ↔
      ∃ token others, ts = token :: others ∧ f token.kind (token :: others) = .ok (y, rest) := by
  cases ts with
  | nil => simp [bind_ok, peek]
  | cons first others =>
    constructor
    · exact fun h => ⟨first, others, rfl, h⟩
    · rintro ⟨token, others', heq, h⟩
      obtain ⟨rfl, rfl⟩ := List.cons.inj heq
      exact h

theorem skip_bind_ok {f : Unit → Parser β} {token : Token} {ts rest : List Token} {y : β} :
    (skip >>= f) (token :: ts) = .ok (y, rest) ↔ f () ts = .ok (y, rest) :=
  Iff.rfl

theorem skip_pure_ok {x y : α} {token : Token} {ts rest : List Token} :
    (skip >>= fun _ => (pure x : Parser α)) (token :: ts) = .ok (y, rest) ↔
      x = y ∧ ts = rest :=
  pure_ok

/-! ## Repetition -/

/-- Whatever `item` reads from a token that starts one is derived by the rule. -/
def ItemSound (rule : Rule α) (starts : Kind → Bool) (item : Token → Parser α) : Prop :=
  ∀ {token : Token} {ts rest : List Token} {x : α}, starts token.kind = true →
    item token ts = .ok (x, rest) → rule (lexemes (token :: ts)) x (lexemes rest)

/-- What the parser repeats is repeated in the grammar, item by item. The induction is on the
tokens, which every item shortens. -/
theorem many_sound {rule : Rule α} {starts : Kind → Bool} {item : Token → Parser α}
    (hitem : ItemSound rule starts item) {ts rest : List Token} {xs : List α}
    (h : many starts item ts = .ok (xs, rest)) : Star rule (lexemes ts) xs (lexemes rest) := by
  fun_induction many starts item ts generalizing xs rest with
  | case1 => cases h
  | case2 => cases h
  | case3 => cases h
  | case4 ts token hhead hstarts x after hx _ ys last hys ih =>
    obtain ⟨rfl, rfl⟩ := Prod.mk.inj (Except.ok.inj h)
    obtain ⟨ts, rfl⟩ := Supply.eq_cons_of_head? hhead
    exact .cons (hitem hstarts hx) (ih hys)
  | case5 ts token hhead hstarts x after hx =>
    obtain ⟨rfl, rfl⟩ := Prod.mk.inj (Except.ok.inj h)
    obtain ⟨ts, rfl⟩ := Supply.eq_cons_of_head? hhead
    exact .cons (hitem hstarts hx) (.nil _)
  | case6 =>
    obtain ⟨rfl, rfl⟩ := Prod.mk.inj (Except.ok.inj h)
    exact .nil _

theorem not_many_ok_nil {starts : Kind → Bool} {item : Token → Parser α} {token : Token}
    {ts rest : List Token} (hstarts : starts token.kind = true) :
    ¬ many starts item (token :: ts) = .ok ([], rest) := by
  intro h
  rw [many_cons, if_pos hstarts] at h
  split at h
  · cases h
  · split at h
    · split at h <;> cases h
    · cases h

/-- What `many` reads of at least one item. -/
theorem many_sound_plus {rule : Rule α} {starts : Kind → Bool} {item : Token → Parser α}
    (hitem : ItemSound rule starts item) {token : Token} {ts rest : List Token} {xs : List α}
    (hstarts : starts token.kind = true)
    (h : many starts item (token :: ts) = .ok (xs, rest)) :
    Plus rule (lexemes (token :: ts)) xs (lexemes rest) := by
  generalize hls : lexemes (token :: ts) = ls
  have hstar : Star rule ls xs (lexemes rest) := hls ▸ many_sound hitem h
  cases hstar with
  | nil => exact absurd h (not_many_ok_nil hstarts)
  | cons head tail => exact .intro head tail

theorem parenthesised_sound {rule : Rule α} {expected : Expected} {item : Parser α}
    (hitem : ∀ {a : String} {ts rest : List Token} {x : α}, item ts = .ok (x, rest) →
      rule (⟨.leftParen, a⟩ :: lexemes ts) x (lexemes rest))
    {ts rest : List Token} {xs : List α}
    (h : parenthesised expected item ts = .ok (xs, rest)) :
    Plus rule (lexemes ts) xs (lexemes rest) := by
  obtain ⟨token, others, rfl, hchoice⟩ := peek_bind_ok.1 h
  by_cases hopens : isOpening token.kind = true
  · rw [if_pos hopens] at hchoice
    refine many_sound_plus (fun {token ts rest x} hkind hx => ?_) hopens hchoice
    rw [lexemes_cons_of_kind (of_decide_eq_true hkind)]
    exact hitem hx
  · rw [if_neg hopens] at hchoice
    exact absurd hchoice not_unmet_ok

theorem optionalComment_sound {ts rest : List Token} (h : optionalComment ts = .ok ((), rest)) :
    OptionalComment (lexemes ts) (lexemes rest) := by
  obtain ⟨token, others, rfl, hchoice⟩ := peek_bind_ok.1 h
  by_cases hkind : token.kind = .comment
  · rw [if_pos hkind] at hchoice
    obtain rfl : others = rest := congrArg Prod.snd (Except.ok.inj hchoice)
    rw [lexemes_cons_of_kind hkind]
    exact .present _ _
  · rw [if_neg hkind] at hchoice
    obtain ⟨-, rfl⟩ := pure_ok.1 hchoice
    exact .absent _

/-! ## Durations -/

theorem not_stuck_ok {cause : Cause} {ts rest : List Token} {x : α} :
    ¬ stuck cause ts = .ok (x, rest) := by
  simp [stuck]

/-- A number that was read is one of the grammar, with its value. -/
theorem number_sound {ts rest : List Token} {value : Binary64}
    (h : number ts = .ok (value, rest)) : Number (lexemes ts) value (lexemes rest) := by
  obtain ⟨token, mid, htoken, hvalue⟩ := bind_ok.1 h
  obtain ⟨rfl, hkind⟩ := expect_ok.1 htoken
  cases hdecimal : Numeral.decimal? token.text.toList with
  | none =>
    rw [hdecimal] at hvalue
    exact absurd hvalue not_stuck_ok
  | some decimal =>
    rw [hdecimal] at hvalue
    obtain ⟨rfl, rfl⟩ := pure_ok.1 hvalue
    exact .intro hkind hdecimal

theorem duration_of_inMillis? {unit : Kind} {value millis : Binary64}
    (hunit : unit ∈ timeUnits) (h : inMillis? unit value = some millis) :
    Duration unit value millis := by
  simp only [timeUnits, List.mem_cons, List.not_mem_nil, or_false] at hunit
  rcases hunit with rfl | rfl | rfl | rfl <;> cases h
  · exact .hours value
  · exact .minutes value
  · exact .seconds value
  · exact .plain value

theorem period_of_inMillis? {unit : Kind} {value millis : Binary64}
    (hunit : unit = .hz ∨ unit = .pm) (h : inMillis? unit value = some millis) :
    Period unit value millis := by
  rcases hunit with rfl | rfl <;> simp only [inMillis?, Option.ite_none_left_eq_some] at h <;>
    obtain ⟨hzero, hmillis⟩ := h <;> obtain rfl := Option.some.inj hmillis
  · exact .hz (Bool.eq_false_iff.2 hzero)
  · exact .pm (Bool.eq_false_iff.2 hzero)

/-- The number behind a unit and what its conversion gave. -/
theorem millisOf_ok {unit : Kind} {closing : Expected} {ts rest : List Token} {whole : Int}
    (h : millisOf unit closing ts = .ok (whole, rest)) :
    ∃ value b millis, Number (lexemes ts) value (⟨.rightParen, b⟩ :: lexemes rest) ∧
      inMillis? unit value = some millis ∧ whole = millis.toInt64 := by
  obtain ⟨value, mid, hvalue, hbehind⟩ := bind_ok.1 h
  obtain ⟨close, after, hclose, hlast⟩ := bind_ok.1 hbehind
  obtain ⟨rfl, hkind⟩ := expect_one_ok.1 hclose
  have hnumber := number_sound hvalue
  rw [lexemes_cons_of_kind hkind] at hnumber
  cases hmillis : inMillis? unit value with
  | none =>
    rw [hmillis] at hlast
    exact absurd hlast not_stuck_ok
  | some millis =>
    rw [hmillis] at hlast
    obtain ⟨rfl, rfl⟩ := pure_ok.1 hlast
    exact ⟨value, close.text, millis, hnumber, hmillis, rfl⟩

/-- A time that was read is one of the grammar, in whole milliseconds. -/
theorem time_sound {unit : Token} {ts rest : List Token} {whole : Int}
    (hunit : unit.kind ∈ timeUnits) (h : time unit.kind (unit :: ts) = .ok (whole, rest)) :
    Time (lexemes (unit :: ts)) whole (lexemes rest) := by
  obtain ⟨value, b, millis, hnumber, hmillis, rfl⟩ := millisOf_ok (skip_bind_ok.1 h)
  exact .intro (duration_of_inMillis? hunit hmillis) hnumber

/-- A frequency that was read is one of the grammar, or a time in its place. -/
theorem frequency_sound {ts rest : List Token} {whole : Int}
    (h : frequency ts = .ok (whole, rest)) :
    Frequency (lexemes ts) whole (lexemes rest) := by
  obtain ⟨unit, mid, hunit, hbehind⟩ := bind_ok.1 h
  obtain ⟨rfl, hkind⟩ := expect_ok.1 hunit
  obtain ⟨value, b, millis, hnumber, hmillis, rfl⟩ := millisOf_ok hbehind
  by_cases hrate : unit.kind = .hz ∨ unit.kind = .pm
  · exact .rate (period_of_inMillis? hrate hmillis) hnumber
  · have htime : unit.kind ∈ timeUnits := by
      simp only [frequencyUnits, timeUnits, List.mem_cons, List.not_mem_nil, or_false]
        at hkind ⊢
      grind
    exact .time (.intro (duration_of_inMillis? htime hmillis) hnumber)

/-! ## Conditions -/

theorem operatorSlot_ok {ts rest : List Token} {o : Option String}
    (h : operatorSlot ts = .ok (o, rest)) :
    (ts = rest ∧ o = none) ∨
      ∃ operator : Token, operator.kind = .predicate ∧ ts = operator :: rest ∧
        o = some operator.text := by
  obtain ⟨first, others, rfl, hchoice⟩ := peek_bind_ok.1 h
  by_cases hclose : first.kind = .rightParen
  · rw [if_pos hclose] at hchoice
    obtain ⟨rfl, rfl⟩ := pure_ok.1 hchoice
    exact .inl ⟨rfl, rfl⟩
  · rw [if_neg hclose] at hchoice
    obtain ⟨operator, mid, hoperator, hlast⟩ := bind_ok.1 hchoice
    obtain ⟨heq, hkind⟩ := expect_one_ok.1 hoperator
    obtain ⟨rfl, rfl⟩ := pure_ok.1 hlast
    exact .inr ⟨operator, hkind, heq, rfl⟩

/-- A comparison is empty, a value, or a value and an operator. -/
theorem comparisonSlot_ok {ts rest : List Token} {c : Option String × Option String}
    (h : comparisonSlot ts = .ok (c, rest)) :
    (ts = rest ∧ c = (none, none)) ∨
      ∃ value : Token, value.kind ∈ valueKinds ∧
        ((ts = value :: rest ∧ c = (some value.text, none)) ∨
          ∃ operator : Token, operator.kind = .predicate ∧ ts = value :: operator :: rest ∧
            c = (some value.text, some operator.text)) := by
  obtain ⟨first, others, rfl, hchoice⟩ := peek_bind_ok.1 h
  by_cases hclose : first.kind = .rightParen
  · rw [if_pos hclose] at hchoice
    obtain ⟨rfl, rfl⟩ := pure_ok.1 hchoice
    exact .inl ⟨rfl, rfl⟩
  · rw [if_neg hclose] at hchoice
    obtain ⟨value, mid, hvalue, hbehind⟩ := bind_ok.1 hchoice
    obtain ⟨heq, hkind⟩ := expect_ok.1 hvalue
    obtain ⟨o, after, hoperator, hlast⟩ := bind_ok.1 hbehind
    obtain ⟨rfl, rfl⟩ := pure_ok.1 hlast
    rw [heq]
    refine .inr ⟨value, hkind, ?_⟩
    rcases operatorSlot_ok hoperator with ⟨rfl, rfl⟩ | ⟨operator, hpredicate, rfl, rfl⟩
    · exact .inl ⟨rfl, rfl⟩
    · exact .inr ⟨operator, hpredicate, rfl, rfl⟩

/-- A check that was read is one of the grammar. -/
theorem sense_sound {a : String} {ts rest : List Token}
    {x : String × Option String × Option String} (h : sense ts = .ok (x, rest)) :
    Sense (⟨.leftParen, a⟩ :: lexemes ts) x (lexemes rest) := by
  obtain ⟨name, mid, hname, hbehind⟩ := bind_ok.1 h
  obtain ⟨rfl, hnamed⟩ := expect_one_ok.1 hname
  obtain ⟨c, after, hc, hend⟩ := bind_ok.1 hbehind
  obtain ⟨close, last, hclose, hlast⟩ := bind_ok.1 hend
  obtain ⟨rfl, hclosed⟩ := expect_one_ok.1 hclose
  obtain ⟨rfl, rfl⟩ := pure_ok.1 hlast
  rw [lexemes_cons_of_kind hnamed]
  rcases comparisonSlot_ok hc with ⟨rfl, rfl⟩ | ⟨value, hvalue, ⟨rfl, rfl⟩ |
      ⟨operator, hoperator, rfl, rfl⟩⟩
  · rw [lexemes_cons_of_kind hclosed]
    exact .bare
  · rw [lexemes_cons_of_kind rfl, lexemes_cons_of_kind hclosed]
    exact .value hvalue
  · rw [lexemes_cons_of_kind rfl, lexemes_cons_of_kind hoperator, lexemes_cons_of_kind hclosed]
    exact .operator hvalue

theorem leftParen_of_startsCondition {kind : Kind} (h : startsCondition kind = true)
    (hname : kind ≠ .name) : kind = .leftParen := by
  simpa [startsCondition, hname] using h

theorem condition_sound : ItemSound Condition startsCondition condition := by
  intro token ts rest x hstarts h
  unfold condition at h
  by_cases hname : token.kind = .name
  · rw [if_pos hname] at h
    obtain ⟨rfl, rfl⟩ := pure_ok.1 h
    rw [lexemes_cons_of_kind hname]
    exact .bare
  · rw [if_neg hname] at h
    obtain ⟨x', mid, hsense, hlast⟩ := bind_ok.1 h
    obtain ⟨rfl, rfl⟩ := pure_ok.1 hlast
    rw [lexemes_cons_of_kind (leftParen_of_startsCondition hstarts hname)]
    exact .check (sense_sound hsense)

/-- Conditions that were read are those of the grammar, in their order. -/
theorem conditions_sound {ts rest : List Token} {cs : List Plan.Condition}
    (h : conditions ts = .ok (cs, rest)) :
    Conditions (lexemes ts) cs (lexemes rest) := by
  obtain ⟨first, others, rfl, hchoice⟩ := peek_bind_ok.1 h
  by_cases hnil : first.kind = .nil
  · rw [if_pos hnil] at hchoice
    obtain ⟨rfl, rfl⟩ := skip_pure_ok.1 hchoice
    rw [lexemes_cons_of_kind hnil]
    exact .nil
  rw [if_neg hnil] at hchoice
  obtain ⟨opening, mid, hopening, hbehind⟩ := bind_ok.1 hchoice
  obtain ⟨heq, hopened⟩ := expect_one_ok.1 hopening
  obtain ⟨items, after, hitems, hend⟩ := bind_ok.1 hbehind
  obtain ⟨close, last, hclose, hlast⟩ := bind_ok.1 hend
  obtain ⟨rfl, hclosed⟩ := expect_one_ok.1 hclose
  obtain ⟨rfl, rfl⟩ := pure_ok.1 hlast
  have hstar := many_sound condition_sound hitems
  rw [lexemes_cons_of_kind hclosed] at hstar
  rw [heq, lexemes_cons_of_kind hopened]
  exact .listed hstar

/-- What follows the keyword of a goal or trigger, up to its closing parenthesis. -/
theorem guard_sound {keyword : Kind} {k : String} {closing : Expected} {ts rest : List Token}
    {x : Option (List Plan.Condition)}
    (h : (do
      let conditions ← conditions
      let _ ← expect [.rightParen] closing
      pure (present conditions) : Parser _) ts = .ok (x, rest)) :
    Guard keyword (⟨keyword, k⟩ :: lexemes ts) x (lexemes rest) := by
  obtain ⟨cs, mid, hcs, hend⟩ := bind_ok.1 h
  obtain ⟨close, after, hclose, hlast⟩ := bind_ok.1 hend
  obtain ⟨rfl, hclosed⟩ := expect_one_ok.1 hclose
  obtain ⟨rfl, rfl⟩ := pure_ok.1 hlast
  have hconditions := conditions_sound hcs
  rw [lexemes_cons_of_kind hclosed] at hconditions
  cases cs with
  | nil => exact .absent hconditions
  | cons => exact .present hconditions

theorem goalAndOpening_sound {owner : String} {keyword : Token} {ts rest : List Token}
    {goal : Option (List Plan.Condition)} (hkeyword : keyword.kind = .goal)
    (h : goalAndOpening owner (keyword :: ts) = .ok (goal, rest)) :
    ∃ b, Guard .goal (lexemes (keyword :: ts)) goal (⟨.leftParen, b⟩ :: lexemes rest) := by
  obtain ⟨x, mid, hgoal, hbehind⟩ := bind_ok.1 h
  obtain ⟨opening, after, hopening, hlast⟩ := bind_ok.1 hbehind
  obtain ⟨rfl, hopened⟩ := expect_one_ok.1 hopening
  obtain ⟨rfl, rfl⟩ := pure_ok.1 hlast
  refine ⟨opening.text, ?_⟩
  rw [lexemes_cons_of_kind hkeyword, ← lexemes_cons_of_kind hopened]
  exact guard_sound (skip_bind_ok.1 hgoal)

theorem goalSlot_sound {owner : String} {ts rest : List Token}
    {goal : Option (List Plan.Condition)} (h : goalSlot owner ts = .ok (goal, rest)) :
    GoalSlot (lexemes ts) goal (lexemes rest) := by
  obtain ⟨first, others, rfl, hchoice⟩ := peek_bind_ok.1 h
  by_cases hnil : first.kind = .nil
  · rw [if_pos hnil] at hchoice
    obtain ⟨opening, mid, hopening, hlast⟩ := bind_ok.1 (skip_bind_ok.1 hchoice)
    obtain ⟨rfl, hopened⟩ := expect_one_ok.1 hopening
    obtain ⟨rfl, rfl⟩ := pure_ok.1 hlast
    rw [lexemes_cons_of_kind hnil, lexemes_cons_of_kind hopened]
    exact .nil
  rw [if_neg hnil] at hchoice
  obtain ⟨opening, mid, hopening, hbehind⟩ := bind_ok.1 hchoice
  obtain ⟨heq, hopened⟩ := expect_one_ok.1 hopening
  obtain ⟨second, others', rfl, hsecond⟩ := peek_bind_ok.1 hbehind
  rw [heq, lexemes_cons_of_kind hopened]
  by_cases hgoal : second.kind = .goal
  · rw [if_pos hgoal] at hsecond
    obtain ⟨b, hguard⟩ := goalAndOpening_sound hgoal hsecond
    exact .goal hguard
  · rw [if_neg hgoal] at hsecond
    obtain ⟨rfl, rfl⟩ := pure_ok.1 hsecond
    exact .absent

theorem triggerSlot_sound {ts rest : List Token} {trigger : Option (List Plan.Condition)}
    (h : triggerSlot ts = .ok (trigger, rest)) :
    TriggerSlot (lexemes ts) trigger (lexemes rest) := by
  obtain ⟨first, others, rfl, hchoice⟩ := peek_bind_ok.1 h
  by_cases hnil : first.kind = .nil
  · rw [if_pos hnil] at hchoice
    obtain ⟨rfl, rfl⟩ := skip_pure_ok.1 hchoice
    rw [lexemes_cons_of_kind hnil]
    exact .nil
  rw [if_neg hnil] at hchoice
  by_cases hopens : first.kind = .leftParen
  · rw [if_pos hopens] at hchoice
    obtain ⟨keyword, mid, hkeyword, hbehind⟩ := bind_ok.1 (skip_bind_ok.1 hchoice)
    obtain ⟨rfl, hkind⟩ := expect_one_ok.1 hkeyword
    rw [lexemes_cons_of_kind hopens, lexemes_cons_of_kind hkind]
    exact .trigger (guard_sound hbehind)
  · rw [if_neg hopens] at hchoice
    obtain ⟨rfl, rfl⟩ := pure_ok.1 hchoice
    exact .absent

/-! ## Drive collections -/

/-- An interval that was read is one of the grammar, and where none was read the grammar has none.
-/
theorem intervalSlot_sound {ts rest : List Token} {interval : Option Int}
    (h : intervalSlot ts = .ok (interval, rest)) :
    IntervalSlot (lexemes ts) interval (lexemes rest) := by
  obtain ⟨first, others, rfl, hchoice⟩ := peek_bind_ok.1 h
  by_cases hnil : first.kind = .nil
  · rw [if_pos hnil] at hchoice
    obtain ⟨rfl, rfl⟩ := skip_pure_ok.1 hchoice
    rw [lexemes_cons_of_kind hnil]
    exact .nil
  rw [if_neg hnil] at hchoice
  by_cases hopens : first.kind = .leftParen
  · rw [if_pos hopens] at hchoice
    obtain ⟨millis, mid, hfrequency, hlast⟩ := bind_ok.1 (skip_bind_ok.1 hchoice)
    obtain ⟨rfl, rfl⟩ := pure_ok.1 hlast
    rw [lexemes_cons_of_kind hopens]
    exact .frequency (frequency_sound hfrequency)
  · rw [if_neg hopens] at hchoice
    obtain ⟨rfl, rfl⟩ := pure_ok.1 hchoice
    exact .absent

/-- A drive element that was read is one of the grammar, slot by slot. -/
theorem driveElement_sound {a : String} {ts rest : List Token} {x : Plan.DriveElement}
    (h : driveElement ts = .ok (x, rest)) :
    DriveElement (⟨.leftParen, a⟩ :: lexemes ts) x (lexemes rest) := by
  obtain ⟨name, t₁, hname, h₁⟩ := bind_ok.1 h
  obtain ⟨rfl, hnamed⟩ := expect_one_ok.1 hname
  obtain ⟨trigger, t₂, htrigger, h₂⟩ := bind_ok.1 h₁
  obtain ⟨target, t₃, htarget, h₃⟩ := bind_ok.1 h₂
  obtain ⟨rfl, htargeted⟩ := expect_one_ok.1 htarget
  obtain ⟨interval, t₄, hinterval, h₄⟩ := bind_ok.1 h₃
  obtain ⟨_, t₅, hcomment, h₅⟩ := bind_ok.1 h₄
  obtain ⟨close, t₆, hclose, h₆⟩ := bind_ok.1 h₅
  obtain ⟨rfl, hclosed⟩ := expect_one_ok.1 hclose
  obtain ⟨rfl, rfl⟩ := pure_ok.1 h₆
  have trigger' := triggerSlot_sound htrigger
  have ending := optionalComment_sound hcomment
  rw [lexemes_cons_of_kind htargeted] at trigger'
  rw [lexemes_cons_of_kind hclosed] at ending
  rw [lexemes_cons_of_kind hnamed]
  exact .intro trigger' (intervalSlot_sound hinterval) ending

/-- A level is read behind its opening parenthesis, and so is each of its items. -/
theorem level_sound {rule : Rule α} {expected closing : Expected} {item : Parser α}
    (hitem : ∀ {a : String} {ts rest : List Token} {x : α}, item ts = .ok (x, rest) →
      rule (⟨.leftParen, a⟩ :: lexemes ts) x (lexemes rest))
    {a : String} {ts rest : List Token} {xs : List α}
    (h : (do
      let elements ← parenthesised expected item
      let _ ← expect [.rightParen] closing
      pure elements : Parser _) ts = .ok (xs, rest)) :
    Level rule (⟨.leftParen, a⟩ :: lexemes ts) xs (lexemes rest) := by
  obtain ⟨elements, mid, helements, hend⟩ := bind_ok.1 h
  obtain ⟨close, after, hclose, hlast⟩ := bind_ok.1 hend
  obtain ⟨rfl, hclosed⟩ := expect_one_ok.1 hclose
  obtain ⟨rfl, rfl⟩ := pure_ok.1 hlast
  have items := parenthesised_sound hitem helements
  rw [lexemes_cons_of_kind hclosed] at items
  exact .intro items

theorem driveLevel_sound {a : String} {ts rest : List Token} {xs : List Plan.DriveElement}
    (h : driveLevel ts = .ok (xs, rest)) :
    Level DriveElement (⟨.leftParen, a⟩ :: lexemes ts) xs (lexemes rest) :=
  level_sound driveElement_sound h

/-- A drive collection that was read is one of the grammar, with the tag that was read before it.
-/
theorem driveCollection_sound {tag : Token} {ts rest : List Token} {x : Plan.DriveCollection}
    (htag : tag.kind ∈ [Kind.dc, .rdc, .sdc, .srdc])
    (h : driveCollection tag.text ts = .ok (x, rest)) :
    DriveCollection (lexemes (tag :: ts)) x (lexemes rest) := by
  obtain ⟨name, t₁, hname, h₁⟩ := bind_ok.1 h
  obtain ⟨rfl, hnamed⟩ := expect_one_ok.1 hname
  obtain ⟨goal, t₂, hgoal, h₂⟩ := bind_ok.1 h₁
  obtain ⟨drives, t₃, hdrives, h₃⟩ := bind_ok.1 h₂
  obtain ⟨rfl, hword⟩ := expect_one_ok.1 hdrives
  obtain ⟨levels, t₄, hlevels, h₄⟩ := bind_ok.1 h₃
  obtain ⟨close, t₅, hclose, h₅⟩ := bind_ok.1 h₄
  obtain ⟨rfl, hclosed⟩ := expect_one_ok.1 hclose
  obtain ⟨last, t₆, hlast, h₆⟩ := bind_ok.1 h₅
  obtain ⟨rfl, hended⟩ := expect_one_ok.1 hlast
  obtain ⟨rfl, rfl⟩ := pure_ok.1 h₆
  have goal' := goalSlot_sound hgoal
  have levels' := parenthesised_sound driveLevel_sound hlevels
  rw [lexemes_cons_of_kind hword] at goal'
  rw [lexemes_cons_of_kind hclosed, lexemes_cons_of_kind hended] at levels'
  rw [lexemes_cons_of_kind rfl, lexemes_cons_of_kind hnamed]
  exact .intro htag goal' levels'

/-! ## Competences -/

theorem retriesSlot_sound {element : String} {ts rest : List Token} {maxRetries : Int}
    (h : retriesSlot element ts = .ok (maxRetries, rest)) :
    RetriesSlot (lexemes ts) maxRetries (lexemes rest) := by
  obtain ⟨first, others, rfl, hchoice⟩ := peek_bind_ok.1 h
  by_cases hnil : first.kind = .nil
  · rw [if_pos hnil] at hchoice
    obtain ⟨rfl, rfl⟩ := skip_pure_ok.1 hchoice
    rw [lexemes_cons_of_kind hnil]
    exact .nil
  rw [if_neg hnil] at hchoice
  by_cases hint : first.kind = .int
  · rw [if_pos hint] at hchoice
    obtain ⟨token, mid, htoken, hcount⟩ := bind_ok.1 hchoice
    obtain ⟨heq, hkind⟩ := expect_one_ok.1 htoken
    rw [heq, lexemes_cons_of_kind hkind]
    cases hvalue : Numeral.int64? token.text.toList with
    | none =>
      rw [hvalue] at hcount
      exact absurd hcount not_stuck_ok
    | some count =>
      rw [hvalue] at hcount
      obtain ⟨rfl, rfl⟩ := pure_ok.1 hcount
      exact .count hvalue
  · rw [if_neg hint] at hchoice
    obtain ⟨rfl, rfl⟩ := pure_ok.1 hchoice
    exact .absent

/-- An element of a competence that was read is one of the grammar; the competence named in its
errors plays no part. -/
theorem competenceElement_sound {competence a : String} {ts rest : List Token}
    {x : Plan.CompetenceElement} (h : competenceElement competence ts = .ok (x, rest)) :
    CompetenceElement (⟨.leftParen, a⟩ :: lexemes ts) x (lexemes rest) := by
  obtain ⟨name, t₁, hname, h₁⟩ := bind_ok.1 h
  obtain ⟨rfl, hnamed⟩ := expect_one_ok.1 hname
  obtain ⟨trigger, t₂, htrigger, h₂⟩ := bind_ok.1 h₁
  obtain ⟨target, t₃, htarget, h₃⟩ := bind_ok.1 h₂
  obtain ⟨rfl, htargeted⟩ := expect_one_ok.1 htarget
  obtain ⟨retries, t₄, hretries, h₄⟩ := bind_ok.1 h₃
  obtain ⟨_, t₅, hcomment, h₅⟩ := bind_ok.1 h₄
  obtain ⟨close, t₆, hclose, h₆⟩ := bind_ok.1 h₅
  obtain ⟨rfl, hclosed⟩ := expect_one_ok.1 hclose
  obtain ⟨rfl, rfl⟩ := pure_ok.1 h₆
  have trigger' := triggerSlot_sound htrigger
  have ending := optionalComment_sound hcomment
  rw [lexemes_cons_of_kind htargeted] at trigger'
  rw [lexemes_cons_of_kind hclosed] at ending
  rw [lexemes_cons_of_kind hnamed]
  exact .intro trigger' (retriesSlot_sound hretries) ending

theorem competenceLevel_sound {competence a : String} {ts rest : List Token}
    {xs : List Plan.CompetenceElement} (h : competenceLevel competence ts = .ok (xs, rest)) :
    Level CompetenceElement (⟨.leftParen, a⟩ :: lexemes ts) xs (lexemes rest) :=
  level_sound competenceElement_sound h

theorem competenceHead_sound {name : String} {ts rest : List Token}
    {x : Option Int × Option (List Plan.Condition)}
    (h : competenceHead name ts = .ok (x, rest)) :
    CompetenceHead (lexemes ts) x (lexemes rest) := by
  obtain ⟨first, others, rfl, hchoice⟩ := peek_bind_ok.1 h
  -- The head is told by its first token, and behind a parenthesis by the second.
  by_cases hnil : first.kind = .nil
  · rw [if_pos hnil] at hchoice
    obtain ⟨goal, mid, hgoal, hlast⟩ := bind_ok.1 (skip_bind_ok.1 hchoice)
    obtain ⟨rfl, rfl⟩ := pure_ok.1 hlast
    rw [lexemes_cons_of_kind hnil]
    exact .nil (goalSlot_sound hgoal)
  rw [if_neg hnil] at hchoice
  obtain ⟨opening, mid, hopening, hbehind⟩ := bind_ok.1 hchoice
  obtain ⟨heq, hopened⟩ := expect_one_ok.1 hopening
  obtain ⟨second, others', rfl, hsecond⟩ := peek_bind_ok.1 hbehind
  rw [heq, lexemes_cons_of_kind hopened]
  by_cases htime : second.kind ∈ timeUnits
  · rw [if_pos htime] at hsecond
    obtain ⟨millis, t₁, hmillis, h₁⟩ := bind_ok.1 hsecond
    obtain ⟨goal, t₂, hgoal, h₂⟩ := bind_ok.1 h₁
    obtain ⟨rfl, rfl⟩ := pure_ok.1 h₂
    exact .time (time_sound htime hmillis) (goalSlot_sound hgoal)
  rw [if_neg htime] at hsecond
  by_cases hgoal : second.kind = .goal
  · rw [if_pos hgoal] at hsecond
    obtain ⟨goal, t₁, hguard, h₁⟩ := bind_ok.1 hsecond
    obtain ⟨rfl, rfl⟩ := pure_ok.1 h₁
    obtain ⟨b, hguard⟩ := goalAndOpening_sound hgoal hguard
    exact .goal hguard
  · rw [if_neg hgoal] at hsecond
    obtain ⟨rfl, rfl⟩ := pure_ok.1 hsecond
    exact .absent

/-- A competence that was read is one of the grammar. -/
theorem competence_sound {keyword : Token} {ts rest : List Token} {x : Plan.Competence}
    (hkeyword : keyword.kind = .competence) (h : competence ts = .ok (x, rest)) :
    Competence (lexemes (keyword :: ts)) x (lexemes rest) := by
  obtain ⟨name, t₁, hname, h₁⟩ := bind_ok.1 h
  obtain ⟨rfl, hnamed⟩ := expect_one_ok.1 hname
  obtain ⟨⟨time, goal⟩, t₂, hhead, h₂⟩ := bind_ok.1 h₁
  obtain ⟨elements, t₃, helements, h₃⟩ := bind_ok.1 h₂
  obtain ⟨rfl, hword⟩ := expect_one_ok.1 helements
  obtain ⟨levels, t₄, hlevels, h₄⟩ := bind_ok.1 h₃
  obtain ⟨close, t₅, hclose, h₅⟩ := bind_ok.1 h₄
  obtain ⟨rfl, hclosed⟩ := expect_one_ok.1 hclose
  obtain ⟨_, t₆, hcomment, h₆⟩ := bind_ok.1 h₅
  obtain ⟨last, t₇, hlast, h₇⟩ := bind_ok.1 h₆
  obtain ⟨rfl, hended⟩ := expect_one_ok.1 hlast
  obtain ⟨rfl, rfl⟩ := pure_ok.1 h₇
  have head := competenceHead_sound hhead
  have levels' := parenthesised_sound competenceLevel_sound hlevels
  have ending := optionalComment_sound hcomment
  rw [lexemes_cons_of_kind hword] at head
  rw [lexemes_cons_of_kind hclosed] at levels'
  rw [lexemes_cons_of_kind hended] at ending
  rw [lexemes_cons_of_kind hkeyword, lexemes_cons_of_kind hnamed]
  exact .intro head levels' ending

/-! ## Action patterns -/

theorem step_sound : ItemSound Step startsCondition step := by
  intro token ts rest x hstarts h
  unfold step at h
  by_cases hname : token.kind = .name
  · rw [if_pos hname] at h
    obtain ⟨rfl, rfl⟩ := pure_ok.1 h
    rw [lexemes_cons_of_kind hname]
    exact .named
  · rw [if_neg hname] at h
    obtain ⟨x', mid, hsense, hlast⟩ := bind_ok.1 h
    obtain ⟨rfl, rfl⟩ := pure_ok.1 hlast
    rw [lexemes_cons_of_kind (leftParen_of_startsCondition hstarts hname)]
    exact .sense (sense_sound hsense)

theorem steps_sound {pattern : String} {ts rest : List Token} {xs : List Plan.Step}
    (h : steps pattern ts = .ok (xs, rest)) : Plus Step (lexemes ts) xs (lexemes rest) := by
  obtain ⟨token, others, rfl, hchoice⟩ := peek_bind_ok.1 h
  by_cases hstarts : startsCondition token.kind = true
  · rw [if_pos hstarts] at hchoice
    exact many_sound_plus step_sound hstarts hchoice
  · rw [if_neg hstarts] at hchoice
    exact absurd hchoice not_unmet_ok

theorem patternHead_sound {name : String} {ts rest : List Token} {time : Option Int}
    (h : patternHead name ts = .ok (time, rest)) :
    PatternHead (lexemes ts) time (lexemes rest) := by
  obtain ⟨first, others, rfl, hchoice⟩ := peek_bind_ok.1 h
  by_cases hnil : first.kind = .nil
  · rw [if_pos hnil] at hchoice
    obtain ⟨opening, mid, hopening, hlast⟩ := bind_ok.1 (skip_bind_ok.1 hchoice)
    obtain ⟨rfl, hopened⟩ := expect_one_ok.1 hopening
    obtain ⟨rfl, rfl⟩ := pure_ok.1 hlast
    rw [lexemes_cons_of_kind hnil, lexemes_cons_of_kind hopened]
    exact .nil
  rw [if_neg hnil] at hchoice
  obtain ⟨opening, mid, hopening, hbehind⟩ := bind_ok.1 hchoice
  obtain ⟨heq, hopened⟩ := expect_one_ok.1 hopening
  obtain ⟨second, others', rfl, hsecond⟩ := peek_bind_ok.1 hbehind
  rw [heq, lexemes_cons_of_kind hopened]
  by_cases htime : second.kind ∈ timeUnits
  · rw [if_pos htime] at hsecond
    obtain ⟨millis, t₁, hmillis, h₁⟩ := bind_ok.1 hsecond
    obtain ⟨opening', t₂, hopening', h₂⟩ := bind_ok.1 h₁
    obtain ⟨rfl, hopened'⟩ := expect_one_ok.1 hopening'
    obtain ⟨rfl, rfl⟩ := pure_ok.1 h₂
    have time := time_sound htime hmillis
    rw [lexemes_cons_of_kind hopened'] at time
    exact .time time
  · rw [if_neg htime] at hsecond
    obtain ⟨rfl, rfl⟩ := pure_ok.1 hsecond
    exact .absent

/-- An action pattern that was read is one of the grammar. -/
theorem actionPattern_sound {keyword : Token} {ts rest : List Token} {x : Plan.ActionPattern}
    (hkeyword : keyword.kind = .actionPattern) (h : actionPattern ts = .ok (x, rest)) :
    ActionPattern (lexemes (keyword :: ts)) x (lexemes rest) := by
  obtain ⟨name, t₁, hname, h₁⟩ := bind_ok.1 h
  obtain ⟨rfl, hnamed⟩ := expect_one_ok.1 hname
  obtain ⟨time, t₂, hhead, h₂⟩ := bind_ok.1 h₁
  obtain ⟨items, t₃, hitems, h₃⟩ := bind_ok.1 h₂
  obtain ⟨close, t₄, hclose, h₄⟩ := bind_ok.1 h₃
  obtain ⟨rfl, hclosed⟩ := expect_one_ok.1 hclose
  obtain ⟨_, t₅, hcomment, h₅⟩ := bind_ok.1 h₄
  obtain ⟨last, t₆, hlast, h₆⟩ := bind_ok.1 h₅
  obtain ⟨rfl, hended⟩ := expect_one_ok.1 hlast
  obtain ⟨rfl, rfl⟩ := pure_ok.1 h₆
  have items' := steps_sound hitems
  have ending := optionalComment_sound hcomment
  rw [lexemes_cons_of_kind hclosed] at items'
  rw [lexemes_cons_of_kind hended] at ending
  rw [lexemes_cons_of_kind hkeyword, lexemes_cons_of_kind hnamed]
  exact .intro (patternHead_sound hhead) items' ending

/-! ## Documentation -/

theorem unquote_quoted (inner : List Char) :
    unquote (String.ofList ('"' :: inner ++ ['"'])) = String.ofList inner := by
  simp [unquote]

theorem unquote_plain {text : String} (h : ∀ inner, text.toList ≠ '"' :: inner ++ ['"']) :
    unquote text = text := by
  unfold unquote
  split
  · rename_i rest hrest
    refine if_neg fun hlast => ?_
    obtain ⟨inner, rfl⟩ := List.getLast?_eq_some_iff.1 hlast
    exact h inner hrest
  · rfl

/-- A text is in quotes, and `unquote` takes them off, or it is not, and `unquote` leaves
it alone. -/
theorem unquoted_unquote (text : String) : Unquoted text (unquote text) := by
  by_cases hquoted : ∃ inner, text.toList = '"' :: inner ++ ['"']
  · obtain ⟨inner, hinner⟩ := hquoted
    obtain rfl : String.ofList ('"' :: inner ++ ['"']) = text := by
      rw [← hinner, String.ofList_toList]
    rw [unquote_quoted]
    exact .quoted inner
  · have hplain : ∀ inner, text.toList ≠ '"' :: inner ++ ['"'] :=
      fun inner hinner => hquoted ⟨inner, hinner⟩
    rw [unquote_plain hplain]
    exact .plain hplain

theorem docstring_sound {keyword : Token} {ts rest : List Token} {x : Plan.Docstring}
    (hkeyword : keyword.kind = .documentation) (h : docstring ts = .ok (x, rest)) :
    Documentation (lexemes (keyword :: ts)) x (lexemes rest) := by
  obtain ⟨title, t₁, htitle, h₁⟩ := bind_ok.1 h
  obtain ⟨rfl, htitled⟩ := expect_one_ok.1 htitle
  obtain ⟨author, t₂, hauthor, h₂⟩ := bind_ok.1 h₁
  obtain ⟨rfl, hauthored⟩ := expect_one_ok.1 hauthor
  obtain ⟨memo, t₃, hmemo, h₃⟩ := bind_ok.1 h₂
  obtain ⟨rfl, hnoted⟩ := expect_one_ok.1 hmemo
  obtain ⟨close, t₄, hclose, h₄⟩ := bind_ok.1 h₃
  obtain ⟨rfl, hclosed⟩ := expect_one_ok.1 hclose
  obtain ⟨rfl, rfl⟩ := pure_ok.1 h₄
  rw [lexemes_cons_of_kind hkeyword, lexemes_cons_of_kind htitled,
    lexemes_cons_of_kind hauthored, lexemes_cons_of_kind hnoted, lexemes_cons_of_kind hclosed]
  exact .intro (unquoted_unquote _) (unquoted_unquote _) (unquoted_unquote _)

/-! ## Parts of a plan -/

theorem mem_of_isCollectionTag {kind : Kind} (h : kind.isCollectionTag = true) :
    kind ∈ [Kind.dc, .rdc, .sdc, .srdc] := by
  cases kind <;> first | decide | cases h

theorem addDocstring_sound {plan after : Plan} {keyword : Token} {a : String}
    {ts rest : List Token} (hkeyword : keyword.kind = .documentation)
    (h : addDocstring plan (keyword :: ts) = .ok (after, rest)) :
    ∃ part, Opened (⟨.leftParen, a⟩ :: lexemes (keyword :: ts)) part (lexemes rest) ∧
      Part.addTo? plan part = some after := by
  unfold addDocstring at h
  by_cases hplan : plan = .empty
  · rw [if_pos hplan] at h
    obtain ⟨part, mid, hpart, hlast⟩ := bind_ok.1 (skip_bind_ok.1 h)
    obtain ⟨rfl, rfl⟩ := pure_ok.1 hlast
    exact ⟨.docstring part, .docstring (docstring_sound hkeyword hpart), if_pos hplan⟩
  · rw [if_neg hplan] at h
    exact absurd h not_stuck_ok

theorem addCollection_sound {plan after : Plan} {tag : Token} {a : String}
    {ts rest : List Token} (htag : tag.kind.isCollectionTag = true)
    (h : addCollection plan tag.text (tag :: ts) = .ok (after, rest)) :
    ∃ part, Opened (⟨.leftParen, a⟩ :: lexemes (tag :: ts)) part (lexemes rest) ∧
      Part.addTo? plan part = some after := by
  unfold addCollection at h
  by_cases hplan : plan.collection.isNone = true
  · rw [if_pos hplan] at h
    obtain ⟨part, mid, hpart, hlast⟩ := bind_ok.1 (skip_bind_ok.1 h)
    obtain ⟨rfl, rfl⟩ := pure_ok.1 hlast
    have derived := driveCollection_sound (mem_of_isCollectionTag htag) hpart
    exact ⟨.collection part, .collection derived, if_pos hplan⟩
  · rw [if_neg hplan] at h
    exact absurd h not_stuck_ok

/-- A part that was added to a plan is one that the grammar opens here, and one that may be added.
-/
theorem addPart_sound {plan after : Plan} {a : String} {ts rest : List Token}
    (h : addPart plan ts = .ok (after, rest)) :
    ∃ part, Opened (⟨.leftParen, a⟩ :: lexemes ts) part (lexemes rest) ∧
      Part.addTo? plan part = some after := by
  cases ts with
  | nil => cases h
  | cons token ts =>
    rw [addPart_cons] at h
    -- The first token decides which part it is.
    split at h
    · rename_i hkind
      exact addDocstring_sound hkind h
    · rename_i hkind
      cases hpart : competence ts with
      | error e =>
        rw [hpart] at h
        cases h
      | ok result =>
        rw [hpart] at h
        obtain ⟨rfl, rfl⟩ := Prod.mk.inj (Except.ok.inj h)
        exact ⟨.competence result.1, .competence (competence_sound hkind hpart), rfl⟩
    · rename_i hkind
      cases hpart : actionPattern ts with
      | error e =>
        rw [hpart] at h
        cases h
      | ok result =>
        rw [hpart] at h
        obtain ⟨rfl, rfl⟩ := Prod.mk.inj (Except.ok.inj h)
        exact ⟨.pattern result.1, .pattern (actionPattern_sound hkind hpart), rfl⟩
    · by_cases htag : token.kind.isCollectionTag = true
      · rw [if_pos htag] at h
        exact addCollection_sound htag h
      · rw [if_neg htag] at h
        exact absurd h not_stuck_ok

/-- Parts that were read up to the closing parenthesis are those of the grammar, and make up the
plan that was read. -/
theorem addParts_sound {plan after : Plan} {ts rest : List Token}
    (h : addParts plan ts = .ok (after, rest)) :
    ∃ parts b, Star Opened (lexemes ts) parts (⟨.rightParen, b⟩ :: lexemes rest) ∧
      Part.addAll? plan parts = some after := by
  fun_induction addParts plan ts with
  | case1 => cases h
  | case2 plan ts token hhead hclose =>
    obtain ⟨ts, rfl⟩ := Supply.eq_cons_of_head? hhead
    obtain ⟨rfl, rfl⟩ := Prod.mk.inj (Except.ok.inj h)
    refine ⟨[], token.text, ?_, rfl⟩
    rw [← lexemes_cons_of_kind hclose]
    exact .nil _
  | case3 => cases h
  | case4 plan ts token hhead hclose hopens mid others hpart hshort ih =>
    obtain ⟨ts, rfl⟩ := Supply.eq_cons_of_head? hhead
    obtain ⟨part, hopened, hadd⟩ := addPart_sound (a := token.text) hpart
    obtain ⟨parts, b, hstar, hall⟩ := ih h
    refine ⟨part :: parts, b, ?_, ?_⟩
    · rw [lexemes_cons_of_kind hopens]
      exact .cons hopened hstar
    · rw [Part.addAll?_cons, hadd]
      exact hall
  | case5 plan ts token hhead hclose hopens mid others hpart hlong =>
    obtain ⟨ts, rfl⟩ := Supply.eq_cons_of_head? hhead
    -- No part gives back more tokens than it got.
    obtain ⟨part, hopened, -⟩ := addPart_sound (a := token.text) hpart
    obtain ⟨_, _, heq, hbehind⟩ := Opened.takesOne hopened
    obtain ⟨-, rfl⟩ := List.cons.inj heq
    have hlength := hbehind.length_le
    simp only [lexemes, List.length_map] at hlength
    exact absurd hlength hlong
  | case6 => exact absurd h not_unmet_ok

/-- What is read as a plan is derived as one, and nothing is left. -/
theorem plan_sound {ts rest : List Token} {p : Plan} (h : plan ts = .ok (p, rest)) :
    rest = [] ∧ IsPlan (lexemes ts) p := by
  obtain ⟨opening, t₁, hopening, h₁⟩ := bind_ok.1 h
  obtain ⟨rfl, hopened⟩ := expect_one_ok.1 hopening
  obtain ⟨read, t₂, hread, hfinish⟩ := bind_ok.1 h₁
  obtain ⟨parts, b, hstar, hall⟩ := addParts_sound hread
  obtain ⟨⟨hdocstring, hcollection⟩, rfl⟩ := Part.addAll?_empty.1 hall
  cases t₂ with
  | cons token ts => cases hfinish
  | nil =>
    simp only [finish, Supply.head?_nil] at hfinish
    split at hfinish
    · cases hfinish
    · rename_i hroot
      obtain ⟨rfl, rfl⟩ := Prod.mk.inj (Except.ok.inj hfinish)
      refine ⟨rfl, ?_⟩
      rw [lexemes_cons_of_kind hopened]
      refine .intro hstar ⟨hdocstring, hcollection, fun hnone => ?_⟩
      simpa [planOf, hnone] using hroot

end Parser

end SlipStack.Lap
