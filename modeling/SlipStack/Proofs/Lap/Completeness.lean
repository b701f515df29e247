import SlipStack.Proofs.Lap.Soundness

/-!
# What is derived, the parser reads

The converse of `SlipStack.Proofs.Lap.Soundness`: a derivation makes the production succeed,
with the meaning of the sentence and the tokens behind it. The rules know no lookahead, the
productions do. A production that chooses by the next token is therefore complete only where
what follows its sentence is not mistaken for a part of it; those lemmas name the lexeme
that follows.

`Accepts` is continued token by token: `accepts_expect`, `accepts_peek` and `accepts_skip`
turn what is known of the lexemes that are left into the success of the next step.
-/

namespace SlipStack.Lap

theorem lexemes_cons_inj {token : Token} {ts : List Token} {k : Kind} {s : String}
    {ls : List Lexeme} (h : lexemes (token :: ts) = ⟨k, s⟩ :: ls) :
    token.kind = k ∧ s = token.text ∧ lexemes ts = ls := by
  obtain ⟨hlexeme, hls⟩ := List.cons.inj h
  obtain ⟨hkind, htext⟩ := Lexeme.mk.inj hlexeme
  exact ⟨hkind, htext.symm, hls⟩

/-- The tokens behind lexemes. -/
theorem lexemes_eq_cons {ts : List Token} {k : Kind} {s : String} {ls : List Lexeme}
    (h : lexemes ts = ⟨k, s⟩ :: ls) :
    ∃ token rest, ts = token :: rest ∧ token.kind = k ∧ s = token.text ∧ lexemes rest = ls := by
  cases ts with
  | nil => cases h
  | cons token rest => exact ⟨token, rest, rfl, lexemes_cons_inj h⟩

theorem length_lexemes (ts : List Token) : (lexemes ts).length = ts.length :=
  List.length_map _

namespace Parser

open Grammar

variable {α β : Type}

/-- The production reads `x` and leaves tokens that have the given lexemes. -/
def Accepts (p : Parser α) (ts : List Token) (x : α) (ls : List Lexeme) : Prop :=
  ∃ rest, lexemes rest = ls ∧ p ts = .ok (x, rest)

/-! ## Runs, token by token -/

theorem accepts_pure {ts : List Token} {ls : List Lexeme} {x : α} (h : lexemes ts = ls) :
    Accepts (pure x) ts x ls :=
  ⟨ts, h, rfl⟩

/-- A sequence accepts what its first part and then its second part accept. -/
theorem accepts_bind {p : Parser α} {f : α → Parser β} {ts : List Token}
    {mid ls : List Lexeme} {x : α} {y : β} (hp : Accepts p ts x mid)
    (hf : ∀ rest, lexemes rest = mid → Accepts (f x) rest y ls) :
    Accepts (p >>= f) ts y ls := by
  obtain ⟨rest, hrest, hx⟩ := hp
  obtain ⟨last, hlast, hy⟩ := hf rest hrest
  exact ⟨last, hlast, bind_ok.2 ⟨x, rest, hx, hy⟩⟩

/-- A token that is expected is taken, whatever its text and line. -/
theorem accepts_expect {kinds : List Kind} {expected : Expected} {f : Token → Parser β}
    {ts : List Token} {k : Kind} {s : String} {ls ms : List Lexeme} {y : β}
    (hts : lexemes ts = ⟨k, s⟩ :: ls) (hk : k ∈ kinds)
    (hf : ∀ token rest, s = token.text → lexemes rest = ls → Accepts (f token) rest y ms) :
    Accepts (expect kinds expected >>= f) ts y ms := by
  obtain ⟨token, rest, rfl, hkind, htext, hrest⟩ := lexemes_eq_cons hts
  obtain ⟨last, hlast, hy⟩ := hf token rest htext hrest
  exact ⟨last, hlast, bind_ok.2 ⟨token, rest, expect_ok.2 ⟨rfl, hkind ▸ hk⟩, hy⟩⟩

theorem accepts_peek {f : Kind → Parser β} {ts : List Token} {k : Kind} {s : String}
    {ls ms : List Lexeme} {y : β} (hts : lexemes ts = ⟨k, s⟩ :: ls)
    (hf : Accepts (f k) ts y ms) : Accepts (peek >>= f) ts y ms := by
  obtain ⟨token, rest, rfl, rfl, -⟩ := lexemes_eq_cons hts
  exact hf

theorem accepts_skip {f : Unit → Parser β} {ts : List Token} {l : Lexeme}
    {ls ms : List Lexeme} {y : β} (hts : lexemes ts = l :: ls)
    (hf : ∀ rest, lexemes rest = ls → Accepts (f ()) rest y ms) :
    Accepts (skip >>= f) ts y ms := by
  obtain ⟨token, rest, rfl, -, -, hrest⟩ := lexemes_eq_cons hts
  exact hf rest hrest

/-! ## Repetition -/

/-- An item of the rule starts with a token that `starts` knows, and behind that token `item`
reads it. -/
def ItemAccepts (rule : Rule α) (starts : Kind → Bool) (item : Token → Parser α) : Prop :=
  ∀ ⦃token : Token⦄ ⦃ts : List Token⦄ ⦃ls : List Lexeme⦄ ⦃x : α⦄ ⦃ms : List Lexeme⦄,
    lexemes (token :: ts) = ls → rule ls x ms →
      starts token.kind = true ∧ Accepts (item token) ts x ms

/-- Items that the grammar repeats are all taken: each of them starts as the parser expects of an
item, and what ends them does not. -/
theorem many_complete {rule : Rule α} {starts : Kind → Bool} {item : Token → Parser α}
    (hrule : TakesOne rule) (hitem : ItemAccepts rule starts item) {ts : List Token}
    {k : Kind} {s : String} {ls ms : List Lexeme} {xs : List α} (hk : starts k = false)
    (hts : lexemes ts = ls) (h : Star rule ls xs (⟨k, s⟩ :: ms)) :
    Accepts (many starts item) ts xs (⟨k, s⟩ :: ms) := by
  generalize hend : ⟨k, s⟩ :: ms = rest at h
  induction h generalizing ts with
  | nil =>
    subst hend
    obtain ⟨token, others, rfl, rfl, -⟩ := lexemes_eq_cons hts
    refine ⟨token :: others, hts, ?_⟩
    rw [many_cons, if_neg (Bool.eq_false_iff.1 hk)]
  | cons head tail ih =>
    obtain ⟨first, behind, rfl, htaken⟩ := hrule head
    obtain ⟨token, others, rfl, -, -, hothers⟩ := lexemes_eq_cons hts
    obtain ⟨hstarts, after, hafter, hx⟩ := hitem hts head
    obtain ⟨last, hlast, hxs⟩ := ih hafter hend
    have hshort : after.length ≤ others.length := by
      rw [← length_lexemes, ← length_lexemes, hafter, hothers]
      exact htaken.length_le
    refine ⟨last, hlast, ?_⟩
    rw [many_cons, if_pos hstarts]
    simp only [hx, dif_pos hshort, hxs]

/-- One or more items behind a choice that looks whether one starts. -/
theorem many_complete_plus {rule : Rule α} {starts : Kind → Bool} {item : Token → Parser α}
    {otherwise : Parser (List α)} (hrule : TakesOne rule)
    (hitem : ItemAccepts rule starts item) {ts : List Token} {k : Kind} {s : String}
    {ls ms : List Lexeme} {xs : List α} (hk : starts k = false) (hts : lexemes ts = ls)
    (h : Plus rule ls xs (⟨k, s⟩ :: ms)) :
    Accepts (do
      let kind ← peek
      if starts kind then many starts item else otherwise) ts xs (⟨k, s⟩ :: ms) := by
  have hstar := Plus.star h
  cases h with
  | intro head tail =>
    obtain ⟨first, behind, rfl, -⟩ := hrule head
    obtain ⟨token, others, rfl, -, -, hothers⟩ := lexemes_eq_cons hts
    refine accepts_peek (lexemes_cons_of_kind rfl others) ?_
    rw [if_pos (hitem hts head).1]
    exact many_complete hrule hitem hk hts hstar

theorem optionalComment_complete {ts : List Token} {b : String} {ls ms : List Lexeme}
    (hts : lexemes ts = ls) (h : OptionalComment ls (⟨.rightParen, b⟩ :: ms)) :
    Accepts optionalComment ts () (⟨.rightParen, b⟩ :: ms) := by
  cases h with
  | absent => exact accepts_peek hts (accepts_pure hts)
  | present =>
    refine accepts_peek hts ?_
    exact accepts_skip hts fun rest hrest => accepts_pure hrest

/-! ## Durations -/

theorem number_complete {ts : List Token} {ls ms : List Lexeme} {value : Binary64}
    (hts : lexemes ts = ls) (h : Number ls value ms) : Accepts number ts value ms := by
  cases h with
  | intro hkind hvalue =>
    refine accepts_expect hts hkind ?_
    rintro token rest rfl hrest
    rw [hvalue]
    exact accepts_pure hrest

/-- A duration of the grammar has a unit that the parser knows, and the milliseconds that the
parser computes. -/
theorem inMillis?_of_duration {unit : Kind} {value millis : Binary64}
    (h : Duration unit value millis) :
    unit ∈ timeUnits ∧ inMillis? unit value = some millis := by
  cases h <;> exact ⟨by decide, rfl⟩

theorem inMillis?_of_period {unit : Kind} {value millis : Binary64}
    (h : Period unit value millis) :
    unit ∈ frequencyUnits ∧ inMillis? unit value = some millis := by
  cases h with
  | hz hzero | pm hzero => exact ⟨by decide, if_neg (Bool.eq_false_iff.1 hzero)⟩

theorem mem_frequencyUnits {unit : Kind} (h : unit ∈ timeUnits) : unit ∈ frequencyUnits := by
  simp only [timeUnits, frequencyUnits, List.mem_cons, List.not_mem_nil, or_false] at h ⊢
  rcases h with rfl | rfl | rfl | rfl <;> simp

theorem millisOf_complete {unit : Kind} (closing : Expected) {ts : List Token} {b : String}
    {ls ms : List Lexeme} {value millis : Binary64}
    (hmillis : inMillis? unit value = some millis) (hts : lexemes ts = ls)
    (h : Number ls value (⟨.rightParen, b⟩ :: ms)) :
    Accepts (millisOf unit closing) ts millis.toInt64 ms := by
  refine accepts_bind (number_complete hts h) fun t₁ h₁ => ?_
  refine accepts_expect h₁ (by decide) fun close t₂ _ h₂ => ?_
  rw [hmillis]
  exact accepts_pure h₂

/-- A time starts with its unit, by which the parser knows it. -/
theorem time_complete {ts : List Token} {ls ms : List Lexeme} {millis : Int}
    (hts : lexemes ts = ls) (h : Time ls millis ms) :
    ∃ unit text behind, ls = ⟨unit, text⟩ :: behind ∧ unit ∈ timeUnits ∧
      Accepts (time unit) ts millis ms := by
  cases h with
  | intro hduration hnumber =>
    obtain ⟨hunit, hmillis⟩ := inMillis?_of_duration hduration
    refine ⟨_, _, _, rfl, hunit, ?_⟩
    exact accepts_skip hts fun t₁ h₁ => millisOf_complete _ hmillis h₁ hnumber

/-- A frequency or time of the grammar is read to its whole milliseconds. -/
theorem frequency_complete {ts : List Token} {ls ms : List Lexeme} {millis : Int}
    (hts : lexemes ts = ls) (h : Frequency ls millis ms) :
    Accepts frequency ts millis ms := by
  obtain ⟨unit, u, behind, value, raw, b, rfl, rfl, hunit, hraw, hnumber⟩ :
      ∃ unit u behind value raw b, ls = ⟨unit, u⟩ :: behind ∧ millis = raw.toInt64 ∧
        unit ∈ frequencyUnits ∧ inMillis? unit value = some raw ∧
        Number behind value (⟨.rightParen, b⟩ :: ms) := by
    cases h with
    | time htime =>
      cases htime with
      | intro hduration hnumber =>
        obtain ⟨hunit, hraw⟩ := inMillis?_of_duration hduration
        exact ⟨_, _, _, _, _, _, rfl, rfl, mem_frequencyUnits hunit, hraw, hnumber⟩
    | rate hperiod hnumber =>
      obtain ⟨hunit, hraw⟩ := inMillis?_of_period hperiod
      exact ⟨_, _, _, _, _, _, rfl, rfl, hunit, hraw, hnumber⟩
  obtain ⟨token, t₁, rfl, rfl, rfl, h₁⟩ := lexemes_eq_cons hts
  obtain ⟨last, hlast, hmillis⟩ := millisOf_complete .frequencyEnd hraw h₁ hnumber
  exact ⟨last, hlast, bind_ok.2 ⟨token, t₁, expect_ok.2 ⟨rfl, hunit⟩, hmillis⟩⟩

/-! ## Conditions -/

theorem operatorSlot_absent {ts : List Token} {b : String} {ls : List Lexeme}
    (hts : lexemes ts = ⟨.rightParen, b⟩ :: ls) :
    Accepts operatorSlot ts none (⟨.rightParen, b⟩ :: ls) :=
  accepts_peek hts (accepts_pure hts)

theorem operatorSlot_present {ts : List Token} {operator : String} {ls : List Lexeme}
    (hts : lexemes ts = ⟨.predicate, operator⟩ :: ls) :
    Accepts operatorSlot ts (some operator) ls := by
  refine accepts_peek hts ?_
  rw [if_neg (by decide)]
  refine accepts_expect hts (by decide) ?_
  rintro token t₁ rfl h₁
  exact accepts_pure h₁

theorem comparisonSlot_present {ts : List Token} {kind : Kind} {value : String}
    {operator : Option String} {ls ms : List Lexeme} (hkind : kind ∈ valueKinds)
    (hts : lexemes ts = ⟨kind, value⟩ :: ls)
    (hoperator : ∀ t, lexemes t = ls → Accepts operatorSlot t operator ms) :
    Accepts comparisonSlot ts (some value, operator) ms := by
  refine accepts_peek hts ?_
  rw [if_neg (by rintro rfl; revert hkind; decide)]
  refine accepts_expect hts hkind ?_
  rintro token t₁ rfl h₁
  exact accepts_bind (hoperator t₁ h₁) fun t₂ h₂ => accepts_pure h₂

/-- A check of the grammar is read to its name, value and operator. -/
theorem sense_complete {token : Token} {ts : List Token} {ls ms : List Lexeme}
    {x : String × Option String × Option String} (hts : lexemes (token :: ts) = ls)
    (h : Sense ls x ms) : token.kind = .leftParen ∧ Accepts sense ts x ms := by
  cases h with
  | bare =>
    obtain ⟨hkind, -, h₁⟩ := lexemes_cons_inj hts
    refine ⟨hkind, accepts_expect h₁ (by decide) ?_⟩
    rintro name t₂ rfl h₂
    refine accepts_bind (accepts_peek h₂ (accepts_pure h₂)) fun t₃ h₃ => ?_
    exact accepts_expect h₃ (by decide) fun close t₄ _ h₄ => accepts_pure h₄
  | value hvalue =>
    obtain ⟨hkind, -, h₁⟩ := lexemes_cons_inj hts
    refine ⟨hkind, accepts_expect h₁ (by decide) ?_⟩
    rintro name t₂ rfl h₂
    refine accepts_bind (comparisonSlot_present hvalue h₂ fun t => operatorSlot_absent)
      fun t₃ h₃ => ?_
    exact accepts_expect h₃ (by decide) fun close t₄ _ h₄ => accepts_pure h₄
  | operator hvalue =>
    obtain ⟨hkind, -, h₁⟩ := lexemes_cons_inj hts
    refine ⟨hkind, accepts_expect h₁ (by decide) ?_⟩
    rintro name t₂ rfl h₂
    refine accepts_bind (comparisonSlot_present hvalue h₂ fun t => operatorSlot_present)
      fun t₃ h₃ => ?_
    exact accepts_expect h₃ (by decide) fun close t₄ _ h₄ => accepts_pure h₄

/-- A condition of the grammar, a bare name or a check, is read as such. -/
theorem condition_complete : ItemAccepts Condition startsCondition condition := by
  intro token ts ls x ms hts h
  cases h with
  | bare =>
    obtain ⟨hkind, rfl, h₁⟩ := lexemes_cons_inj hts
    refine ⟨by rw [hkind]; rfl, ?_⟩
    rw [condition, if_pos hkind]
    exact accepts_pure h₁
  | check hsense =>
    obtain ⟨hkind, hsense⟩ := sense_complete hts hsense
    refine ⟨by rw [hkind]; rfl, ?_⟩
    rw [condition, if_neg (by rw [hkind]; decide)]
    exact accepts_bind hsense fun t₁ h₁ => accepts_pure h₁

/-- A list of conditions of the grammar, or `nil`, is read in its order. -/
theorem conditions_complete {ts : List Token} {ls ms : List Lexeme}
    {cs : List Plan.Condition} (hts : lexemes ts = ls) (h : Conditions ls cs ms) :
    Accepts conditions ts cs ms := by
  cases h with
  | nil =>
    refine accepts_peek hts ?_
    exact accepts_skip hts fun t₁ h₁ => accepts_pure h₁
  | listed hstar =>
    refine accepts_peek hts ?_
    rw [if_neg (by decide)]
    refine accepts_expect hts (by decide) fun opening t₁ _ h₁ => ?_
    refine accepts_bind
      (many_complete Condition.takesOne condition_complete rfl h₁ hstar) fun t₂ h₂ => ?_
    exact accepts_expect h₂ (by decide) fun close t₃ _ h₃ => accepts_pure h₃

/-- What follows the keyword of a goal or trigger. -/
theorem guard_complete {keyword : Kind} (closing : Expected) {ts : List Token}
    {ls ms : List Lexeme} {x : Option (List Plan.Condition)} (hts : lexemes ts = ls)
    (h : Guard keyword ls x ms) :
    ∃ k behind, ls = ⟨keyword, k⟩ :: behind ∧ ∀ t, lexemes t = behind →
      Accepts (do
        let conditions ← conditions
        let _ ← expect [.rightParen] closing
        pure (present conditions) : Parser _) t x ms := by
  cases h with
  | absent hconditions | present hconditions =>
    refine ⟨_, _, rfl, fun t ht => ?_⟩
    refine accepts_bind (conditions_complete ht hconditions) fun t₁ h₁ => ?_
    exact accepts_expect h₁ (by decide) fun close t₂ _ h₂ => accepts_pure h₂

theorem goalAndOpening_complete (owner : String) {b : String} {ts : List Token}
    {ls ms : List Lexeme}
    {goal : Option (List Plan.Condition)} (hts : lexemes ts = ls)
    (h : Guard .goal ls goal (⟨.leftParen, b⟩ :: ms)) :
    ∃ k behind, ls = ⟨.goal, k⟩ :: behind ∧ Accepts (goalAndOpening owner) ts goal ms := by
  obtain ⟨k, behind, rfl, hguard⟩ := guard_complete .goalEnd hts h
  refine ⟨k, behind, rfl, ?_⟩
  refine accepts_bind (accepts_skip hts hguard) fun t₁ h₁ => ?_
  exact accepts_expect h₁ (by decide) fun opening t₂ _ h₂ => accepts_pure h₂

/-- A goal slot is complete in front of anything but the keyword of a goal. -/
theorem goalSlot_complete {owner s : String} {k : Kind} {ts : List Token}
    {ls ms : List Lexeme} {goal : Option (List Plan.Condition)} (hts : lexemes ts = ls)
    (h : GoalSlot ls goal (⟨k, s⟩ :: ms)) (hk : k ≠ .goal) :
    Accepts (goalSlot owner) ts goal (⟨k, s⟩ :: ms) := by
  cases h with
  | nil =>
    refine accepts_peek hts (accepts_skip hts fun t₁ h₁ => ?_)
    exact accepts_expect h₁ (by decide) fun opening t₂ _ h₂ => accepts_pure h₂
  | goal hguard =>
    refine accepts_peek hts ?_
    rw [if_neg (by decide)]
    refine accepts_expect hts (by decide) fun opening t₁ _ h₁ => ?_
    obtain ⟨_, _, rfl, hgoal⟩ := goalAndOpening_complete owner h₁ hguard
    exact accepts_peek h₁ hgoal
  | absent =>
    refine accepts_peek hts ?_
    rw [if_neg (by decide)]
    refine accepts_expect hts (by decide) fun opening t₁ _ h₁ => accepts_peek h₁ ?_
    rw [if_neg hk]
    exact accepts_pure h₁

/-- The slot of a trigger is complete in front of a name. -/
theorem triggerSlot_complete {target : String} {ts : List Token} {ls ms : List Lexeme}
    {trigger : Option (List Plan.Condition)} (hts : lexemes ts = ls)
    (h : TriggerSlot ls trigger (⟨.name, target⟩ :: ms)) :
    Accepts triggerSlot ts trigger (⟨.name, target⟩ :: ms) := by
  cases h with
  | nil => exact accepts_peek hts (accepts_skip hts fun t₁ h₁ => accepts_pure h₁)
  | trigger hguard =>
    refine accepts_peek hts ?_
    rw [if_neg (by decide), if_pos rfl]
    refine accepts_skip hts fun t₁ h₁ => ?_
    obtain ⟨_, _, rfl, htrigger⟩ := guard_complete .triggerEnd h₁ hguard
    exact accepts_expect h₁ (by decide) fun keyword t₂ _ h₂ => htrigger t₂ h₂
  | absent =>
    refine accepts_peek hts ?_
    rw [if_neg (by decide), if_neg (by decide)]
    exact accepts_pure hts

/-! ## Drive collections -/

/-- The end of an element, before which a slot may be left out. -/
theorem ending_cases {b : String} {ls rest : List Lexeme}
    (h : OptionalComment ls (⟨.rightParen, b⟩ :: rest)) :
    ∃ k s behind, ls = ⟨k, s⟩ :: behind ∧ k ≠ .nil ∧ k ≠ .leftParen ∧ k ≠ .int := by
  cases h with
  | absent => exact ⟨_, _, _, rfl, by decide, by decide, by decide⟩
  | present => exact ⟨_, _, _, rfl, by decide, by decide, by decide⟩

theorem intervalSlot_complete {b : String} {ts : List Token} {ls ms rest : List Lexeme}
    {interval : Option Int} (hts : lexemes ts = ls) (h : IntervalSlot ls interval ms)
    (hend : OptionalComment ms (⟨.rightParen, b⟩ :: rest)) :
    Accepts intervalSlot ts interval ms := by
  cases h with
  | nil => exact accepts_peek hts (accepts_skip hts fun t₁ h₁ => accepts_pure h₁)
  | frequency hfrequency =>
    refine accepts_peek hts ?_
    rw [if_neg (by decide), if_pos rfl]
    refine accepts_skip hts fun t₁ h₁ => ?_
    exact accepts_bind (frequency_complete h₁ hfrequency) fun t₂ h₂ => accepts_pure h₂
  | absent =>
    obtain ⟨k, s, behind, rfl, hnil, hopens, -⟩ := ending_cases hend
    refine accepts_peek hts ?_
    rw [if_neg hnil, if_neg hopens]
    exact accepts_pure hts

theorem isOpening_leftParen {kind : Kind} (h : kind = .leftParen) : isOpening kind = true :=
  decide_eq_true h

/-- A drive element of the grammar is read with its slots, each of which may be absent. -/
theorem driveElement_complete :
    ItemAccepts DriveElement isOpening fun _ => driveElement := by
  intro token ts ls x ms hts h
  cases h with
  | intro htrigger hinterval hend =>
    obtain ⟨hkind, -, h₁⟩ := lexemes_cons_inj hts
    refine ⟨isOpening_leftParen hkind, accepts_expect h₁ (by decide) ?_⟩
    rintro name t₂ rfl h₂
    refine accepts_bind (triggerSlot_complete h₂ htrigger) fun t₃ h₃ => ?_
    refine accepts_expect h₃ (by decide) ?_
    rintro target t₄ rfl h₄
    refine accepts_bind (intervalSlot_complete h₄ hinterval hend) fun t₅ h₅ => ?_
    refine accepts_bind (optionalComment_complete h₅ hend) fun t₆ h₆ => ?_
    exact accepts_expect h₆ (by decide) fun close t₇ _ h₇ => accepts_pure h₇

/-- A level is complete where its items are. -/
theorem level_complete {rule : Rule α} {expected closing : Expected} {item : Parser α}
    (hrule : TakesOne rule) (hitem : ItemAccepts rule isOpening fun _ => item) :
    ItemAccepts (Level rule) isOpening fun _ => (do
      let elements ← parenthesised expected item
      let _ ← expect [.rightParen] closing
      pure elements : Parser _) := by
  intro token ts ls xs ms hts h
  cases h with
  | intro hitems =>
    obtain ⟨hkind, -, h₁⟩ := lexemes_cons_inj hts
    refine ⟨isOpening_leftParen hkind, ?_⟩
    refine accepts_bind (many_complete_plus hrule hitem rfl h₁ hitems) fun t₂ h₂ => ?_
    exact accepts_expect h₂ (by decide) fun close t₃ _ h₃ => accepts_pure h₃

/-- A drive collection of the grammar is read with its goal and its levels. -/
theorem driveCollection_complete {token : Token} {ts : List Token} {ls ms : List Lexeme}
    {x : Plan.DriveCollection} (hts : lexemes (token :: ts) = ls)
    (h : DriveCollection ls x ms) :
    token.kind.isCollectionTag = true ∧ Accepts (driveCollection token.text) ts x ms := by
  cases h with
  | intro htag hgoal hlevels =>
    obtain ⟨rfl, rfl, h₁⟩ := lexemes_cons_inj hts
    refine ⟨?_, accepts_expect h₁ (by decide) ?_⟩
    · simp only [List.mem_cons, List.not_mem_nil, or_false] at htag
      rcases htag with htag | htag | htag | htag <;> rw [htag] <;> rfl
    rintro name t₂ rfl h₂
    refine accepts_bind (goalSlot_complete h₂ hgoal (by decide)) fun t₃ h₃ => ?_
    refine accepts_expect h₃ (by decide) fun word t₄ _ h₄ => ?_
    refine accepts_bind (many_complete_plus (Level.takesOne DriveElement.takesOne.takes)
      (level_complete DriveElement.takesOne driveElement_complete) rfl h₄ hlevels)
      fun t₅ h₅ => ?_
    refine accepts_expect h₅ (by decide) fun close t₆ _ h₆ => ?_
    exact accepts_expect h₆ (by decide) fun close t₇ _ h₇ => accepts_pure h₇

/-! ## Competences -/

theorem retriesSlot_complete {element b : String} {ts : List Token}
    {ls ms rest : List Lexeme} {retries : Int} (hts : lexemes ts = ls)
    (h : RetriesSlot ls retries ms)
    (hend : OptionalComment ms (⟨.rightParen, b⟩ :: rest)) :
    Accepts (retriesSlot element) ts retries ms := by
  cases h with
  | nil => exact accepts_peek hts (accepts_skip hts fun t₁ h₁ => accepts_pure h₁)
  | count hcount =>
    refine accepts_peek hts ?_
    rw [if_neg (by decide), if_pos rfl]
    refine accepts_expect hts (by decide) ?_
    rintro token t₁ rfl h₁
    rw [hcount]
    exact accepts_pure h₁
  | absent =>
    obtain ⟨k, s, behind, rfl, hnil, -, hint⟩ := ending_cases hend
    refine accepts_peek hts ?_
    rw [if_neg hnil, if_neg hint]
    exact accepts_pure hts

/-- An element of a competence in the grammar is read, with the retries that it has by default if
none are written. -/
theorem competenceElement_complete {competence : String} :
    ItemAccepts CompetenceElement isOpening fun _ => competenceElement competence := by
  intro token ts ls x ms hts h
  cases h with
  | intro htrigger hretries hend =>
    obtain ⟨hkind, -, h₁⟩ := lexemes_cons_inj hts
    refine ⟨isOpening_leftParen hkind, accepts_expect h₁ (by decide) ?_⟩
    rintro name t₂ rfl h₂
    refine accepts_bind (triggerSlot_complete h₂ htrigger) fun t₃ h₃ => ?_
    refine accepts_expect h₃ (by decide) ?_
    rintro target t₄ rfl h₄
    refine accepts_bind (retriesSlot_complete h₄ hretries hend) fun t₅ h₅ => ?_
    refine accepts_bind (optionalComment_complete h₅ hend) fun t₆ h₆ => ?_
    exact accepts_expect h₆ (by decide) fun close t₇ _ h₇ => accepts_pure h₇

/-- What stands in front of the elements of a competence is complete in front of the keyword
of elements. -/
theorem competenceHead_complete {name e : String} {ts : List Token} {ls ms : List Lexeme}
    {x : Option Int × Option (List Plan.Condition)} (hts : lexemes ts = ls)
    (h : CompetenceHead ls x (⟨.elements, e⟩ :: ms)) :
    Accepts (competenceHead name) ts x (⟨.elements, e⟩ :: ms) := by
  cases h with
  | nil hgoal =>
    refine accepts_peek hts (accepts_skip hts fun t₁ h₁ => ?_)
    exact accepts_bind (goalSlot_complete h₁ hgoal (by decide)) fun t₂ h₂ => accepts_pure h₂
  | time htime hgoal =>
    refine accepts_peek hts ?_
    rw [if_neg (by decide)]
    refine accepts_expect hts (by decide) fun opening t₁ _ h₁ => ?_
    obtain ⟨unit, u, _, rfl, hunit, hmillis⟩ := time_complete h₁ htime
    refine accepts_peek h₁ ?_
    rw [if_pos hunit]
    refine accepts_bind hmillis fun t₂ h₂ => ?_
    exact accepts_bind (goalSlot_complete h₂ hgoal (by decide)) fun t₃ h₃ => accepts_pure h₃
  | goal hguard =>
    refine accepts_peek hts ?_
    rw [if_neg (by decide)]
    refine accepts_expect hts (by decide) fun opening t₁ _ h₁ => ?_
    obtain ⟨_, _, rfl, hgoal⟩ := goalAndOpening_complete name h₁ hguard
    refine accepts_peek h₁ ?_
    rw [if_neg (by decide), if_pos rfl]
    exact accepts_bind hgoal fun t₂ h₂ => accepts_pure h₂
  | absent =>
    refine accepts_peek hts ?_
    rw [if_neg (by decide)]
    refine accepts_expect hts (by decide) fun opening t₁ _ h₁ => accepts_peek h₁ ?_
    rw [if_neg (by decide), if_neg (by decide)]
    exact accepts_pure h₁

/-- A competence of the grammar is read with its name, time, goal and levels. -/
theorem competence_complete {token : Token} {ts : List Token} {ls ms : List Lexeme}
    {x : Plan.Competence} (hts : lexemes (token :: ts) = ls) (h : Competence ls x ms) :
    token.kind = .competence ∧ Accepts competence ts x ms := by
  cases h with
  | intro hhead hlevels hend =>
    obtain ⟨hkind, -, h₁⟩ := lexemes_cons_inj hts
    refine ⟨hkind, accepts_expect h₁ (by decide) ?_⟩
    rintro name t₂ rfl h₂
    refine accepts_bind (competenceHead_complete h₂ hhead) fun t₃ h₃ => ?_
    refine accepts_expect h₃ (by decide) fun word t₄ _ h₄ => ?_
    refine accepts_bind (many_complete_plus (Level.takesOne CompetenceElement.takesOne.takes)
      (level_complete CompetenceElement.takesOne competenceElement_complete) rfl h₄ hlevels)
      fun t₅ h₅ => ?_
    refine accepts_expect h₅ (by decide) fun close t₆ _ h₆ => ?_
    refine accepts_bind (optionalComment_complete h₆ hend) fun t₇ h₇ => ?_
    exact accepts_expect h₇ (by decide) fun close t₈ _ h₈ => accepts_pure h₈

/-! ## Action patterns -/

theorem step_complete : ItemAccepts Step startsCondition step := by
  intro token ts ls x ms hts h
  cases h with
  | named =>
    obtain ⟨hkind, rfl, h₁⟩ := lexemes_cons_inj hts
    refine ⟨by rw [hkind]; rfl, ?_⟩
    rw [step, if_pos hkind]
    exact accepts_pure h₁
  | sense hsense =>
    obtain ⟨hkind, hsense⟩ := sense_complete hts hsense
    refine ⟨by rw [hkind]; rfl, ?_⟩
    rw [step, if_neg (by rw [hkind]; decide)]
    exact accepts_bind hsense fun t₁ h₁ => accepts_pure h₁

/-- No step starts with a unit of time, by which a time in front of the steps is known. -/
theorem Plus.step_start {ls rest : List Lexeme} {xs : List Plan.Step}
    (h : Plus Step ls xs rest) :
    ∃ k s behind, ls = ⟨k, s⟩ :: behind ∧ k ∉ timeUnits := by
  cases h with
  | intro head tail =>
    cases head with
    | named => exact ⟨_, _, _, rfl, by decide⟩
    | sense hsense => cases hsense <;> exact ⟨_, _, _, rfl, by decide⟩

theorem patternHead_complete {name : String} {ts : List Token} {ls ms rest : List Lexeme}
    {time : Option Int} {xs : List Plan.Step} (hts : lexemes ts = ls)
    (h : PatternHead ls time ms) (hsteps : Plus Step ms xs rest) :
    Accepts (patternHead name) ts time ms := by
  cases h with
  | nil =>
    refine accepts_peek hts (accepts_skip hts fun t₁ h₁ => ?_)
    exact accepts_expect h₁ (by decide) fun opening t₂ _ h₂ => accepts_pure h₂
  | time htime =>
    refine accepts_peek hts ?_
    rw [if_neg (by decide)]
    refine accepts_expect hts (by decide) fun opening t₁ _ h₁ => ?_
    obtain ⟨unit, u, _, rfl, hunit, hmillis⟩ := time_complete h₁ htime
    refine accepts_peek h₁ ?_
    rw [if_pos hunit]
    refine accepts_bind hmillis fun t₂ h₂ => ?_
    exact accepts_expect h₂ (by decide) fun opening t₃ _ h₃ => accepts_pure h₃
  | absent =>
    obtain ⟨k, s, _, rfl, hunit⟩ := Plus.step_start hsteps
    refine accepts_peek hts ?_
    rw [if_neg (by decide)]
    refine accepts_expect hts (by decide) fun opening t₁ _ h₁ => accepts_peek h₁ ?_
    rw [if_neg hunit]
    exact accepts_pure h₁

/-- An action pattern of the grammar is read with its name, time and steps. -/
theorem actionPattern_complete {token : Token} {ts : List Token} {ls ms : List Lexeme}
    {x : Plan.ActionPattern} (hts : lexemes (token :: ts) = ls) (h : ActionPattern ls x ms) :
    token.kind = .actionPattern ∧ Accepts actionPattern ts x ms := by
  cases h with
  | intro hhead hsteps hend =>
    obtain ⟨hkind, -, h₁⟩ := lexemes_cons_inj hts
    refine ⟨hkind, accepts_expect h₁ (by decide) ?_⟩
    rintro name t₂ rfl h₂
    refine accepts_bind (patternHead_complete h₂ hhead hsteps) fun t₃ h₃ => ?_
    refine accepts_bind (many_complete_plus Step.takesOne step_complete rfl h₃ hsteps)
      fun t₄ h₄ => ?_
    refine accepts_expect h₄ (by decide) fun close t₅ _ h₅ => ?_
    refine accepts_bind (optionalComment_complete h₅ hend) fun t₆ h₆ => ?_
    exact accepts_expect h₆ (by decide) fun close t₇ _ h₇ => accepts_pure h₇

/-! ## Documentation -/

theorem unquote_of_unquoted {text meaning : String} (h : Unquoted text meaning) :
    unquote text = meaning := by
  cases h with
  | quoted inner => exact unquote_quoted inner
  | plain hplain => exact unquote_plain hplain

theorem docstring_complete {token : Token} {ts : List Token} {ls ms : List Lexeme}
    {x : Plan.Docstring} (hts : lexemes (token :: ts) = ls) (h : Documentation ls x ms) :
    token.kind = .documentation ∧ Accepts docstring ts x ms := by
  cases h with
  | intro htitle hauthor hmemo =>
    obtain ⟨hkind, -, h₁⟩ := lexemes_cons_inj hts
    refine ⟨hkind, accepts_expect h₁ (by decide) ?_⟩
    rintro title t₂ rfl h₂
    refine accepts_expect h₂ (by decide) ?_
    rintro author t₃ rfl h₃
    refine accepts_expect h₃ (by decide) ?_
    rintro memo t₄ rfl h₄
    refine accepts_expect h₄ (by decide) fun close t₅ _ h₅ => ?_
    obtain rfl := unquote_of_unquoted htitle
    obtain rfl := unquote_of_unquoted hauthor
    obtain rfl := unquote_of_unquoted hmemo
    exact accepts_pure h₅

/-! ## Parts of a plan -/

theorem addPart_of_isCollectionTag {plan : Plan} {token : Token} (ts : List Token)
    (h : token.kind.isCollectionTag = true) :
    addPart plan (token :: ts) = addCollection plan token.text (token :: ts) := by
  rw [addPart_cons]
  split
  all_goals first
    | exact if_pos h
    | rename_i hkind
      rw [hkind] at h
      cases h

theorem addPart_complete {plan after : Plan} {part : Part} {ts : List Token} {l : Lexeme}
    {ls ms : List Lexeme} (hts : lexemes ts = ls) (h : Opened (l :: ls) part ms)
    (hadd : Part.addTo? plan part = some after) :
    Accepts (addPart plan) ts after ms := by
  cases ts with
  | nil =>
    subst hts
    cases h <;> rename_i hpart <;> cases hpart
  | cons token ts =>
    -- What opens the part decides which production the parser goes into.
    cases h with
    | docstring hpart =>
      obtain ⟨hkind, rest, hrest, hread⟩ := docstring_complete hts hpart
      rw [Part.addTo?, Option.ite_none_right_eq_some] at hadd
      obtain ⟨rfl, hafter⟩ := hadd
      obtain rfl := Option.some.inj hafter
      refine ⟨rest, hrest, ?_⟩
      simp only [addPart_cons, hkind, addDocstring, if_pos]
      exact skip_bind_ok.2 (bind_ok.2 ⟨_, _, hread, rfl⟩)
    | collection hpart =>
      obtain ⟨htag, rest, hrest, hread⟩ := driveCollection_complete hts hpart
      rw [Part.addTo?, Option.ite_none_right_eq_some] at hadd
      obtain ⟨hnone, hafter⟩ := hadd
      obtain rfl := Option.some.inj hafter
      refine ⟨rest, hrest, ?_⟩
      rw [addPart_of_isCollectionTag ts htag, addCollection, if_pos hnone]
      exact skip_bind_ok.2 (bind_ok.2 ⟨_, _, hread, rfl⟩)
    | competence hpart =>
      obtain ⟨hkind, rest, hrest, hread⟩ := competence_complete hts hpart
      obtain rfl := Option.some.inj hadd
      refine ⟨rest, hrest, ?_⟩
      simp only [addPart_cons, hkind, hread]
      rfl
    | pattern hpart =>
      obtain ⟨hkind, rest, hrest, hread⟩ := actionPattern_complete hts hpart
      obtain rfl := Option.some.inj hadd
      refine ⟨rest, hrest, ?_⟩
      simp only [addPart_cons, hkind, hread]
      rfl

/-- Parts of the grammar that may stand together are read one after the other and make the plan
that they add up to. -/
theorem addParts_complete {plan after : Plan} {parts : List Part} {ts : List Token}
    {b : String} {ls ms : List Lexeme} (hts : lexemes ts = ls)
    (h : Star Opened ls parts (⟨.rightParen, b⟩ :: ms))
    (hadd : Part.addAll? plan parts = some after) : Accepts (addParts plan) ts after ms := by
  generalize hend : ⟨.rightParen, b⟩ :: ms = rest at h
  induction h generalizing plan ts with
  | nil =>
    subst hend
    obtain ⟨token, others, rfl, hkind, -, hothers⟩ := lexemes_eq_cons hts
    obtain rfl := Option.some.inj hadd
    refine ⟨others, hothers, ?_⟩
    rw [addParts_cons, if_pos hkind]
  | cons head tail ih =>
    obtain ⟨first, behind, rfl, htaken⟩ := Opened.takesOne head
    obtain ⟨token, others, rfl, hkind, -, hothers⟩ := lexemes_eq_cons hts
    rw [Part.addAll?_cons] at hadd
    obtain ⟨mid, hpart, hall⟩ := Option.bind_eq_some_iff.1 hadd
    have hopens : token.kind = .leftParen := by
      cases head <;> exact hkind
    obtain ⟨t, ht, hread⟩ := addPart_complete hothers head hpart
    obtain ⟨last, hlast, hrest⟩ := ih ht hall hend
    -- The parser goes on only if it has read something, which a part always has.
    have hshort : t.length ≤ others.length := by
      rw [← length_lexemes, ← length_lexemes, ht, hothers]
      exact htaken.length_le
    refine ⟨last, hlast, ?_⟩
    rw [addParts_cons, if_neg (by rw [hopens]; decide), if_pos hopens]
    simp only [hread, dif_pos hshort, hrest]

/-- What is derived as a plan is read as one. -/
theorem plan_complete {ts : List Token} {p : Plan} (h : IsPlan (lexemes ts) p) :
    plan ts = .ok (p, []) := by
  generalize hls : lexemes ts = ls at h
  cases h with
  | intro hstar hcoherent =>
    obtain ⟨opening, others, rfl, hkind, -, hothers⟩ := lexemes_eq_cons hls
    have hadd := Part.addAll?_empty.2
      ⟨⟨hcoherent.docstring_first, hcoherent.one_collection⟩, rfl⟩
    obtain ⟨rest, hrest, hread⟩ := addParts_complete hothers hstar hadd
    obtain rfl : rest = [] := List.map_eq_nil_iff.1 hrest
    refine bind_ok.2 ⟨opening, others, expect_one_ok.2 ⟨rfl, hkind⟩, ?_⟩
    refine bind_ok.2 ⟨_, _, hread, ?_⟩
    simp only [finish, Supply.head?_nil]
    rw [if_neg]
    have hroot := hcoherent.one_root
    simpa [planOf] using hroot

end Parser

end SlipStack.Lap
