import Mathlib.Data.List.Basic
import SlipStack.Plan.Render
import SlipStack.Proofs.Lap.Recognition
import SlipStack.Proofs.Lap.WellFormed

/-!
# Plans written and read back

The canonical text of a well-formed plan derives the plan, so the parser reads the plan
back from it. Lexing and derivation go hand in hand: for each function that renders a part,
its text in front of any other text derives the part and leaves the lexemes of the other
text. Where the rendering ends in a word, the other text has to start with a separator
(`Breaks`).

Every plan that the parser returns is well-formed, whatever the text, so what was read once
survives being written and read again.
-/

namespace SlipStack.Lap

open Grammar Plan

/-! ## Layout -/

/-- A blank, the end of a line or a parenthesis ends a word. -/
@[simp]
theorem breaks_cons {c : Char} (hc : c ∈ [' ', '\n', '(', ')']) (rest : List Char) :
    Breaks (c :: rest) = true := by
  have hseparator : isSeparator c = true := by
    simp only [List.mem_cons, List.not_mem_nil, or_false] at hc
    obtain rfl | rfl | rfl | rfl := hc
    · rfl
    · rfl
    · rfl
    · rfl
  rw [Breaks, hseparator]

/-- A text that is a word. -/
theorem lexemesOf_text {text : String} {kind : Kind}
    (h : Word.kindOf? text.toList = some kind) {rest : List Char} (hrest : Breaks rest = true) :
    lexemesOf (text.toList ++ rest) = ⟨kind, text⟩ :: lexemesOf rest := by
  rw [lexemesOf_word h hrest, String.ofList_toList]

/-- A word that is written in the language itself. -/
theorem lexemesOf_keyword (text : String) (kind : Kind)
    (h : Word.kindOf? text.toList = some kind) {rest : List Char} (hrest : Breaks rest = true) :
    lexemesOf (text.toList ++ rest) = ⟨kind, text⟩ :: lexemesOf rest :=
  lexemesOf_text h hrest

theorem lexemesOf_int (i : Int) {rest : List Char} (hrest : Breaks rest = true) :
    lexemesOf ((toString i).toList ++ rest) = ⟨.int, toString i⟩ :: lexemesOf rest :=
  lexemesOf_text (Word.kindOf?_toString i) hrest

/-! ## Lists of items -/

section Items

variable {α β : Type} {rule : Rule α} {render : α → String}

/-- In front of a text that may follow it, the rendering of `x` derives `x`. -/
def Derives (rule : Rule α) (render : α → String) (follows : List Char → Prop) (x : α) : Prop :=
  ∀ rest, follows rest → rule (lexemesOf ((render x).toList ++ rest)) x (lexemesOf rest)

/-- Items with white space between each two, or with nothing where nothing is needed. -/
theorem star_separated (separator : String) (follows : List Char → Prop)
    (hblank : ∀ cs, lexemesOf (separator.toList ++ cs) = lexemesOf cs)
    (hseparator : ∀ cs, follows (separator.toList ++ cs)) {xs : List α}
    (hxs : ∀ x ∈ xs, Derives rule render follows x) (rest : List Char) (hrest : follows rest) :
    Star rule (lexemesOf ((separated separator (xs.map render)).toList ++ rest)) xs
      (lexemesOf rest) := by
  induction xs with
  | nil =>
    simp only [List.map_nil, separated, String.toList_empty, List.nil_append]
    exact .nil _
  | cons x xs ih =>
    obtain ⟨hx, hxs⟩ := List.forall_mem_cons.1 hxs
    cases xs with
    | nil => exact .cons (hx rest hrest) (.nil _)
    | cons y ys =>
      have hbehind := ih hxs
      rw [← hblank] at hbehind
      have htext : (separated separator ((x :: y :: ys).map render)).toList ++ rest =
          (render x).toList ++ (separator.toList ++
            ((separated separator ((y :: ys).map render)).toList ++ rest)) := by
        simp [separated]
      rw [htext]
      exact .cons (hx _ (hseparator _)) hbehind

theorem Star.plus {ls rest : List Lexeme} {xs : List α} (h : Star rule ls xs rest)
    (hxs : xs ≠ []) : Plus rule ls xs rest := by
  cases h with
  | nil => exact absurd rfl hxs
  | cons head tail => exact .intro head tail

theorem Star.append {ls mid rest : List Lexeme} {xs ys : List α} (hxs : Star rule ls xs mid)
    (hys : Star rule mid ys rest) : Star rule ls (xs ++ ys) rest := by
  induction hxs with
  | nil => exact hys
  | cons head _ ih => exact .cons head (ih hys)

theorem Star.map {rule' : Rule β} {f : α → β}
    (hrule : ∀ ls x rest, rule ls x rest → rule' ls (f x) rest) {ls rest : List Lexeme}
    {xs : List α} (h : Star rule ls xs rest) : Star rule' ls (xs.map f) rest := by
  induction h with
  | nil => exact .nil _
  | cons head _ ih => exact .cons (hrule _ _ _ head) ih

/-- A rendering that ends in a parenthesis may be followed by anything. -/
def Anything : List Char → Prop := fun _ => True

/-- A rendering that ends in a word is followed by a separator. -/
def Separated : List Char → Prop := fun rest => Breaks rest = true

/-- A priority level. -/
theorem renderLevel_derives {level : List α} (hne : level ≠ [])
    (hlevel : ∀ x ∈ level, Derives rule render Anything x) :
    Derives (Level rule) (fun level => renderLevel (level.map render)) Anything level := by
  intro rest _
  have htext : (renderLevel (level.map render)).toList ++ rest =
      ' ' :: ' ' :: ' ' :: ' ' :: '(' :: ((separated "\n     " (level.map render)).toList ++
        ')' :: '\n' :: rest) := by
    simp [renderLevel]
  have hstar := star_separated "\n     " Anything (fun cs => by simp) (fun _ => trivial) hlevel
    (')' :: '\n' :: rest) trivial
  rw [lexemesOf_rightParen, lexemesOf_newline] at hstar
  simp only [htext, lexemesOf_space, lexemesOf_leftParen]
  exact .intro (Star.plus hstar hne)

/-- Priority levels. -/
theorem renderLevels_derives {P : α → Prop} {levels : List (List α)}
    (h : LevelsWellFormed P levels) (hitem : ∀ x, P x → Derives rule render Anything x)
    (rest : List Char) :
    Plus (Level rule) (lexemesOf ((renderLevels (levels.map (·.map render))).toList ++ rest))
      levels (lexemesOf rest) := by
  obtain ⟨hne, hlevels⟩ := h
  refine Star.plus ?_ hne
  clear hne
  induction levels with
  | nil => exact .nil _
  | cons level levels ih =>
    obtain ⟨⟨hne, hlevel⟩, hlevels⟩ := List.forall_mem_cons.1 hlevels
    simp only [List.map_cons, renderLevels, String.toList_append, List.append_assoc]
    exact .cons (renderLevel_derives hne (fun x hx => hitem x (hlevel x hx)) _ trivial)
      (ih hlevels)

end Items

/-! ## Conditions -/

/-- A sense in parentheses. -/
theorem renderCheck_derives {name : String} {value operator : Option String}
    (h : CheckWellFormed name value operator) (rest : List Char) :
    Sense (lexemesOf ((renderCheck name value operator).toList ++ rest)) (name, value, operator)
      (lexemesOf rest) := by
  -- A predicate is written beside a value only, so there are three forms.
  cases value with
  | none =>
    cases operator with
    | some operator => exact absurd (h.isOperator _ rfl).1 (by simp)
    | none =>
      have htext : (renderCheck name none none).toList ++ rest =
          '(' :: (name.toList ++ ')' :: rest) := by
        simp [renderCheck]
      rw [htext, lexemesOf_leftParen, lexemesOf_text h.isName rfl, lexemesOf_rightParen]
      exact .bare
  | some value =>
    obtain ⟨kind, hkind, hvalue⟩ := h.isValue _ rfl
    cases operator with
    | none =>
      have htext : (renderCheck name (some value) none).toList ++ rest =
          '(' :: (name.toList ++ ' ' :: (value.toList ++ ')' :: rest)) := by
        simp [renderCheck]
      rw [htext, lexemesOf_leftParen, lexemesOf_text h.isName rfl, lexemesOf_space,
        lexemesOf_text hvalue rfl, lexemesOf_rightParen]
      exact .value hkind
    | some operator =>
      obtain ⟨-, _, hmem, hoperator⟩ := h.isOperator _ rfl
      obtain rfl := List.mem_singleton.1 hmem
      have htext : (renderCheck name (some value) (some operator)).toList ++ rest =
          '(' :: (name.toList ++ ' ' :: (value.toList ++ ' ' ::
            (operator.toList ++ ')' :: rest))) := by
        simp [renderCheck]
      rw [htext, lexemesOf_leftParen, lexemesOf_text h.isName rfl, lexemesOf_space,
        lexemesOf_text hvalue rfl, lexemesOf_space, lexemesOf_text hoperator rfl,
        lexemesOf_rightParen]
      exact .operator hkind

/-- The canonical text of a condition of the right form derives, in the grammar, that condition.
-/
theorem condition_derives {condition : Plan.Condition} (h : condition.WellFormed) :
    Derives Condition Condition.render Separated condition := by
  intro rest hrest
  cases condition with
  | bare name =>
    rw [Condition.render, lexemesOf_text h hrest]
    exact .bare
  | check name value operator => exact .check (renderCheck_derives h rest)

/-- The conditions of a goal or trigger behind its keyword. -/
theorem guard_derives (keyword : String) (kind : Kind)
    (hkeyword : Word.kindOf? keyword.toList = some kind) {conditions : List Plan.Condition}
    (hne : conditions ≠ []) (h : ∀ condition ∈ conditions, condition.WellFormed)
    (rest : List Char) :
    Guard kind (lexemesOf (keyword.toList ++ ' ' :: '(' ::
        ((separated " " (conditions.map Condition.render)).toList ++ ')' :: ')' :: rest)))
      (some conditions) (lexemesOf rest) := by
  have hstar := star_separated " " Separated (fun cs => by simp) (fun cs => by simp [Separated])
    (fun condition hcondition => condition_derives (h condition hcondition))
    (')' :: ')' :: rest) rfl
  rw [lexemesOf_rightParen, lexemesOf_rightParen] at hstar
  rw [lexemesOf_text hkeyword rfl, lexemesOf_space, lexemesOf_leftParen]
  cases conditions with
  | nil => exact absurd rfl hne
  | cons condition conditions => exact .present (.listed hstar)

/-- The text of a goal or trigger that has conditions. -/
theorem toList_renderConditions {keyword : String} {conditions : List Plan.Condition}
    (hne : conditions ≠ []) (rest : List Char) :
    (renderConditions keyword (some conditions)).toList ++ rest =
      '(' :: (keyword.toList ++ ' ' :: '(' ::
        ((separated " " (conditions.map Condition.render)).toList ++ ')' :: ')' :: rest)) := by
  cases conditions with
  | nil => exact absurd rfl hne
  | cons condition conditions => simp [renderConditions]

theorem lexemesOf_nilWord {rest : List Char} (hrest : Breaks rest = true) :
    lexemesOf ("nil".toList ++ rest) = ⟨.nil, "nil"⟩ :: lexemesOf rest :=
  lexemesOf_keyword "nil" .nil (by decide) hrest

/-- A goal in front of the parenthesis that opens the elements. -/
theorem goalSlot_derives {goal : Option (List Plan.Condition)} (h : GuardWellFormed goal)
    (rest : List Char) :
    GoalSlot (lexemesOf ((renderConditions "goal" goal).toList ++ ' ' :: '(' :: rest)) goal
      (lexemesOf rest) := by
  cases goal with
  | none =>
    rw [renderConditions, lexemesOf_nilWord rfl, lexemesOf_space, lexemesOf_leftParen]
    exact .nil
  | some conditions =>
    obtain ⟨hne, hconditions⟩ := h _ rfl
    rw [toList_renderConditions hne, lexemesOf_leftParen]
    have hguard := guard_derives "goal" .goal (by decide) hne hconditions
      (' ' :: '(' :: rest)
    rw [lexemesOf_space, lexemesOf_leftParen] at hguard
    exact .goal hguard

theorem triggerSlot_derives {trigger : Option (List Plan.Condition)}
    (h : GuardWellFormed trigger) (rest : List Char) (hrest : Breaks rest = true) :
    TriggerSlot (lexemesOf ((renderConditions "trigger" trigger).toList ++ rest)) trigger
      (lexemesOf rest) := by
  cases trigger with
  | none =>
    rw [renderConditions, lexemesOf_nilWord hrest]
    exact .nil
  | some conditions =>
    obtain ⟨hne, hconditions⟩ := h _ rfl
    rw [toList_renderConditions hne, lexemesOf_leftParen]
    exact .trigger (guard_derives "trigger" .trigger (by decide) hne hconditions rest)

/-! ## Durations -/

/-- A duration behind its opening parenthesis. -/
theorem time_derives {millis : Int} (h : Numeral.Survives millis) (rest : List Char) :
    Time (lexemesOf ("none".toList ++ ' ' :: ((toString millis).toList ++ ')' :: rest))) millis
      (lexemesOf rest) := by
  obtain ⟨value, hvalue, rfl⟩ := Option.map_eq_some_iff.1 h
  rw [lexemesOf_keyword "none" .noUnit (by decide) rfl, lexemesOf_space,
    lexemesOf_int _ rfl, lexemesOf_rightParen]
  exact .intro (.plain value) (.intro (by decide) hvalue)

theorem toList_renderMillis (millis : Int) (rest : List Char) :
    (renderMillis (some millis)).toList ++ rest =
      '(' :: ("none".toList ++ ' ' :: ((toString millis).toList ++ ')' :: rest)) := by
  simp [renderMillis]

theorem intervalSlot_derives {interval : Option Int} (h : MillisWellFormed interval)
    (rest : List Char) (hrest : Breaks rest = true) :
    IntervalSlot (lexemesOf ((renderMillis interval).toList ++ rest)) interval
      (lexemesOf rest) := by
  cases interval with
  | none =>
    rw [renderMillis, lexemesOf_nilWord hrest]
    exact .nil
  | some millis =>
    rw [toList_renderMillis, lexemesOf_leftParen]
    exact .frequency (.time (time_derives (h _ rfl) rest))

/-- A time in front of a goal and the parenthesis that opens the elements. -/
theorem competenceHead_derives {time : Option Int} {goal : Option (List Plan.Condition)}
    (htime : MillisWellFormed time) (hgoal : GuardWellFormed goal) (rest : List Char) :
    CompetenceHead (lexemesOf ((renderMillis time).toList ++ ' ' ::
        ((renderConditions "goal" goal).toList ++ ' ' :: '(' :: rest))) (time, goal)
      (lexemesOf rest) := by
  have hslot := goalSlot_derives hgoal rest
  cases time with
  | none =>
    rw [renderMillis, lexemesOf_nilWord rfl, lexemesOf_space]
    exact .nil hslot
  | some millis =>
    rw [toList_renderMillis, lexemesOf_leftParen]
    refine .time (time_derives (htime _ rfl) _) ?_
    rwa [lexemesOf_space]

/-- A time in front of the parenthesis that opens the steps. -/
theorem patternHead_derives {time : Option Int} (h : MillisWellFormed time)
    (rest : List Char) :
    PatternHead (lexemesOf ((renderMillis time).toList ++ ' ' :: '(' :: rest)) time
      (lexemesOf rest) := by
  cases time with
  | none =>
    rw [renderMillis, lexemesOf_nilWord rfl, lexemesOf_space, lexemesOf_leftParen]
    exact .nil
  | some millis =>
    have htime := time_derives (h _ rfl) (' ' :: '(' :: rest)
    rw [lexemesOf_space, lexemesOf_leftParen] at htime
    rw [toList_renderMillis, lexemesOf_leftParen]
    exact .time htime

/-! ## Drive collections -/

/-- The canonical text of a drive element of the right form derives that element, its interval
being written in milliseconds. -/
theorem driveElement_derives {element : Plan.DriveElement} (h : element.WellFormed) :
    Derives DriveElement DriveElement.render Anything element := by
  intro rest _
  have htext : element.render.toList ++ rest =
      '(' :: (element.name.toList ++ ' ' ::
        ((renderConditions "trigger" element.trigger).toList ++ ' ' ::
          (element.target.toList ++ ' ' ::
            ((renderMillis element.interval).toList ++ ')' :: rest)))) := by
    simp [DriveElement.render]
  have htrigger := triggerSlot_derives h.trigger (' ' :: (element.target.toList ++
    ' ' :: ((renderMillis element.interval).toList ++ ')' :: rest))) rfl
  have hinterval := intervalSlot_derives h.interval (')' :: rest) rfl
  rw [lexemesOf_space, lexemesOf_text h.target rfl, lexemesOf_space] at htrigger
  rw [lexemesOf_rightParen] at hinterval
  rw [htext, lexemesOf_leftParen, lexemesOf_text h.name rfl, lexemesOf_space]
  exact .intro htrigger hinterval (.absent _)

/-- A drive collection behind its opening parenthesis. -/
theorem driveCollection_derives {collection : Plan.DriveCollection}
    (h : collection.WellFormed) :
    Derives (fun ls x rest => Opened ls (.collection x) rest) DriveCollection.render Anything
      collection := by
  intro rest _
  obtain ⟨kind, hkind, htag⟩ := Word.kindOf?_of_tag h.tag
  have htext : collection.render.toList ++ rest =
      ' ' :: ' ' :: '(' :: (collection.tag.toList ++ ' ' :: (collection.name.toList ++ ' ' ::
        ((renderConditions "goal" collection.goal).toList ++ ' ' :: '(' ::
          ("drives".toList ++ '\n' ::
            ((renderLevels (collection.levels.map (·.map DriveElement.render))).toList ++
              ' ' :: ' ' :: ')' :: ')' :: '\n' :: rest))))) := by
    simp [DriveCollection.render]
  have hgoal := goalSlot_derives h.goal ("drives".toList ++ '\n' ::
    ((renderLevels (collection.levels.map (·.map DriveElement.render))).toList ++
      ' ' :: ' ' :: ')' :: ')' :: '\n' :: rest))
  have hlevels := renderLevels_derives h.levels (fun _ => driveElement_derives)
    (' ' :: ' ' :: ')' :: ')' :: '\n' :: rest)
  rw [lexemesOf_keyword "drives" .drives (by decide) rfl, lexemesOf_newline] at hgoal
  simp only [lexemesOf_space, lexemesOf_rightParen, lexemesOf_newline] at hlevels
  simp only [htext, lexemesOf_space, lexemesOf_leftParen]
  rw [lexemesOf_text htag rfl, lexemesOf_space, lexemesOf_text h.name rfl, lexemesOf_space]
  exact .collection (.intro hkind hgoal hlevels)

/-! ## Competences -/

/-- The canonical text of an element of a competence derives that element, whatever follows it. -/
theorem competenceElement_derives {element : Plan.CompetenceElement} (h : element.WellFormed) :
    Derives CompetenceElement CompetenceElement.render Anything element := by
  intro rest _
  have htext : element.render.toList ++ rest =
      '(' :: (element.name.toList ++ ' ' ::
        ((renderConditions "trigger" element.trigger).toList ++ ' ' ::
          (element.target.toList ++ ' ' ::
            ((toString element.maxRetries).toList ++ ')' :: rest)))) := by
    simp [CompetenceElement.render]
  have htrigger := triggerSlot_derives h.trigger (' ' :: (element.target.toList ++
    ' ' :: ((toString element.maxRetries).toList ++ ')' :: rest))) rfl
  rw [lexemesOf_space, lexemesOf_text h.target rfl, lexemesOf_space, lexemesOf_int _ rfl,
    lexemesOf_rightParen] at htrigger
  rw [htext, lexemesOf_leftParen, lexemesOf_text h.name rfl, lexemesOf_space]
  exact .intro htrigger (.count (Numeral.int64?_toString h.maxRetries)) (.absent _)

/-- A competence behind its opening parenthesis. -/
theorem competence_derives {competence : Plan.Competence} (h : competence.WellFormed) :
    Derives (fun ls x rest => Opened ls (.competence x) rest) Competence.render Anything
      competence := by
  intro rest _
  have htext : competence.render.toList ++ rest =
      ' ' :: ' ' :: '(' :: ("C".toList ++ ' ' :: (competence.name.toList ++ ' ' ::
        ((renderMillis competence.time).toList ++ ' ' ::
          ((renderConditions "goal" competence.goal).toList ++ ' ' :: '(' ::
            ("elements".toList ++ '\n' ::
              ((renderLevels
                  (competence.levels.map (·.map CompetenceElement.render))).toList ++
                ' ' :: ' ' :: ')' :: ')' :: '\n' :: rest)))))) := by
    simp [Competence.render]
  have hhead := competenceHead_derives h.time h.goal ("elements".toList ++ '\n' ::
    ((renderLevels (competence.levels.map (·.map CompetenceElement.render))).toList ++
      ' ' :: ' ' :: ')' :: ')' :: '\n' :: rest))
  have hlevels := renderLevels_derives h.levels (fun _ => competenceElement_derives)
    (' ' :: ' ' :: ')' :: ')' :: '\n' :: rest)
  rw [lexemesOf_keyword "elements" .elements (by decide) rfl, lexemesOf_newline] at hhead
  simp only [lexemesOf_space, lexemesOf_rightParen, lexemesOf_newline] at hlevels
  simp only [htext, lexemesOf_space, lexemesOf_leftParen]
  rw [lexemesOf_keyword "C" .competence (by decide) rfl, lexemesOf_space,
    lexemesOf_text h.name rfl, lexemesOf_space]
  exact .competence (.intro hhead hlevels (.absent _))

/-! ## Action patterns -/

/-- The canonical text of a step derives that step, if it is separated from what follows. -/
theorem step_derives {step : Plan.Step} (h : step.WellFormed) :
    Derives Step Step.render Separated step := by
  intro rest hrest
  cases step with
  | named name =>
    rw [Step.render, lexemesOf_text h hrest]
    exact .named
  | sense name value operator => exact .sense (renderCheck_derives h rest)

/-- An action pattern behind its opening parenthesis. -/
theorem actionPattern_derives {pattern : Plan.ActionPattern} (h : pattern.WellFormed) :
    Derives (fun ls x rest => Opened ls (.pattern x) rest) ActionPattern.render Anything
      pattern := by
  intro rest _
  have htext : pattern.render.toList ++ rest =
      ' ' :: ' ' :: '(' :: ("AP".toList ++ ' ' :: (pattern.name.toList ++ ' ' ::
        ((renderMillis pattern.time).toList ++ ' ' :: '(' ::
          ((separated " " (pattern.steps.map Step.render)).toList ++
            ')' :: ')' :: '\n' :: rest)))) := by
    simp [ActionPattern.render]
  have hhead := patternHead_derives h.time
    ((separated " " (pattern.steps.map Step.render)).toList ++ ')' :: ')' :: '\n' :: rest)
  have hsteps := star_separated " " Separated (fun cs => by simp)
    (fun cs => by simp [Separated]) (fun step hstep => step_derives (h.steps step hstep))
    (')' :: ')' :: '\n' :: rest) rfl
  simp only [lexemesOf_rightParen, lexemesOf_newline] at hsteps
  simp only [htext, lexemesOf_space, lexemesOf_leftParen]
  rw [lexemesOf_keyword "AP" .actionPattern (by decide) rfl, lexemesOf_space,
    lexemesOf_text h.name rfl, lexemesOf_space]
  exact .pattern (.intro hhead (Star.plus hsteps h.steps_ne_nil) (.absent _))

/-! ## Documentation -/

theorem lexemesOf_quotedText {text : String} (h : ∀ c ∈ text.toList, isTextChar c = true)
    (rest : List Char) :
    ∃ quoted, Unquoted quoted text ∧
      lexemesOf ('"' :: (text.toList ++ '"' :: rest)) = ⟨.comment, quoted⟩ :: lexemesOf rest := by
  refine ⟨_, ?_, lexemesOf_quoted h rest⟩
  have := Unquoted.quoted text.toList
  rwa [String.ofList_toList] at this

/-- Documentation behind its opening parenthesis. -/
theorem docstring_derives {doc : Plan.Docstring} (h : doc.WellFormed) :
    Derives (fun ls x rest => Opened ls (.docstring x) rest) Docstring.render Anything doc := by
  intro rest _
  have htext : doc.render.toList ++ rest =
      ' ' :: ' ' :: '(' :: ("documentation".toList ++ ' ' :: '"' :: (doc.title.toList ++
        '"' :: ' ' :: '"' :: (doc.author.toList ++ '"' :: ' ' :: '"' :: (doc.memo.toList ++
          '"' :: ')' :: '\n' :: rest)))) := by
    unfold Docstring.render
    simp
  obtain ⟨title, htitle, hlexTitle⟩ := lexemesOf_quotedText (h doc.title (by simp))
    (' ' :: '"' :: (doc.author.toList ++ '"' :: ' ' :: '"' :: (doc.memo.toList ++
      '"' :: ')' :: '\n' :: rest)))
  obtain ⟨author, hauthor, hlexAuthor⟩ := lexemesOf_quotedText (h doc.author (by simp))
    (' ' :: '"' :: (doc.memo.toList ++ '"' :: ')' :: '\n' :: rest))
  obtain ⟨memo, hmemo, hlexMemo⟩ := lexemesOf_quotedText (h doc.memo (by simp))
    (')' :: '\n' :: rest)
  simp only [htext, lexemesOf_space, lexemesOf_leftParen]
  rw [lexemesOf_keyword "documentation" .documentation (by decide) rfl, lexemesOf_space,
    hlexTitle, lexemesOf_space, hlexAuthor, lexemesOf_space, hlexMemo, lexemesOf_rightParen,
    lexemesOf_newline]
  exact .docstring (.intro htitle hauthor hmemo)

/-! ## Plans -/

/-- The parts of a plan, in the order in which they are rendered. -/
def partsOf (p : Plan) : List Part :=
  p.docstring.toList.map .docstring ++ (p.collection.toList.map .collection ++
    (p.competences.map .competence ++ p.patterns.map .pattern))

theorem filterMap_partsOf (p : Plan) :
    (partsOf p).filterMap Part.docstring? = p.docstring.toList ∧
      (partsOf p).filterMap Part.collection? = p.collection.toList ∧
      (partsOf p).filterMap Part.competence? = p.competences ∧
      (partsOf p).filterMap Part.pattern? = p.patterns := by
  refine ⟨?_, ?_, ?_, ?_⟩ <;> simp [partsOf, Function.comp_def]

/-- A plan is put together again from the parts that it is written in. -/
theorem planOf_partsOf (p : Plan) : planOf (partsOf p) = p := by
  obtain ⟨hdocstring, hcollection, hcompetences, hpatterns⟩ := filterMap_partsOf p
  rw [planOf, hdocstring, hcollection, hcompetences, hpatterns, Option.head?_toList,
    Option.head?_toList]

/-- Documentation stands in front of everything else. -/
theorem docstring?_of_mem_tail {p : Plan} {part : Part} (h : part ∈ (partsOf p).tail) :
    part.docstring? = none := by
  have hothers : ∀ part ∈ p.collection.toList.map Part.collection ++
      (p.competences.map Part.competence ++ p.patterns.map Part.pattern),
      part.docstring? = none := by
    simp only [List.mem_append, List.mem_map]
    rintro part (⟨x, -, rfl⟩ | ⟨x, -, rfl⟩ | ⟨x, -, rfl⟩) <;> rfl
  unfold partsOf at h
  cases hdocstring : p.docstring with
  | none =>
    rw [hdocstring] at h
    exact hothers part (List.mem_of_mem_tail h)
  | some doc =>
    rw [hdocstring] at h
    exact hothers part h

/-- The parts of a plan of the right form may stand together, in the order in which they are
written. -/
theorem coherent_partsOf {p : Plan} (h : p.WellFormed) : Coherent (partsOf p) := by
  obtain ⟨-, hcollection, hcompetences, hpatterns⟩ := filterMap_partsOf p
  refine ⟨fun part => docstring?_of_mem_tail, ?_, ?_⟩
  · rw [hcollection]
    cases p.collection <;> simp
  · intro hnone
    rw [hcollection] at hnone
    rw [hcompetences, hpatterns]
    exact h.one_root (Option.toList_eq_nil_iff.1 hnone)

/-- Parts of one kind, one after the other. -/
theorem parts_derive {α : Type} {render : α → String} (part : α → Part) {xs : List α}
    (h : ∀ x ∈ xs, Derives (fun ls x rest => Opened ls (part x) rest) render Anything x)
    (rest : List Char) :
    Star Opened (lexemesOf ((separated "" (xs.map render)).toList ++ rest)) (xs.map part)
      (lexemesOf rest) :=
  Star.map (f := part) (fun _ _ _ hx => hx)
    (star_separated "" Anything (fun _ => rfl) (fun _ => trivial) h rest trivial)

/-- The canonical text of a well-formed plan derives the plan. -/
theorem render_isPlan {p : Plan} (h : p.WellFormed) : IsPlan (lexemesOf p.render.toList) p := by
  have htext : p.render.toList = '(' :: '\n' ::
      ((separated "" (p.docstring.toList.map Docstring.render)).toList ++
        ((separated "" (p.collection.toList.map DriveCollection.render)).toList ++
          ((separated "" (p.competences.map Competence.render)).toList ++
            ((separated "" (p.patterns.map ActionPattern.render)).toList ++ [')', '\n'])))) := by
    simp [render]
  have hpatterns := parts_derive .pattern
    (fun x hx => actionPattern_derives (h.patterns x hx)) [')', '\n']
  have hcompetences := parts_derive .competence
    (fun x hx => competence_derives (h.competences x hx))
  have hcollection := parts_derive .collection
    (fun x hx => driveCollection_derives (h.collection x (Option.mem_toList.1 hx)))
  have hdocstring := parts_derive .docstring
    (fun x hx => docstring_derives (h.docstring x (Option.mem_toList.1 hx)))
  have hparts := Star.append (hdocstring _)
    (Star.append (hcollection _) (Star.append (hcompetences _) hpatterns))
  rw [lexemesOf_rightParen, lexemesOf_newline, lexemesOf_nil] at hparts
  rw [htext, lexemesOf_leftParen, lexemesOf_newline]
  change Star Opened _ (partsOf p) _ at hparts
  have hplan := IsPlan.intro (a := "(") hparts (coherent_partsOf h)
  rwa [planOf_partsOf] at hplan

/-- A well-formed plan is read back from its canonical text. -/
theorem parse_render {p : Plan} (h : p.WellFormed) : parse p.render = .ok p := by
  rw [parse_eq_ok, lexemes_tokenize]
  exact render_isPlan h

/-- What the parser returns is well-formed. -/
theorem wellFormed_of_parse {source : String} {p : Plan} (h : parse source = .ok p) :
    p.WellFormed := by
  rw [parse_eq_ok, lexemes_tokenize] at h
  exact h.wellFormed fun l hl => genuine_of_mem_lexemesOf hl

/-- Reading and writing again. What was read from any text is read back from its canonical
text, and so is every well-formed plan; and nothing that is read is not well-formed. -/
theorem canonical_round_trip :
    (∀ (source : String) (p : Plan), parse source = .ok p → parse p.render = .ok p) ∧
      (∀ p : Plan, p.WellFormed → parse p.render = .ok p) ∧
      ∀ (source : String) (p : Plan), parse source = .ok p → p.WellFormed :=
  ⟨fun _ _ h => parse_render (wellFormed_of_parse h), fun _ h => parse_render h,
    fun _ _ h => wellFormed_of_parse h⟩

/-- A plan in a layout that is not the canonical one. -/
def foragerText : String :=
  "((RDC forager (drives ((hunt (trigger ((hungry))) eat (hz 8)))))\n" ++
    "; one bite is enough\n(AP eat (bite (full 1 ==))))"

def foragerPlan : Plan where
  docstring := none
  collection := some
    { tag := "RDC", name := "forager", goal := none
      levels := [[⟨"hunt", some [.check "hungry" none none], "eat", some 125⟩]] }
  competences := []
  patterns := [⟨"eat", none, [.named "bite", .sense "full" (some "1") (some "==")]⟩]

theorem canonical_round_trip_forager :
    parse foragerText = .ok foragerPlan ∧ foragerPlan.WellFormed ∧
      parse foragerPlan.render = .ok foragerPlan := by
  have hread : (parse foragerText).toOption = some foragerPlan := by decide +kernel
  have hparse : parse foragerText = .ok foragerPlan := by
    cases hresult : parse foragerText with
    | error e => simp [hresult, Except.toOption] at hread
    | ok p => simpa [hresult, Except.toOption] using hread
  have hwellFormed : foragerPlan.WellFormed := canonical_round_trip.2.2 _ _ hparse
  exact ⟨hparse, hwellFormed, canonical_round_trip.2.1 _ hwellFormed⟩

end SlipStack.Lap
