import SlipStack.Lap.Token
import SlipStack.Number.Numeral
import SlipStack.Plan.Basic

/-!
# The grammar of plan text

What a plan text may be, said without a parser. The grammar is one of *lexemes*, tokens
without their lines. A rule with values of type `α` is a relation between the lexemes that
are left, a value, and the lexemes left behind what the rule derives: `rule ls x rest` says
that `ls` is a sentence of the rule with the meaning `x`, followed by `rest`.

Each rule has one constructor for each of its alternatives. Rules know no lookahead: a slot
that may be left out may always be left out, and two alternatives may start alike. That
every text still has one meaning at most follows from the parser
(`SlipStack.Proofs.Lap.Recognition`).

| Rule | Sentences |
|---|---|
| `IsPlan` | `'(' ('(' part)* ')'`, with the conditions named there |
| `Documentation` | `DOCUMENTATION COMMENT COMMENT COMMENT ')'` |
| `DriveCollection` | `tag NAME goalSlot DRIVES driveLevel+ ')' ')'` |
| `Competence` | `C NAME competenceHead ELEMENTS competenceLevel+ ')' [COMMENT] ')'` |
| `ActionPattern` | `AP NAME patternHead step+ ')' [COMMENT] ')'` |
| `DriveElement` | `'(' NAME triggerSlot NAME [NIL \| '(' frequency] [COMMENT] ')'` |
| `CompetenceElement` | `'(' NAME triggerSlot NAME [NIL \| NUMINT] [COMMENT] ')'` |
-/

namespace SlipStack.Lap

/-- A token without its line. -/
structure Lexeme where
  kind : Kind
  text : String
  deriving DecidableEq, Repr

def Token.lexeme (token : Token) : Lexeme :=
  ⟨token.kind, token.text⟩

/-- Tokens without their lines. -/
def lexemes (tokens : List Token) : List Lexeme :=
  tokens.map Token.lexeme

namespace Grammar

/-- A rule: the lexemes that are left, a meaning, and the lexemes left behind it. -/
abbrev Rule (α : Type) := List Lexeme → α → List Lexeme → Prop

variable {α : Type}

/-! ## Repetition -/

/-- Any number of items. -/
inductive Star (item : Rule α) : Rule (List α)
  | nil (rest : List Lexeme) : Star item rest [] rest
  | cons {ls mid rest : List Lexeme} {x : α} {xs : List α} :
      item ls x mid → Star item mid xs rest → Star item ls (x :: xs) rest

/-- One or more items. -/
inductive Plus (item : Rule α) : Rule (List α)
  | intro {ls mid rest : List Lexeme} {x : α} {xs : List α} :
      item ls x mid → Star item mid xs rest → Plus item ls (x :: xs) rest

theorem Plus.star {item : Rule α} {ls rest : List Lexeme} {xs : List α}
    (h : Plus item ls xs rest) : Star item ls xs rest := by
  cases h with
  | intro head tail => exact .cons head tail

/-- One or more items in parentheses: a priority level. -/
inductive Level (item : Rule α) : Rule (List α)
  | intro {a b : String} {ls rest : List Lexeme} {xs : List α} :
      Plus item ls xs (⟨.rightParen, b⟩ :: rest) →
        Level item (⟨.leftParen, a⟩ :: ls) xs rest

/-- A quoted text, which has no meaning, or nothing. -/
inductive OptionalComment : List Lexeme → List Lexeme → Prop
  | absent (rest : List Lexeme) : OptionalComment rest rest
  | present (text : String) (rest : List Lexeme) :
      OptionalComment (⟨.comment, text⟩ :: rest) rest

/-! ## Durations -/

/-- A whole number or a fraction that has a value. -/
inductive Number : Rule Binary64
  | intro {kind : Kind} {text : String} {value : Binary64} {rest : List Lexeme} :
      kind ∈ [Kind.int, .float] → Numeral.decimal? text.toList = some value →
        Number (⟨kind, text⟩ :: rest) value rest

/-- The milliseconds of a number of units of time. -/
inductive Duration : Kind → Binary64 → Binary64 → Prop
  | hours (value : Binary64) : Duration .hours value ((Binary64.ofNat 3600000).mul value)
  | minutes (value : Binary64) : Duration .minutes value ((Binary64.ofNat 60000).mul value)
  | seconds (value : Binary64) : Duration .seconds value ((Binary64.ofNat 1000).mul value)
  | plain (value : Binary64) : Duration .noUnit value value

/-- The milliseconds between two events of a rate. A rate of zero has none. -/
inductive Period : Kind → Binary64 → Binary64 → Prop
  | hz {value : Binary64} : value.isZero = false →
      Period .hz value ((Binary64.ofNat 1000).div value)
  | pm {value : Binary64} : value.isZero = false →
      Period .pm value ((Binary64.ofNat 60000).div value)

/-- `(HOURS | MINUTES | SECONDS | NONE) number ')'`, in whole milliseconds. -/
inductive Time : Rule Int
  | intro {unit : Kind} {u b : String} {ls rest : List Lexeme} {value millis : Binary64} :
      Duration unit value millis → Number ls value (⟨.rightParen, b⟩ :: rest) →
        Time (⟨unit, u⟩ :: ls) millis.toInt64 rest

/-- A time, or `(HZ | PM) number ')'`, the period of a rate. -/
inductive Frequency : Rule Int
  | time {ls rest : List Lexeme} {millis : Int} : Time ls millis rest → Frequency ls millis rest
  | rate {unit : Kind} {u b : String} {ls rest : List Lexeme} {value millis : Binary64} :
      Period unit value millis → Number ls value (⟨.rightParen, b⟩ :: rest) →
        Frequency (⟨unit, u⟩ :: ls) millis.toInt64 rest

/-! ## Conditions -/

/-- `'(' NAME [value [PREDICATE]] ')'`. -/
inductive Sense : Rule (String × Option String × Option String)
  | bare {a name b : String} {rest : List Lexeme} :
      Sense (⟨.leftParen, a⟩ :: ⟨.name, name⟩ :: ⟨.rightParen, b⟩ :: rest)
        (name, none, none) rest
  | value {a name value b : String} {kind : Kind} {rest : List Lexeme} :
      kind ∈ [Kind.int, .float, .name, .string, .nil] →
        Sense (⟨.leftParen, a⟩ :: ⟨.name, name⟩ :: ⟨kind, value⟩ :: ⟨.rightParen, b⟩ :: rest)
          (name, some value, none) rest
  | operator {a name value operator b : String} {kind : Kind} {rest : List Lexeme} :
      kind ∈ [Kind.int, .float, .name, .string, .nil] →
        Sense (⟨.leftParen, a⟩ :: ⟨.name, name⟩ :: ⟨kind, value⟩ :: ⟨.predicate, operator⟩ ::
            ⟨.rightParen, b⟩ :: rest)
          (name, some value, some operator) rest

/-- `NAME | sense`, in a goal or trigger. -/
inductive Condition : Rule Plan.Condition
  | bare {name : String} {rest : List Lexeme} :
      Condition (⟨.name, name⟩ :: rest) (.bare name) rest
  | check {ls rest : List Lexeme} {name : String} {value operator : Option String} :
      Sense ls (name, value, operator) rest →
        Condition ls (.check name value operator) rest

/-- `NIL | '(' condition* ')'`. -/
inductive Conditions : Rule (List Plan.Condition)
  | nil {n : String} {rest : List Lexeme} : Conditions (⟨.nil, n⟩ :: rest) [] rest
  | listed {a b : String} {ls rest : List Lexeme} {conditions : List Plan.Condition} :
      Star Condition ls conditions (⟨.rightParen, b⟩ :: rest) →
        Conditions (⟨.leftParen, a⟩ :: ls) conditions rest

/-- `keyword conditions ')'`, for the keyword of goals or that of triggers. No conditions
mean that there is no goal or trigger. -/
inductive Guard (keyword : Kind) : Rule (Option (List Plan.Condition))
  | absent {k b : String} {ls rest : List Lexeme} :
      Conditions ls [] (⟨.rightParen, b⟩ :: rest) →
        Guard keyword (⟨keyword, k⟩ :: ls) none rest
  | present {k b : String} {ls rest : List Lexeme} {condition : Plan.Condition}
      {conditions : List Plan.Condition} :
      Conditions ls (condition :: conditions) (⟨.rightParen, b⟩ :: rest) →
        Guard keyword (⟨keyword, k⟩ :: ls) (some (condition :: conditions)) rest

/-- `NIL '(' | '(' goal '(' | '('`: a goal, and the parenthesis that opens the elements. -/
inductive GoalSlot : Rule (Option (List Plan.Condition))
  | nil {n a : String} {rest : List Lexeme} :
      GoalSlot (⟨.nil, n⟩ :: ⟨.leftParen, a⟩ :: rest) none rest
  | goal {a b : String} {ls rest : List Lexeme} {goal : Option (List Plan.Condition)} :
      Guard .goal ls goal (⟨.leftParen, b⟩ :: rest) →
        GoalSlot (⟨.leftParen, a⟩ :: ls) goal rest
  | absent {a : String} {rest : List Lexeme} : GoalSlot (⟨.leftParen, a⟩ :: rest) none rest

/-- `NIL | '(' trigger`, or nothing. -/
inductive TriggerSlot : Rule (Option (List Plan.Condition))
  | nil {n : String} {rest : List Lexeme} : TriggerSlot (⟨.nil, n⟩ :: rest) none rest
  | trigger {a : String} {ls rest : List Lexeme} {trigger : Option (List Plan.Condition)} :
      Guard .trigger ls trigger rest → TriggerSlot (⟨.leftParen, a⟩ :: ls) trigger rest
  | absent {rest : List Lexeme} : TriggerSlot rest none rest

/-! ## Drive collections -/

/-- `NIL | '(' frequency`, or nothing. -/
inductive IntervalSlot : Rule (Option Int)
  | nil {n : String} {rest : List Lexeme} : IntervalSlot (⟨.nil, n⟩ :: rest) none rest
  | frequency {a : String} {ls rest : List Lexeme} {millis : Int} :
      Frequency ls millis rest → IntervalSlot (⟨.leftParen, a⟩ :: ls) (some millis) rest
  | absent {rest : List Lexeme} : IntervalSlot rest none rest

/-- `'(' NAME triggerSlot NAME intervalSlot [COMMENT] ')'`. -/
inductive DriveElement : Rule Plan.DriveElement
  | intro {a b name target : String} {l₁ l₂ l₃ rest : List Lexeme}
      {trigger : Option (List Plan.Condition)} {interval : Option Int} :
      TriggerSlot l₁ trigger (⟨.name, target⟩ :: l₂) → IntervalSlot l₂ interval l₃ →
      OptionalComment l₃ (⟨.rightParen, b⟩ :: rest) →
        DriveElement (⟨.leftParen, a⟩ :: ⟨.name, name⟩ :: l₁)
          ⟨name, trigger, target, interval⟩ rest

/-- `(DC | RDC | SDC | SRDC) NAME goalSlot DRIVES driveLevel+ ')' ')'`. -/
inductive DriveCollection : Rule Plan.DriveCollection
  | intro {kind : Kind} {tag name d b c : String} {l₁ l₂ rest : List Lexeme}
      {goal : Option (List Plan.Condition)} {levels : List (List Plan.DriveElement)} :
      kind ∈ [Kind.dc, .rdc, .sdc, .srdc] → GoalSlot l₁ goal (⟨.drives, d⟩ :: l₂) →
      Plus (Level DriveElement) l₂ levels (⟨.rightParen, b⟩ :: ⟨.rightParen, c⟩ :: rest) →
        DriveCollection (⟨kind, tag⟩ :: ⟨.name, name⟩ :: l₁) ⟨tag, name, goal, levels⟩ rest

/-! ## Competences -/

/-- `NIL | NUMINT`, or nothing. Without a number, or with `NIL`, there is no limit. A number
has to fit in 64 bits. -/
inductive RetriesSlot : Rule Int
  | nil {n : String} {rest : List Lexeme} : RetriesSlot (⟨.nil, n⟩ :: rest) (-1) rest
  | count {text : String} {count : Int} {rest : List Lexeme} :
      Numeral.int64? text.toList = some count → RetriesSlot (⟨.int, text⟩ :: rest) count rest
  | absent {rest : List Lexeme} : RetriesSlot rest (-1) rest

/-- `'(' NAME triggerSlot NAME retriesSlot [COMMENT] ')'`. -/
inductive CompetenceElement : Rule Plan.CompetenceElement
  | intro {a b name target : String} {l₁ l₂ l₃ rest : List Lexeme}
      {trigger : Option (List Plan.Condition)} {maxRetries : Int} :
      TriggerSlot l₁ trigger (⟨.name, target⟩ :: l₂) → RetriesSlot l₂ maxRetries l₃ →
      OptionalComment l₃ (⟨.rightParen, b⟩ :: rest) →
        CompetenceElement (⟨.leftParen, a⟩ :: ⟨.name, name⟩ :: l₁)
          ⟨name, trigger, target, maxRetries⟩ rest

/-- `NIL goalSlot | '(' time goalSlot | '(' goal '(' | '('`: a time, a goal, and the
parenthesis that opens the elements. -/
inductive CompetenceHead : Rule (Option Int × Option (List Plan.Condition))
  | nil {n : String} {ls rest : List Lexeme} {goal : Option (List Plan.Condition)} :
      GoalSlot ls goal rest → CompetenceHead (⟨.nil, n⟩ :: ls) (none, goal) rest
  | time {a : String} {ls mid rest : List Lexeme} {millis : Int}
      {goal : Option (List Plan.Condition)} :
      Time ls millis mid → GoalSlot mid goal rest →
        CompetenceHead (⟨.leftParen, a⟩ :: ls) (some millis, goal) rest
  | goal {a b : String} {ls rest : List Lexeme} {goal : Option (List Plan.Condition)} :
      Guard .goal ls goal (⟨.leftParen, b⟩ :: rest) →
        CompetenceHead (⟨.leftParen, a⟩ :: ls) (none, goal) rest
  | absent {a : String} {rest : List Lexeme} :
      CompetenceHead (⟨.leftParen, a⟩ :: rest) (none, none) rest

/-- `C NAME competenceHead ELEMENTS competenceLevel+ ')' [COMMENT] ')'`. -/
inductive Competence : Rule Plan.Competence
  | intro {c name e b d : String} {l₁ l₂ l₃ rest : List Lexeme}
      {time : Option Int} {goal : Option (List Plan.Condition)}
      {levels : List (List Plan.CompetenceElement)} :
      CompetenceHead l₁ (time, goal) (⟨.elements, e⟩ :: l₂) →
      Plus (Level CompetenceElement) l₂ levels (⟨.rightParen, b⟩ :: l₃) →
      OptionalComment l₃ (⟨.rightParen, d⟩ :: rest) →
        Competence (⟨.competence, c⟩ :: ⟨.name, name⟩ :: l₁) ⟨name, time, goal, levels⟩ rest

/-! ## Action patterns -/

/-- `NAME | sense`, in an action pattern. -/
inductive Step : Rule Plan.Step
  | named {name : String} {rest : List Lexeme} :
      Step (⟨.name, name⟩ :: rest) (.named name) rest
  | sense {ls rest : List Lexeme} {name : String} {value operator : Option String} :
      Sense ls (name, value, operator) rest → Step ls (.sense name value operator) rest

/-- `NIL '(' | '(' time '(' | '('`: a time, and the parenthesis that opens the steps. -/
inductive PatternHead : Rule (Option Int)
  | nil {n a : String} {rest : List Lexeme} :
      PatternHead (⟨.nil, n⟩ :: ⟨.leftParen, a⟩ :: rest) none rest
  | time {a b : String} {ls rest : List Lexeme} {millis : Int} :
      Time ls millis (⟨.leftParen, b⟩ :: rest) →
        PatternHead (⟨.leftParen, a⟩ :: ls) (some millis) rest
  | absent {a : String} {rest : List Lexeme} : PatternHead (⟨.leftParen, a⟩ :: rest) none rest

/-- `AP NAME patternHead step+ ')' [COMMENT] ')'`. -/
inductive ActionPattern : Rule Plan.ActionPattern
  | intro {p name b c : String} {l₁ l₂ l₃ rest : List Lexeme} {time : Option Int}
      {steps : List Plan.Step} :
      PatternHead l₁ time l₂ → Plus Step l₂ steps (⟨.rightParen, b⟩ :: l₃) →
      OptionalComment l₃ (⟨.rightParen, c⟩ :: rest) →
        ActionPattern (⟨.actionPattern, p⟩ :: ⟨.name, name⟩ :: l₁) ⟨name, time, steps⟩ rest

/-! ## Documentation -/

/-- The meaning of a quoted text: what stands between its quotes. A text without quotes
around it, which no lexeme of a plan text is, means itself. -/
inductive Unquoted : String → String → Prop
  | quoted (inner : List Char) :
      Unquoted (String.ofList ('"' :: inner ++ ['"'])) (String.ofList inner)
  | plain {text : String} :
      (∀ inner, text.toList ≠ '"' :: inner ++ ['"']) → Unquoted text text

/-- `DOCUMENTATION COMMENT COMMENT COMMENT ')'`. -/
inductive Documentation : Rule Plan.Docstring
  | intro {d t a m b title author memo : String} {rest : List Lexeme} :
      Unquoted t title → Unquoted a author → Unquoted m memo →
        Documentation (⟨.documentation, d⟩ :: ⟨.comment, t⟩ :: ⟨.comment, a⟩ ::
            ⟨.comment, m⟩ :: ⟨.rightParen, b⟩ :: rest)
          ⟨title, author, memo⟩ rest

/-! ## Plans -/

/-- What a plan consists of. -/
inductive Part where
  | docstring (part : Plan.Docstring)
  | collection (part : Plan.DriveCollection)
  | competence (part : Plan.Competence)
  | pattern (part : Plan.ActionPattern)

namespace Part

@[simp]
def docstring? : Part → Option Plan.Docstring
  | .docstring part => some part
  | _ => none

@[simp]
def collection? : Part → Option Plan.DriveCollection
  | .collection part => some part
  | _ => none

@[simp]
def competence? : Part → Option Plan.Competence
  | .competence part => some part
  | _ => none

@[simp]
def pattern? : Part → Option Plan.ActionPattern
  | .pattern part => some part
  | _ => none

end Part

/-- The plan of the given parts, each kind in their order. -/
def planOf (parts : List Part) : Plan where
  docstring := (parts.filterMap Part.docstring?).head?
  collection := (parts.filterMap Part.collection?).head?
  competences := parts.filterMap Part.competence?
  patterns := parts.filterMap Part.pattern?

/-- A part behind its opening parenthesis. -/
inductive Opened : Rule Part
  | docstring {a : String} {ls rest : List Lexeme} {part : Plan.Docstring} :
      Documentation ls part rest → Opened (⟨.leftParen, a⟩ :: ls) (.docstring part) rest
  | collection {a : String} {ls rest : List Lexeme} {part : Plan.DriveCollection} :
      DriveCollection ls part rest → Opened (⟨.leftParen, a⟩ :: ls) (.collection part) rest
  | competence {a : String} {ls rest : List Lexeme} {part : Plan.Competence} :
      Competence ls part rest → Opened (⟨.leftParen, a⟩ :: ls) (.competence part) rest
  | pattern {a : String} {ls rest : List Lexeme} {part : Plan.ActionPattern} :
      ActionPattern ls part rest → Opened (⟨.leftParen, a⟩ :: ls) (.pattern part) rest

/-- The parts of a plan go together: only the first is documentation, at most one is a drive
collection, and where none is, there is exactly one competence or action pattern. -/
structure Coherent (parts : List Part) : Prop where
  docstring_first : ∀ part ∈ parts.tail, part.docstring? = none
  one_collection : (parts.filterMap Part.collection?).length ≤ 1
  one_root : parts.filterMap Part.collection? = [] →
    (parts.filterMap Part.competence?).length + (parts.filterMap Part.pattern?).length = 1

/-- `'(' ('(' part)* ')'` and nothing behind it, where the parts go together. -/
inductive IsPlan : List Lexeme → Plan → Prop
  | intro {a b : String} {ls : List Lexeme} {parts : List Part} :
      Star Opened ls parts [⟨.rightParen, b⟩] → Coherent parts →
        IsPlan (⟨.leftParen, a⟩ :: ls) (planOf parts)

/-! ## What a rule leaves

A rule takes lexemes from the front, so what it leaves is the back of what it got. -/

/-- The rule leaves the back of what it gets. -/
def Takes (rule : Rule α) : Prop :=
  ∀ ⦃ls : List Lexeme⦄ ⦃x : α⦄ ⦃rest : List Lexeme⦄, rule ls x rest → rest <:+ ls

/-- The rule takes one lexeme at least. -/
def TakesOne (rule : Rule α) : Prop :=
  ∀ ⦃ls : List Lexeme⦄ ⦃x : α⦄ ⦃rest : List Lexeme⦄, rule ls x rest →
    ∃ l others, ls = l :: others ∧ rest <:+ others

theorem TakesOne.takes {rule : Rule α} (h : TakesOne rule) : Takes rule := by
  intro ls x rest hrule
  obtain ⟨l, others, rfl, hrest⟩ := h hrule
  exact hrest.trans (List.suffix_cons l others)

theorem suffix_of_cons_suffix {l : Lexeme} {ls ms : List Lexeme} (h : l :: ls <:+ ms) :
    ls <:+ ms :=
  (List.suffix_cons l ls).trans h

theorem suffix_cons_of_suffix {l : Lexeme} {ls ms : List Lexeme} (h : ls <:+ ms) :
    ls <:+ l :: ms :=
  h.trans (List.suffix_cons l ms)

theorem Star.takes {item : Rule α} (hitem : Takes item) : Takes (Star item) := by
  intro ls xs rest h
  induction h with
  | nil rest => exact List.suffix_refl rest
  | cons head _ ih => exact ih.trans (hitem head)

theorem Plus.takes {item : Rule α} (hitem : Takes item) : Takes (Plus item) := by
  intro ls xs rest h
  cases h with
  | intro head tail => exact (Star.takes hitem tail).trans (hitem head)

theorem Level.takesOne {item : Rule α} (hitem : Takes item) : TakesOne (Level item) := by
  intro ls xs rest h
  cases h with
  | intro items =>
    exact ⟨_, _, rfl, suffix_of_cons_suffix (Plus.takes hitem items)⟩

theorem OptionalComment.suffix {ls rest : List Lexeme} (h : OptionalComment ls rest) :
    rest <:+ ls := by
  cases h with
  | absent => exact List.suffix_refl _
  | present => exact List.suffix_cons _ _

theorem Number.takes : Takes Number := by
  intro ls x rest h
  cases h with
  | intro => exact List.suffix_cons _ _

theorem Time.takes : Takes Time := by
  intro ls x rest h
  cases h with
  | intro _ number =>
    exact suffix_cons_of_suffix (suffix_of_cons_suffix (Number.takes number))

theorem Frequency.takes : Takes Frequency := by
  intro ls x rest h
  cases h with
  | time time => exact Time.takes time
  | rate _ number =>
    exact suffix_cons_of_suffix (suffix_of_cons_suffix (Number.takes number))

theorem Sense.takesOne : TakesOne Sense := by
  intro ls x rest h
  cases h <;> exact ⟨_, _, rfl, by simp [List.suffix_cons_iff]⟩

theorem Condition.takesOne : TakesOne Condition := by
  intro ls x rest h
  cases h with
  | bare => exact ⟨_, _, rfl, List.suffix_refl _⟩
  | check sense => exact Sense.takesOne sense

theorem Conditions.takes : Takes Conditions := by
  intro ls x rest h
  cases h with
  | nil => exact List.suffix_cons _ _
  | listed items =>
    exact suffix_cons_of_suffix (suffix_of_cons_suffix (Star.takes Condition.takesOne.takes items))

theorem Guard.takes {keyword : Kind} : Takes (Guard keyword) := by
  intro ls x rest h
  cases h with
  | absent conditions | present conditions =>
    exact suffix_cons_of_suffix (suffix_of_cons_suffix (Conditions.takes conditions))

theorem GoalSlot.takes : Takes GoalSlot := by
  intro ls x rest h
  cases h with
  | nil => exact suffix_cons_of_suffix (List.suffix_cons _ _)
  | goal goal => exact suffix_cons_of_suffix (suffix_of_cons_suffix (Guard.takes goal))
  | absent => exact List.suffix_cons _ _

theorem TriggerSlot.takes : Takes TriggerSlot := by
  intro ls x rest h
  cases h with
  | nil => exact List.suffix_cons _ _
  | trigger trigger => exact suffix_cons_of_suffix (Guard.takes trigger)
  | absent => exact List.suffix_refl _

theorem IntervalSlot.takes : Takes IntervalSlot := by
  intro ls x rest h
  cases h with
  | nil => exact List.suffix_cons _ _
  | frequency frequency => exact suffix_cons_of_suffix (Frequency.takes frequency)
  | absent => exact List.suffix_refl _

theorem RetriesSlot.takes : Takes RetriesSlot := by
  intro ls x rest h
  cases h with
  | nil | count => exact List.suffix_cons _ _
  | absent => exact List.suffix_refl _

theorem DriveElement.takesOne : TakesOne DriveElement := by
  intro ls x rest h
  cases h with
  | intro trigger interval ending =>
    have afterInterval := suffix_of_cons_suffix ending.suffix
    have afterTarget := afterInterval.trans (IntervalSlot.takes interval)
    have afterName := afterTarget.trans (suffix_of_cons_suffix (TriggerSlot.takes trigger))
    exact ⟨_, _, rfl, suffix_cons_of_suffix afterName⟩

theorem CompetenceElement.takesOne : TakesOne CompetenceElement := by
  intro ls x rest h
  cases h with
  | intro trigger retries ending =>
    have afterRetries := suffix_of_cons_suffix ending.suffix
    have afterTarget := afterRetries.trans (RetriesSlot.takes retries)
    have afterName := afterTarget.trans (suffix_of_cons_suffix (TriggerSlot.takes trigger))
    exact ⟨_, _, rfl, suffix_cons_of_suffix afterName⟩

theorem DriveCollection.takes : Takes DriveCollection := by
  intro ls x rest h
  cases h with
  | intro _ goal levels =>
    have afterDrives := suffix_of_cons_suffix (suffix_of_cons_suffix
      (Plus.takes (Level.takesOne DriveElement.takesOne.takes).takes levels))
    have afterName := afterDrives.trans (suffix_of_cons_suffix (GoalSlot.takes goal))
    exact suffix_cons_of_suffix (suffix_cons_of_suffix afterName)

theorem CompetenceHead.takes : Takes CompetenceHead := by
  intro ls x rest h
  cases h with
  | nil goal => exact suffix_cons_of_suffix (GoalSlot.takes goal)
  | time time goal =>
    exact suffix_cons_of_suffix ((GoalSlot.takes goal).trans (Time.takes time))
  | goal goal => exact suffix_cons_of_suffix (suffix_of_cons_suffix (Guard.takes goal))
  | absent => exact List.suffix_cons _ _

theorem Competence.takes : Takes Competence := by
  intro ls x rest h
  cases h with
  | intro head levels ending =>
    have afterLevels := suffix_of_cons_suffix ending.suffix
    have afterElements := afterLevels.trans (suffix_of_cons_suffix
      (Plus.takes (Level.takesOne CompetenceElement.takesOne.takes).takes levels))
    have afterName := afterElements.trans (suffix_of_cons_suffix (CompetenceHead.takes head))
    exact suffix_cons_of_suffix (suffix_cons_of_suffix afterName)

theorem Step.takesOne : TakesOne Step := by
  intro ls x rest h
  cases h with
  | named => exact ⟨_, _, rfl, List.suffix_refl _⟩
  | sense sense => exact Sense.takesOne sense

theorem PatternHead.takes : Takes PatternHead := by
  intro ls x rest h
  cases h with
  | nil => exact suffix_cons_of_suffix (List.suffix_cons _ _)
  | time time => exact suffix_cons_of_suffix (suffix_of_cons_suffix (Time.takes time))
  | absent => exact List.suffix_cons _ _

theorem ActionPattern.takes : Takes ActionPattern := by
  intro ls x rest h
  cases h with
  | intro head steps ending =>
    have afterSteps := suffix_of_cons_suffix ending.suffix
    have afterHead := afterSteps.trans
      (suffix_of_cons_suffix (Plus.takes Step.takesOne.takes steps))
    have afterName := afterHead.trans (PatternHead.takes head)
    exact suffix_cons_of_suffix (suffix_cons_of_suffix afterName)

theorem Documentation.takes : Takes Documentation := by
  intro ls x rest h
  cases h
  simp [List.suffix_cons_iff]

theorem Opened.takesOne : TakesOne Opened := by
  intro ls x rest h
  cases h with
  | docstring part => exact ⟨_, _, rfl, Documentation.takes part⟩
  | collection part => exact ⟨_, _, rfl, DriveCollection.takes part⟩
  | competence part => exact ⟨_, _, rfl, Competence.takes part⟩
  | pattern part => exact ⟨_, _, rfl, ActionPattern.takes part⟩

end Grammar

end SlipStack.Lap
