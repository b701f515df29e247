import SlipStack.Lap.Parser
import SlipStack.Proofs.Lap.Lexemes

/-!
# Well-formed plans

`Plan.WellFormed` says which plans can be written: names are names, values and operators are
words of their kinds, lists that the language wants an item in are not empty, and durations
are numbers that survive the way through decimal text and binary floating point. It can be
decided.

Every plan that the grammar derives from genuine lexemes is well-formed
(`Grammar.IsPlan.wellFormed`). The proofs follow the rules; `AllGenuine` is handed on from
the lexemes that a rule gets to those that it leaves, which are the back of them.
-/

namespace SlipStack.Plan

open Lap

/-! ## The parts of a plan -/

/-- The text is a word of one of the kinds. -/
def IsWord (kinds : List Kind) (text : String) : Prop :=
  ∃ kind ∈ kinds, Word.kindOf? text.toList = some kind

instance (kinds : List Kind) (text : String) : Decidable (IsWord kinds text) :=
  inferInstanceAs (Decidable (∃ kind ∈ kinds, _ = _))

/-- The text is a name. -/
def IsName (text : String) : Prop :=
  Word.kindOf? text.toList = some .name

instance (text : String) : Decidable (IsName text) :=
  inferInstanceAs (Decidable (_ = _))

/-- A sense with its comparison. An operator stands only beside a value. -/
structure CheckWellFormed (name : String) (value operator : Option String) : Prop where
  isName : IsName name
  isValue : ∀ text ∈ value, IsWord Parser.valueKinds text
  isOperator : ∀ text ∈ operator, value.isSome = true ∧ IsWord [.predicate] text

instance (name : String) (value operator : Option String) :
    Decidable (CheckWellFormed name value operator) :=
  decidable_of_iff
    (IsName name ∧ (∀ text ∈ value, IsWord Parser.valueKinds text) ∧
      ∀ text ∈ operator, value.isSome = true ∧ IsWord [.predicate] text)
    ⟨fun h => ⟨h.1, h.2.1, h.2.2⟩, fun h => ⟨h.isName, h.isValue, h.isOperator⟩⟩

def Condition.WellFormed : Condition → Prop
  | .bare name => IsName name
  | .check name value operator => CheckWellFormed name value operator

instance : DecidablePred Condition.WellFormed
  | .bare name => inferInstanceAs (Decidable (IsName name))
  | .check name value operator => inferInstanceAs (Decidable (CheckWellFormed name value operator))

/-- A goal or trigger is absent or has conditions. -/
def GuardWellFormed (guard : Option (List Condition)) : Prop :=
  ∀ conditions ∈ guard, conditions ≠ [] ∧ ∀ condition ∈ conditions, condition.WellFormed

instance (guard : Option (List Condition)) : Decidable (GuardWellFormed guard) :=
  inferInstanceAs (Decidable (∀ conditions ∈ guard, _))

/-- A duration is absent or survives being written and read. -/
def MillisWellFormed (millis : Option Int) : Prop :=
  ∀ whole ∈ millis, Numeral.Survives whole

instance (millis : Option Int) : Decidable (MillisWellFormed millis) :=
  inferInstanceAs (Decidable (∀ whole ∈ millis, _))

/-- There are priority levels, and none is empty. -/
def LevelsWellFormed {α : Type} (element : α → Prop) (levels : List (List α)) : Prop :=
  levels ≠ [] ∧ ∀ level ∈ levels, level ≠ [] ∧ ∀ x ∈ level, element x

instance {α : Type} (element : α → Prop) [DecidablePred element] (levels : List (List α)) :
    Decidable (LevelsWellFormed element levels) :=
  inferInstanceAs (Decidable (_ ∧ _))

structure DriveElement.WellFormed (element : DriveElement) : Prop where
  name : IsName element.name
  trigger : GuardWellFormed element.trigger
  target : IsName element.target
  interval : MillisWellFormed element.interval

instance : DecidablePred DriveElement.WellFormed := fun element =>
  decidable_of_iff (IsName element.name ∧ GuardWellFormed element.trigger ∧
      IsName element.target ∧ MillisWellFormed element.interval)
    ⟨fun h => ⟨h.1, h.2.1, h.2.2.1, h.2.2.2⟩,
      fun h => ⟨h.name, h.trigger, h.target, h.interval⟩⟩

structure DriveCollection.WellFormed (collection : DriveCollection) : Prop where
  tag : collection.tag ∈ ["DC", "RDC", "SDC", "SRDC"]
  name : IsName collection.name
  goal : GuardWellFormed collection.goal
  levels : LevelsWellFormed DriveElement.WellFormed collection.levels

instance : DecidablePred DriveCollection.WellFormed := fun collection =>
  decidable_of_iff (collection.tag ∈ ["DC", "RDC", "SDC", "SRDC"] ∧ IsName collection.name ∧
      GuardWellFormed collection.goal ∧
      LevelsWellFormed DriveElement.WellFormed collection.levels)
    ⟨fun h => ⟨h.1, h.2.1, h.2.2.1, h.2.2.2⟩, fun h => ⟨h.tag, h.name, h.goal, h.levels⟩⟩

structure CompetenceElement.WellFormed (element : CompetenceElement) : Prop where
  name : IsName element.name
  trigger : GuardWellFormed element.trigger
  target : IsName element.target
  maxRetries : Numeral.fitsInt64 element.maxRetries = true

instance : DecidablePred CompetenceElement.WellFormed := fun element =>
  decidable_of_iff (IsName element.name ∧ GuardWellFormed element.trigger ∧
      IsName element.target ∧ Numeral.fitsInt64 element.maxRetries = true)
    ⟨fun h => ⟨h.1, h.2.1, h.2.2.1, h.2.2.2⟩,
      fun h => ⟨h.name, h.trigger, h.target, h.maxRetries⟩⟩

structure Competence.WellFormed (competence : Competence) : Prop where
  name : IsName competence.name
  time : MillisWellFormed competence.time
  goal : GuardWellFormed competence.goal
  levels : LevelsWellFormed CompetenceElement.WellFormed competence.levels

instance : DecidablePred Competence.WellFormed := fun competence =>
  decidable_of_iff (IsName competence.name ∧ MillisWellFormed competence.time ∧
      GuardWellFormed competence.goal ∧
      LevelsWellFormed CompetenceElement.WellFormed competence.levels)
    ⟨fun h => ⟨h.1, h.2.1, h.2.2.1, h.2.2.2⟩, fun h => ⟨h.name, h.time, h.goal, h.levels⟩⟩

def Step.WellFormed : Step → Prop
  | .named name => IsName name
  | .sense name value operator => CheckWellFormed name value operator

instance : DecidablePred Step.WellFormed
  | .named name => inferInstanceAs (Decidable (IsName name))
  | .sense name value operator =>
    inferInstanceAs (Decidable (CheckWellFormed name value operator))

structure ActionPattern.WellFormed (pattern : ActionPattern) : Prop where
  name : IsName pattern.name
  time : MillisWellFormed pattern.time
  steps_ne_nil : pattern.steps ≠ []
  steps : ∀ step ∈ pattern.steps, step.WellFormed

instance : DecidablePred ActionPattern.WellFormed := fun pattern =>
  decidable_of_iff (IsName pattern.name ∧ MillisWellFormed pattern.time ∧
      pattern.steps ≠ [] ∧ ∀ step ∈ pattern.steps, step.WellFormed)
    ⟨fun h => ⟨h.1, h.2.1, h.2.2.1, h.2.2.2⟩,
      fun h => ⟨h.name, h.time, h.steps_ne_nil, h.steps⟩⟩

/-- The texts of the documentation hold nothing that would end them. -/
def Docstring.WellFormed (doc : Docstring) : Prop :=
  ∀ text ∈ [doc.title, doc.author, doc.memo], ∀ c ∈ text.toList, isTextChar c = true

instance : DecidablePred Docstring.WellFormed := fun doc =>
  inferInstanceAs (Decidable (∀ text ∈ [doc.title, doc.author, doc.memo], _))

/-- A plan that can be written. Without a drive collection it has one node, its root. -/
structure WellFormed (plan : Plan) : Prop where
  docstring : ∀ part ∈ plan.docstring, part.WellFormed
  collection : ∀ part ∈ plan.collection, part.WellFormed
  competences : ∀ part ∈ plan.competences, part.WellFormed
  patterns : ∀ part ∈ plan.patterns, part.WellFormed
  one_root : plan.collection = none → plan.competences.length + plan.patterns.length = 1

instance : DecidablePred WellFormed := fun plan =>
  decidable_of_iff ((∀ part ∈ plan.docstring, part.WellFormed) ∧
      (∀ part ∈ plan.collection, part.WellFormed) ∧
      (∀ part ∈ plan.competences, part.WellFormed) ∧
      (∀ part ∈ plan.patterns, part.WellFormed) ∧
      (plan.collection = none → plan.competences.length + plan.patterns.length = 1))
    ⟨fun h => ⟨h.1, h.2.1, h.2.2.1, h.2.2.2.1, h.2.2.2.2⟩,
      fun h => ⟨h.docstring, h.collection, h.competences, h.patterns, h.one_root⟩⟩

end SlipStack.Plan

namespace SlipStack.Lap

open Plan

/-! ## What is derived is well-formed -/

/-- All lexemes are of their kinds. -/
def AllGenuine (ls : List Lexeme) : Prop :=
  ∀ l ∈ ls, l.Genuine

theorem AllGenuine.suffix {ls rest : List Lexeme} (h : AllGenuine ls) (hrest : rest <:+ ls) :
    AllGenuine rest :=
  fun l hl => h l (hrest.subset hl)

theorem AllGenuine.head {l : Lexeme} {ls : List Lexeme} (h : AllGenuine (l :: ls)) :
    l.Genuine :=
  h l List.mem_cons_self

theorem AllGenuine.tail {l : Lexeme} {ls : List Lexeme} (h : AllGenuine (l :: ls)) :
    AllGenuine ls :=
  fun l' hl' => h l' (List.mem_cons_of_mem l hl')

theorem isWord_of_genuine {kinds : List Kind} {kind : Kind} {text : String}
    (hkinds : ∀ k ∈ kinds, k ∉ [Kind.leftParen, .rightParen, .comment]) (hkind : kind ∈ kinds)
    (h : Lexeme.Genuine ⟨kind, text⟩) : IsWord kinds text := by
  refine ⟨kind, hkind, ?_⟩
  have := hkinds kind hkind
  cases kind <;> first | exact h | exact absurd this (by decide)

namespace Grammar

/-- Whatever the rule derives from genuine lexemes has the property. -/
def Ensures {α : Type} (rule : Rule α) (P : α → Prop) : Prop :=
  ∀ ⦃ls : List Lexeme⦄ ⦃x : α⦄ ⦃rest : List Lexeme⦄, AllGenuine ls → rule ls x rest → P x

variable {α : Type}

theorem Star.ensures {item : Rule α} {P : α → Prop} (htakes : Takes item)
    (hitem : Ensures item P) : Ensures (Star item) fun xs => ∀ x ∈ xs, P x := by
  intro ls xs rest hls h
  induction h with
  | nil => exact fun x hx => absurd hx List.not_mem_nil
  | cons head _ ih =>
    exact List.forall_mem_cons.2 ⟨hitem hls head, ih (hls.suffix (htakes head))⟩

theorem Plus.ensures {item : Rule α} {P : α → Prop} (htakes : Takes item)
    (hitem : Ensures item P) : Ensures (Plus item) fun xs => xs ≠ [] ∧ ∀ x ∈ xs, P x := by
  intro ls xs rest hls h
  refine ⟨?_, Star.ensures htakes hitem hls h.star⟩
  cases h
  exact List.cons_ne_nil _ _

theorem Level.ensures {item : Rule α} {P : α → Prop} (htakes : Takes item)
    (hitem : Ensures item P) : Ensures (Level item) fun xs => xs ≠ [] ∧ ∀ x ∈ xs, P x := by
  intro ls xs rest hls h
  cases h with
  | intro items => exact Plus.ensures htakes hitem hls.tail items

/-- Priority levels are well-formed where their elements are. -/
theorem Plus.levels_ensures {item : Rule α} {P : α → Prop} (htakes : Takes item)
    (hitem : Ensures item P) : Ensures (Plus (Level item)) (LevelsWellFormed P) :=
  Plus.ensures (Level.takesOne htakes).takes (Level.ensures htakes hitem)

theorem Sense.ensures :
    Ensures Sense fun x => CheckWellFormed x.1 x.2.1 x.2.2 := by
  intro ls x rest hls h
  have hvalues : ∀ k ∈ Parser.valueKinds, k ∉ [Kind.leftParen, .rightParen, .comment] := by
    decide
  cases h with
  | bare => exact ⟨hls.tail.head, by simp, by simp⟩
  | value hkind =>
    have value := isWord_of_genuine hvalues hkind hls.tail.tail.head
    exact ⟨hls.tail.head, by simpa using value, by simp⟩
  | operator hkind =>
    have value := isWord_of_genuine hvalues hkind hls.tail.tail.head
    have operator : IsWord [.predicate] _ :=
      isWord_of_genuine (by decide) List.mem_cons_self hls.tail.tail.tail.head
    exact ⟨hls.tail.head, by simpa using value, by simpa using operator⟩

theorem Condition.ensures : Ensures Condition Plan.Condition.WellFormed := by
  intro ls x rest hls h
  cases h with
  | bare => exact hls.head
  | check sense => exact Sense.ensures hls sense

theorem Conditions.ensures : Ensures Conditions fun cs => ∀ c ∈ cs, c.WellFormed := by
  intro ls cs rest hls h
  cases h with
  | nil => exact fun c hc => absurd hc List.not_mem_nil
  | listed items =>
    exact Star.ensures Condition.takesOne.takes Condition.ensures hls.tail items

theorem Guard.ensures {keyword : Kind} : Ensures (Guard keyword) GuardWellFormed := by
  intro ls x rest hls h
  cases h with
  | absent => exact fun cs hcs => absurd hcs (Option.not_mem_none cs)
  | present conditions =>
    rintro cs hcs
    obtain rfl := Option.mem_some.1 hcs
    exact ⟨List.cons_ne_nil _ _, Conditions.ensures hls.tail conditions⟩

theorem guardWellFormed_none : GuardWellFormed none :=
  fun cs hcs => absurd hcs (Option.not_mem_none cs)

theorem GoalSlot.ensures : Ensures GoalSlot GuardWellFormed := by
  intro ls x rest hls h
  cases h with
  | nil | absent => exact guardWellFormed_none
  | goal guard => exact Guard.ensures hls.tail guard

theorem TriggerSlot.ensures : Ensures TriggerSlot GuardWellFormed := by
  intro ls x rest hls h
  cases h with
  | nil | absent => exact guardWellFormed_none
  | trigger guard => exact Guard.ensures hls.tail guard

theorem millisWellFormed_none : MillisWellFormed none :=
  fun millis hmillis => absurd hmillis (Option.not_mem_none millis)

theorem millisWellFormed_some {millis : Int} (h : Numeral.Survives millis) :
    MillisWellFormed (some millis) := by
  intro whole hwhole
  obtain rfl := Option.mem_some.1 hwhole
  exact h

/-- Durations are converted with `toInt64`, whose results survive. -/
theorem Time.survives {ls rest : List Lexeme} {millis : Int} (h : Time ls millis rest) :
    Numeral.Survives millis := by
  cases h
  exact Numeral.survives_toInt64 _

theorem IntervalSlot.millisWellFormed {ls rest : List Lexeme} {interval : Option Int}
    (h : IntervalSlot ls interval rest) : MillisWellFormed interval := by
  cases h with
  | nil | absent => exact millisWellFormed_none
  | frequency frequency =>
    refine millisWellFormed_some ?_
    cases frequency with
    | time time => exact time.survives
    | rate => exact Numeral.survives_toInt64 _

theorem DriveElement.ensures : Ensures DriveElement Plan.DriveElement.WellFormed := by
  intro ls x rest hls h
  cases h with
  | intro trigger interval ending =>
    have hbehind := hls.tail.tail.suffix (TriggerSlot.takes trigger)
    exact ⟨hls.tail.head, TriggerSlot.ensures hls.tail.tail trigger, hbehind.head,
      interval.millisWellFormed⟩

theorem isCollectionTag_of_mem {kind : Kind} (h : kind ∈ [Kind.dc, .rdc, .sdc, .srdc]) :
    kind.isCollectionTag = true := by
  simp only [List.mem_cons, List.not_mem_nil, or_false] at h
  rcases h with rfl | rfl | rfl | rfl <;> rfl

theorem DriveCollection.ensures : Ensures DriveCollection Plan.DriveCollection.WellFormed := by
  intro ls x rest hls h
  cases h with
  | intro htag goal levels =>
    obtain ⟨kind, hkind, hword⟩ := isWord_of_genuine (by decide) htag hls.head
    have hbehind := (hls.tail.tail.suffix (GoalSlot.takes goal)).tail
    exact ⟨Word.tag_of_kindOf? hword (isCollectionTag_of_mem hkind), hls.tail.head,
      GoalSlot.ensures hls.tail.tail goal,
      Plus.levels_ensures DriveElement.takesOne.takes DriveElement.ensures hbehind levels⟩

theorem RetriesSlot.fitsInt64 {ls rest : List Lexeme} {retries : Int}
    (h : RetriesSlot ls retries rest) : Numeral.fitsInt64 retries = true := by
  cases h with
  | nil | absent => decide
  | count hcount => exact Numeral.fitsInt64_of_int64? hcount

theorem CompetenceElement.ensures :
    Ensures CompetenceElement Plan.CompetenceElement.WellFormed := by
  intro ls x rest hls h
  cases h with
  | intro trigger retries ending =>
    have hbehind := hls.tail.tail.suffix (TriggerSlot.takes trigger)
    exact ⟨hls.tail.head, TriggerSlot.ensures hls.tail.tail trigger, hbehind.head,
      retries.fitsInt64⟩

theorem CompetenceHead.ensures :
    Ensures CompetenceHead fun x => MillisWellFormed x.1 ∧ GuardWellFormed x.2 := by
  intro ls x rest hls h
  cases h with
  | nil goal => exact ⟨millisWellFormed_none, GoalSlot.ensures hls.tail goal⟩
  | time time goal =>
    exact ⟨millisWellFormed_some time.survives,
      GoalSlot.ensures (hls.tail.suffix (Time.takes time)) goal⟩
  | goal goal => exact ⟨millisWellFormed_none, Guard.ensures hls.tail goal⟩
  | absent => exact ⟨millisWellFormed_none, guardWellFormed_none⟩

theorem Competence.ensures : Ensures Competence Plan.Competence.WellFormed := by
  intro ls x rest hls h
  cases h with
  | intro head levels ending =>
    obtain ⟨htime, hgoal⟩ := CompetenceHead.ensures hls.tail.tail head
    have hbehind := (hls.tail.tail.suffix (CompetenceHead.takes head)).tail
    exact ⟨hls.tail.head, htime, hgoal,
      Plus.levels_ensures CompetenceElement.takesOne.takes CompetenceElement.ensures hbehind
        levels⟩

theorem Step.ensures : Ensures Step Plan.Step.WellFormed := by
  intro ls x rest hls h
  cases h with
  | named => exact hls.head
  | sense sense => exact Sense.ensures hls sense

theorem PatternHead.millisWellFormed {ls rest : List Lexeme} {time : Option Int}
    (h : PatternHead ls time rest) : MillisWellFormed time := by
  cases h with
  | nil | absent => exact millisWellFormed_none
  | time time => exact millisWellFormed_some time.survives

theorem ActionPattern.ensures : Ensures ActionPattern Plan.ActionPattern.WellFormed := by
  intro ls x rest hls h
  cases h with
  | intro head steps ending =>
    have hbehind := hls.tail.tail.suffix (PatternHead.takes head)
    obtain ⟨hne, hsteps⟩ := Plus.ensures Step.takesOne.takes Step.ensures hbehind steps
    exact ⟨hls.tail.head, head.millisWellFormed, hne, hsteps⟩

/-- The meaning of a genuine quoted text can stand between quotes again. -/
theorem isTextChar_of_unquoted {text meaning : String} (h : Unquoted text meaning)
    (hgenuine : Lexeme.Genuine ⟨.comment, text⟩) : ∀ c ∈ meaning.toList, isTextChar c = true := by
  obtain ⟨inner, htext, hinner⟩ := hgenuine
  cases h with
  | quoted inner' =>
    obtain rfl : inner' = inner := by simpa [String.ofList_inj] using htext
    rw [String.toList_ofList]
    exact hinner
  | plain hplain =>
    refine absurd ?_ (hplain inner)
    rw [show text = _ from htext, String.toList_ofList]

theorem Documentation.ensures : Ensures Documentation Docstring.WellFormed := by
  intro ls x rest hls h
  cases h with
  | intro title author memo =>
    have htitle := isTextChar_of_unquoted title hls.tail.head
    have hauthor := isTextChar_of_unquoted author hls.tail.tail.head
    have hmemo := isTextChar_of_unquoted memo hls.tail.tail.tail.head
    simpa [Docstring.WellFormed] using ⟨htitle, hauthor, hmemo⟩

/-- The part is well-formed, of whatever kind it is. -/
def Part.WellFormed : Part → Prop
  | .docstring part => part.WellFormed
  | .collection part => part.WellFormed
  | .competence part => part.WellFormed
  | .pattern part => part.WellFormed

theorem Opened.ensures : Ensures Opened Part.WellFormed := by
  intro ls x rest hls h
  cases h with
  | docstring part => exact Documentation.ensures hls.tail part
  | collection part => exact DriveCollection.ensures hls.tail part
  | competence part => exact Competence.ensures hls.tail part
  | pattern part => exact ActionPattern.ensures hls.tail part

/-- The parts of one kind, where that kind inherits well-formedness from the part. -/
theorem forall_mem_filterMap {β : Type} {select : Part → Option β} {P : β → Prop}
    {parts : List Part} (hparts : ∀ part ∈ parts, part.WellFormed)
    (hselect : ∀ part x, select part = some x → part.WellFormed → P x) :
    ∀ x ∈ parts.filterMap select, P x := by
  intro x hx
  obtain ⟨part, hpart, heq⟩ := List.mem_filterMap.1 hx
  exact hselect part x heq (hparts part hpart)

/-- A plan of well-formed parts that go together is well-formed. -/
theorem planOf_wellFormed {parts : List Part} (hparts : ∀ part ∈ parts, part.WellFormed)
    (hcoherent : Coherent parts) : (planOf parts).WellFormed := by
  refine ⟨fun doc hdoc => ?_, fun collection hcollection => ?_, ?_, ?_, fun hnone => ?_⟩
  · refine forall_mem_filterMap hparts ?_ doc (List.mem_of_mem_head? hdoc)
    rintro (_ | _ | _ | _) x heq h <;> cases heq
    exact h
  · refine forall_mem_filterMap hparts ?_ collection (List.mem_of_mem_head? hcollection)
    rintro (_ | _ | _ | _) x heq h <;> cases heq
    exact h
  · refine forall_mem_filterMap hparts ?_
    rintro (_ | _ | _ | _) x heq h <;> cases heq
    exact h
  · refine forall_mem_filterMap hparts ?_
    rintro (_ | _ | _ | _) x heq h <;> cases heq
    exact h
  · exact hcoherent.one_root (List.head?_eq_none_iff.1 hnone)

/-- What is derived from genuine lexemes is a plan that can be written. -/
theorem IsPlan.wellFormed {ls : List Lexeme} {p : Plan} (hls : AllGenuine ls)
    (h : IsPlan ls p) : p.WellFormed := by
  cases h with
  | intro parts hcoherent =>
    exact planOf_wellFormed (Star.ensures Opened.takesOne.takes Opened.ensures hls.tail parts)
      hcoherent

end Grammar

end SlipStack.Lap
