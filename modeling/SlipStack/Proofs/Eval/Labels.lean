import SlipStack.Proofs.Eval.Totals
import SlipStack.Proofs.Number.Printed

/-!
# What the label of a check tells about it

A label is a tag for the kind of the check, a body and a parenthesis, and the tags cannot be taken
for one another (`Check.label_eq_iff`). Bodies tell checks of one kind apart, except action
sequences: the names are joined by blanks and may hold blanks themselves, so that only the words of
all names can be told (`Check.body_eq_iff_of_tag_eq`). Checks that agree in this are `Check.Alike`.
If no name holds a blank, this is equality (`Check.alike_iff_eq`).

So the rates of findings have one row for all checks that are alike, and different rows for all
others (`labels_tell_apart`).
-/

namespace SlipStack.Eval

open Engine (Stop)

namespace Check

/-! ## The parts of a label -/

/-- How the label of a check starts. -/
def tag : Check → String
  | outcome _ => "outcome("
  | stepsAtMost _ => "steps_at_most("
  | actionCount _ _ => "action_count("
  | actionSequence _ => "action_sequence("

/-- What stands between the parentheses of a label. -/
def body : Check → List Char
  | outcome expect => expect.toText.toList
  | stepsAtMost steps => Nat.toDigits 10 steps
  | actionCount name count => name.toList ++ '=' :: Nat.toDigits 10 count
  | actionSequence names => [' '].intercalate (names.map String.toList)

variable {check other : Check}

theorem toList_label (check : Check) :
    check.label.toList = check.tag.toList ++ (check.body ++ [')']) := by
  cases check with
  | outcome expect =>
    show ("outcome(" ++ expect.toText ++ ")").toList = _
    simp [tag, body]
  | stepsAtMost steps =>
    show ("steps_at_most(" ++ steps.repr ++ ")").toList = _
    simp [tag, body]
  | actionCount name count =>
    show ("action_count(" ++ name ++ "=" ++ count.repr ++ ")").toList = _
    simp [tag, body]
  | actionSequence names =>
    show ("action_sequence(" ++ " ".intercalate names ++ ")").toList = _
    simp [tag, body]

def tags : List String :=
  ["outcome(", "steps_at_most(", "action_count(", "action_sequence("]

theorem tag_mem (check : Check) : check.tag ∈ tags := by
  cases check <;> simp [tag, tags]

/-- No tag is the start of another one. -/
theorem tag_eq_of_isPrefixOf (h : check.tag.toList <+: other.tag.toList) :
    check.tag = other.tag := by
  have hall : ∀ tag ∈ tags, ∀ tag' ∈ tags, tag.toList <+: tag'.toList → tag = tag' := by decide
  exact hall _ check.tag_mem _ other.tag_mem h

/-- A label can be taken apart: its tag ends at the first parenthesis, and what follows is the
body, so labels are equal exactly if both parts are. -/
theorem label_eq_iff :
    check.label = other.label ↔ check.tag = other.tag ∧ check.body = other.body := by
  rw [← String.toList_inj, toList_label, toList_label]
  constructor
  · intro h
    have hstarts : check.tag.toList <+: other.tag.toList ++ (other.body ++ [')']) :=
      h ▸ List.prefix_append _ _
    have htag : check.tag = other.tag := by
      rcases List.prefix_or_prefix_of_prefix hstarts (List.prefix_append _ _) with h | h
      · exact tag_eq_of_isPrefixOf h
      · exact (tag_eq_of_isPrefixOf h).symm
    rw [htag] at h
    exact ⟨htag, List.append_cancel_right (List.append_cancel_left h)⟩
  · rintro ⟨htag, hbody⟩
    rw [htag, hbody]

/-! ## Bodies -/

/-- What stands before and after the last occurrence of a separator is determined by the whole. -/
theorem append_cons_inj_of_notMem {α : Type} {sep : α} {before before' after after' : List α}
    (hafter : sep ∉ after) (hafter' : sep ∉ after')
    (h : before ++ sep :: after = before' ++ sep :: after') :
    before = before' ∧ after = after' := by
  rcases List.append_eq_append_iff.1 h with ⟨between, rfl, hrest⟩ | ⟨between, rfl, hrest⟩
  · cases between with
    | nil => simpa using hrest
    | cons c between =>
      obtain ⟨rfl, rfl⟩ := List.cons.inj hrest
      exact absurd (by simp) hafter
  · cases between with
    | nil => simpa [eq_comm] using hrest
    | cons c between =>
      obtain ⟨rfl, rfl⟩ := List.cons.inj hrest
      exact absurd (by simp) hafter'

/-- Decimal digits tell numbers apart. -/
theorem toDigits_injective {m n : Nat} (h : Nat.toDigits 10 m = Nat.toDigits 10 n) : m = n := by
  have hm := Numeral.digitsValue?_toDigits m
  rw [h, Numeral.digitsValue?_toDigits] at hm
  exact (Option.some.inj hm).symm

/-- The sign between name and number is no digit, so that a label can be taken apart there. -/
theorem separator_notMem_toDigits (n : Nat) : '=' ∉ Nat.toDigits 10 n := fun hmem =>
  absurd (Numeral.isAsciiDigit_of_mem_toDigits hmem) (by decide)

/-- The words of all names: the names, taken apart at blanks. -/
def words (names : List String) : List (List Char) :=
  names.flatMap (·.toList.splitOn ' ')

/-- Names joined by blanks show their words. -/
theorem splitOn_joined {names : List String} (h : names ≠ []) :
    ([' '].intercalate (names.map String.toList)).splitOn ' ' = words names := by
  induction names with
  | nil => exact absurd rfl h
  | cons name rest ih =>
    cases rest with
    | nil => simp [words]
    | cons next rest =>
      rw [List.map_cons, List.map_cons, List.intercalate_cons_cons, List.append_assoc,
        List.singleton_append, List.splitOn_eq_splitOnP, List.splitOnP_append_cons _ _ (by simp),
        ← List.splitOn_eq_splitOnP, ← List.splitOn_eq_splitOnP, ← List.map_cons,
        ih (List.cons_ne_nil _ _)]
      rfl

/-- Names joined by blanks are determined by their words, and determine these. -/
theorem joined_eq_iff {names names' : List String} (h : names ≠ []) (h' : names' ≠ []) :
    [' '].intercalate (names.map String.toList) = [' '].intercalate (names'.map String.toList) ↔
      words names = words names' := by
  rw [← splitOn_joined h, ← splitOn_joined h']
  refine ⟨congrArg _, fun hwords => ?_⟩
  have hjoined := congrArg ([' '].intercalate ·) hwords
  simpa only [List.intercalate_splitOn] using hjoined

/-! ## Checks with one label -/

/-- The checks are equal, or are sequences of actions with the same words. -/
def Alike (check other : Check) : Prop :=
  match check, other with
  | actionSequence names, actionSequence names' => words names = words names'
  | check, other => check = other

instance : DecidableRel Alike
  | actionSequence names, actionSequence names' =>
    inferInstanceAs (Decidable (words names = words names'))
  | outcome _, other
  | stepsAtMost _, other
  | actionCount _ _, other => inferInstanceAs (Decidable (_ = other))
  | actionSequence names, outcome _
  | actionSequence names, stepsAtMost _
  | actionSequence names, actionCount _ _ =>
    inferInstanceAs (Decidable (actionSequence names = _))

/-- For valid checks of the same tag, the bodies of the labels are equal exactly if the checks ask
for the same; the tag tells how to read the body. -/
theorem body_eq_iff_of_tag_eq (hcheck : check.fault? = none) (hother : other.fault? = none)
    (htag : check.tag = other.tag) : check.body = other.body ↔ check.Alike other := by
  -- Four cases are left: the tags are different in the others.
  cases check <;> cases other <;> simp [tag] at htag
  case outcome.outcome expect expect' =>
    cases expect <;> cases expect' <;> decide
  case stepsAtMost.stepsAtMost steps steps' =>
    simp only [body, Alike, stepsAtMost.injEq]
    exact ⟨toDigits_injective, congrArg _⟩
  case actionCount.actionCount name count name' count' =>
    simp only [body, Alike, actionCount.injEq, ← String.toList_inj]
    constructor
    · intro h
      obtain ⟨hname, hcount⟩ := append_cons_inj_of_notMem (separator_notMem_toDigits count)
        (separator_notMem_toDigits count') h
      exact ⟨hname, toDigits_injective hcount⟩
    · rintro ⟨hname, rfl⟩
      rw [hname]
  case actionSequence.actionSequence names names' =>
    have hne {names : List String} (h : (actionSequence names).fault? = none) : names ≠ [] := by
      rintro rfl
      cases h
    exact joined_eq_iff (hne hcheck) (hne hother)

/-- Valid checks have one label just if they are alike. -/
theorem label_eq_iff_alike (hcheck : check.fault? = none) (hother : other.fault? = none) :
    check.label = other.label ↔ check.Alike other := by
  rw [label_eq_iff]
  constructor
  · rintro ⟨htag, hbody⟩
    exact (body_eq_iff_of_tag_eq hcheck hother htag).1 hbody
  · intro halike
    have htag : check.tag = other.tag := by
      unfold Alike at halike
      split at halike
      · rfl
      · rw [halike]
    exact ⟨htag, (body_eq_iff_of_tag_eq hcheck hother htag).2 halike⟩

/-- No name of a sequence has a blank in it. -/
def Unspaced : Check → Prop
  | actionSequence names => ∀ name ∈ names, ' ' ∉ name.toList
  | _ => True

/-- Names without blanks are found again in the text that joins them by blanks. A name with a
blank would come apart there. -/
theorem words_eq_map {names : List String} (h : ∀ name ∈ names, ' ' ∉ name.toList) :
    words names = names.map String.toList := by
  rw [words, List.flatMap_congr fun name hname => List.splitOn_eq_singleton (h name hname)]
  exact List.map_eq_flatMap.symm

/-- If names hold no blanks, only equal checks are alike. -/
theorem alike_iff_eq (hcheck : check.Unspaced) (hother : other.Unspaced) :
    check.Alike other ↔ check = other := by
  unfold Alike
  split
  · rename_i names names'
    rw [words_eq_map hcheck, words_eq_map hother, actionSequence.injEq]
    exact (List.map_injective_iff.2 fun _ _ => String.toList_inj.1).eq_iff
  · rfl

end Check

/-! ## Rows -/

namespace Rates

variable {rates : List Rate} {findings : List Finding}

/-- The row of a finding, if all findings are of valid checks. -/
theorem Tallies.row?_of_mem (h : Tallies rates findings)
    (hvalid : ∀ finding ∈ findings, finding.check.fault? = none) {finding : Finding}
    (hmem : finding ∈ findings) :
    row? rates finding.label = some {
      label := finding.label
      passed := findings.countP fun other => other.check.Alike finding.check && other.passed
      total := findings.countP (·.check.Alike finding.check) } := by
  have halike (other : Finding) (hother : other ∈ findings) :
      decide (other.label = finding.label) = decide (other.check.Alike finding.check) :=
    decide_eq_decide.2 (Check.label_eq_iff_alike (hvalid other hother) (hvalid finding hmem))
  have htotal : findings.countP (·.label = finding.label) =
      findings.countP (·.check.Alike finding.check) :=
    List.countP_congr fun other hother => by rw [halike other hother]
  have hpassed : findings.countP (fun other => other.label = finding.label && other.passed) =
      findings.countP (fun other => other.check.Alike finding.check && other.passed) :=
    List.countP_congr fun other hother => by rw [halike other hother]
  have hsome : findings.countP (·.label = finding.label) ≠ 0 :=
    (List.countP_pos_iff.2 ⟨finding, hmem, decide_eq_true rfl⟩).ne'
  rw [h.rows, rowOf?, if_neg hsome, hpassed, htotal]

end Rates

/-- Valid checks have one label just if they are equal, or are action sequences whose names have the
same words. In the rates of trials, a check therefore has a row with all checks that are alike, and
with no other ones. -/
theorem labels_tell_apart (tree : FileTree) (directories : List String) :
    (∀ check other : Check, check.fault? = none → other.fault? = none →
      (check.label = other.label ↔ check.Alike other) ∧
        (check.Unspaced → other.Unspaced → (check.label = other.label ↔ check = other))) ∧
      let findings := (trialsIn tree directories).flatMap (·.findings)
      (∀ finding ∈ findings, finding.check.fault? = none) → ∀ finding ∈ findings,
        Rates.row? (summaryOf tree directories).rates finding.label = some {
          label := finding.label
          passed := findings.countP fun other => other.check.Alike finding.check && other.passed
          total := findings.countP (·.check.Alike finding.check) } := by
  refine ⟨fun check other hcheck hother => ?_, fun hvalid finding hmem => ?_⟩
  · have hlabel := Check.label_eq_iff_alike hcheck hother
    exact ⟨hlabel, fun hspace hspace' => hlabel.trans (Check.alike_iff_eq hspace hspace')⟩
  · exact (counts_summaryOf tree directories).1.rates.row?_of_mem hvalid hmem

/-- One trial, with two action sequences that have the same words. -/
def labelsTree : FileTree :=
  ⟨[(["a"], .directory),
    (["a", "meta.json"],
      .file "[\"\",\"\",\"\",\"\",null,\"fail\",\"lost\",2,0,null,\"\",\"\",0,[]]".toUTF8),
    (["a", "checks.json"],
      .file "[[[\"action_sequence\",[\"push door\"],[\"push\"],false],
        [\"action_sequence\",[\"push\",\"door\"],[\"push\",\"door\"],true],
        [\"action_count\",\"push\",1,1,true]]]".toUTF8)]⟩

theorem findings_labelsTree :
    (trialsIn labelsTree ["a"]).flatMap (·.findings) =
      [.actionSequence ["push door"] ["push"] false,
        .actionSequence ["push", "door"] ["push", "door"] true,
        .actionCount "push" 1 1 true] := by
  decide +kernel

/-- The count has a row of its own. -/
theorem labels_tell_apart_push :
    (Check.actionCount "push" 1).fault? = none ∧
      (Check.actionSequence ["push"]).fault? = none ∧
      (Check.actionCount "push" 1).label ≠ (Check.actionSequence ["push"]).label ∧
      Rates.row? (summaryOf labelsTree ["a"]).rates "action_count(push=1)" =
        some ⟨"action_count(push=1)", 1, 1⟩ := by
  have hunspaced : (Check.actionSequence ["push"]).Unspaced :=
    List.forall_mem_singleton.2 (by decide)
  have hcount : (Check.actionCount "push" 1).fault? = none := by decide +kernel
  have hsequence : (Check.actionSequence ["push"]).fault? = none := by decide +kernel
  have hdifferent : Check.actionCount "push" 1 ≠ .actionSequence ["push"] := by decide
  obtain ⟨hlabel, hrow⟩ := labels_tell_apart labelsTree ["a"]
  have hapart := (hlabel _ _ hcount hsequence).2 trivial hunspaced
  refine ⟨hcount, hsequence, fun hsame => hdifferent (hapart.1 hsame), ?_⟩
  have hname : (Finding.actionCount "push" 1 1 true).label = "action_count(push=1)" := by
    decide +kernel
  rw [findings_labelsTree] at hrow
  have hfinding := hrow (by decide +kernel) (.actionCount "push" 1 1 true) (by decide)
  rw [hname] at hfinding
  exact hfinding

/-- One name with a blank is taken for two names: the rate is that of both. -/
theorem spaced_names_share_row :
    (Check.actionSequence ["push door"]).fault? = none ∧
      (Check.actionSequence ["push", "door"]).fault? = none ∧
      Check.actionSequence ["push door"] ≠ .actionSequence ["push", "door"] ∧
      (Check.actionSequence ["push door"]).label = (Check.actionSequence ["push", "door"]).label ∧
      Rates.row? (summaryOf labelsTree ["a"]).rates "action_sequence(push door)" =
        some ⟨"action_sequence(push door)", 1, 2⟩ := by
  refine ⟨by decide +kernel, by decide +kernel, by decide, by decide +kernel, ?_⟩
  rw [(counts_summaryOf labelsTree ["a"]).1.rates.rows, findings_labelsTree]
  decide +kernel

end SlipStack.Eval
