import Mathlib.Data.List.Induction
import Mathlib.Data.List.Perm.Basic
import Mathlib.Data.String.Basic
import SlipStack.Eval.Summary

/-!
# What the totals of a summary count

A summary counts each trial that can be read once in each group of its counters, and nothing of the
others. This is what adding one trial keeps (`Summary.Counts.add`), so it holds of a whole summary
(`counts_summaryOf`). The rates are a map from labels to counts (`Rates.Tallies`): a finding
changes the row of its own label and no other (`Rates.row?_count`), and the rows stand in the order
of their labels, so findings in another order leave the same rows (`Rates.Tallies.unique`).

Therefore no trial is lost or counted twice, and the order in which trials are read is of no account
(`totals_conserved`).
-/

namespace SlipStack.Eval

open Summary (count countAll tally)

/-! ## Rates -/

namespace Rates

/-- The rows stand in ascending order of their labels. -/
def Ascending (rates : List Rate) : Prop :=
  rates.Pairwise fun rate other => rate.label < other.label

/-- The row of a label. -/
def row? (rates : List Rate) (label : String) : Option Rate :=
  rates.find? (·.label = label)

/-- The row of a label after one more finding. -/
def raise (label : String) (passed : Bool) : Option Rate → Rate
  | none => ⟨label, tally passed, 1⟩
  | some rate => { rate with passed := rate.passed + tally passed, total := rate.total + 1 }

/-- The row that a label should have: how many of the findings with that label passed, and how many
there are. A label without findings has none. -/
def rowOf? (findings : List Finding) (label : String) : Option Rate :=
  if findings.countP (·.label = label) = 0 then none
  else some {
    label := label
    passed := findings.countP fun finding => finding.label = label && finding.passed
    total := findings.countP (·.label = label) }

variable {rates rates' : List Rate} {label other : String} {passed : Bool}

theorem count_nil (label : String) (passed : Bool) :
    count label passed [] = [raise label passed none] :=
  rfl

theorem count_cons (label : String) (passed : Bool) (rate : Rate) (rest : List Rate) :
    count label passed (rate :: rest) =
      if rate.label = label then raise label passed (some rate) :: rest
      else if label < rate.label then raise label passed none :: rate :: rest
      else rate :: count label passed rest :=
  rfl

@[simp] theorem label_raise_some (rate : Rate) :
    (raise label passed (some rate)).label = rate.label := rfl

/-- The row of a label is the first that has it; with ascending labels it is the only one. -/
theorem row?_cons (rate : Rate) (rates : List Rate) (label : String) :
    row? (rate :: rates) label = if label = rate.label then some rate else row? rates label := by
  by_cases h : label = rate.label
  · simp [row?, h]
  · simp [row?, h, Ne.symm h]

/-- A label below those of all rows has no row. -/
theorem row?_eq_none (h : ∀ rate ∈ rates, label < rate.label) : row? rates label = none := by
  rw [row?, List.find?_eq_none]
  intro rate hrate
  simpa using (h rate hrate).ne'

/-- One more finding changes the row of its label and no other. -/
theorem row?_count (h : Ascending rates) :
    row? (count label passed rates) other =
      if other = label then some (raise label passed (row? rates label)) else row? rates other := by
  induction rates with
  | nil =>
    rw [count_nil, row?_cons]
    rfl
  | cons rate rest ih =>
    obtain ⟨hrate, hrest⟩ := List.pairwise_cons.1 h
    rw [count_cons]
    split
    · -- The label has a row, and it is the first one.
      rename_i hsame
      subst hsame
      by_cases hother : other = rate.label <;> simp [row?_cons, hother]
    · rename_i hdifferent
      split
      · -- The label has no row, and those that have are greater.
        rename_i hless
        have hnone : row? (rate :: rest) label = none :=
          row?_eq_none (List.forall_mem_cons.2
            ⟨hless, fun row hrow => hless.trans (hrate row hrow)⟩)
        rw [row?_cons, hnone]
        rfl
      · rw [row?_cons, ih hrest, row?_cons, row?_cons, if_neg (Ne.symm hdifferent)]
        by_cases hother : other = label
        · simp [hother, Ne.symm hdifferent]
        · simp [hother]

/-- Counting a finding makes at most one new row, whose label is that of the finding. -/
theorem label_of_mem_count {row : Rate} (h : row ∈ count label passed rates) :
    row.label = label ∨ ∃ rate ∈ rates, row.label = rate.label := by
  induction rates with
  | nil => exact .inl (congrArg Rate.label (List.mem_singleton.1 h))
  | cons rate rest ih =>
    rw [count_cons] at h
    split at h
    · rcases List.mem_cons.1 h with rfl | hrow
      · exact .inr ⟨rate, List.mem_cons_self, rfl⟩
      · exact .inr ⟨row, List.mem_cons_of_mem _ hrow, rfl⟩
    · split at h
      · rcases List.mem_cons.1 h with rfl | hrow
        · exact .inl rfl
        · exact .inr ⟨row, hrow, rfl⟩
      · rcases List.mem_cons.1 h with rfl | hrow
        · exact .inr ⟨row, List.mem_cons_self, rfl⟩
        · exact (ih hrow).imp_right fun ⟨other, hother, hlabel⟩ =>
            ⟨other, List.mem_cons_of_mem _ hother, hlabel⟩

/-- Counting keeps the rows ascending, with a new row put where its label belongs. -/
theorem Ascending.count (h : Ascending rates) : Ascending (count label passed rates) := by
  induction rates with
  | nil => exact List.pairwise_singleton _ _
  | cons rate rest ih =>
    obtain ⟨hrate, hrest⟩ := List.pairwise_cons.1 h
    rw [count_cons]
    split
    · exact List.pairwise_cons.2 ⟨hrate, hrest⟩
    · rename_i hdifferent
      split
      · rename_i hless
        refine List.pairwise_cons.2 ⟨List.forall_mem_cons.2 ⟨hless, fun row hrow => ?_⟩, h⟩
        exact hless.trans (hrate row hrow)
      · rename_i hnotless
        have habove : rate.label < label := lt_of_le_of_ne (not_lt.1 hnotless) hdifferent
        refine List.pairwise_cons.2 ⟨fun row hrow => ?_, ih hrest⟩
        rcases label_of_mem_count hrow with hlabel | ⟨other, hother, hlabel⟩
        · exact hlabel ▸ habove
        · exact hlabel ▸ hrate other hother

/-! ### Rates of findings -/

/-- The rates are those of the findings. -/
structure Tallies (rates : List Rate) (findings : List Finding) : Prop where
  ascending : Ascending rates
  rows : ∀ label, row? rates label = rowOf? findings label

variable {findings findings' : List Finding}

/-- Not more findings with a label passed than there are. -/
theorem countP_passed_le (findings : List Finding) (label : String) :
    findings.countP (fun finding => finding.label = label && finding.passed) ≤
      findings.countP (·.label = label) :=
  List.countP_mono_left fun _ _ h => (Bool.and_eq_true_iff.1 h).1

/-- One more finding changes the row of its own label and no other. -/
theorem rowOf?_append (findings : List Finding) (finding : Finding) (other : String) :
    rowOf? (findings ++ [finding]) other =
      if other = finding.label then
        some (raise finding.label finding.passed (rowOf? findings finding.label))
      else rowOf? findings other := by
  simp only [rowOf?, List.countP_append, List.countP_singleton]
  by_cases hother : other = finding.label
  · subst hother
    have hpassed := countP_passed_le findings finding.label
    by_cases hnone : findings.countP (·.label = finding.label) = 0
    · rw [hnone, Nat.le_zero] at hpassed
      simp [hnone, hpassed, raise, tally]
    · simp [hnone, raise, tally]
  · simp [hother, Ne.symm hother]

/-- Rows that tally some findings tally, after more are counted, all of them. The induction is on
the findings that are added. -/
theorem Tallies.countAll (h : Tallies rates findings) (more : List Finding) :
    Tallies (countAll rates more) (findings ++ more) := by
  induction more generalizing rates findings with
  | nil => simpa [Summary.countAll] using h
  | cons finding more ih =>
    have hone : Tallies (Summary.count finding.label finding.passed rates)
        (findings ++ [finding]) := by
      refine ⟨h.ascending.count, fun label => ?_⟩
      rw [row?_count h.ascending, rowOf?_append, h.rows, h.rows]
    simpa [Summary.countAll] using ih hone

/-- The order of findings does not matter for the row of a label, as rows hold sums only. -/
theorem rowOf?_perm (h : findings.Perm findings') : rowOf? findings = rowOf? findings' := by
  funext label
  simp only [rowOf?, h.countP_eq]

/-- With ascending labels a row is in the list exactly if it is found under its label. -/
theorem mem_iff_row? (h : Ascending rates) {rate : Rate} :
    rate ∈ rates ↔ row? rates rate.label = some rate := by
  refine ⟨fun hmem => ?_, List.mem_of_find?_eq_some⟩
  induction rates with
  | nil => cases hmem
  | cons first rest ih =>
    obtain ⟨hfirst, hrest⟩ := List.pairwise_cons.1 h
    rw [row?_cons]
    rcases List.mem_cons.1 hmem with rfl | hrate
    · rw [if_pos rfl]
    · rw [if_neg (hfirst rate hrate).ne', ih hrest hrate]

/-- The same findings in another order have the same rates. -/
theorem Tallies.unique (h : Tallies rates findings) (h' : Tallies rates' findings')
    (hperm : findings.Perm findings') : rates = rates' := by
  have hrow : row? rates = row? rates' := by
    funext label
    rw [h.rows, h'.rows, rowOf?_perm hperm]
  have hmem (rate : Rate) : rate ∈ rates ↔ rate ∈ rates' := by
    rw [mem_iff_row? h.ascending, mem_iff_row? h'.ascending, hrow]
  have hnodup {rows : List Rate} (hrows : Ascending rows) : rows.Nodup :=
    hrows.imp fun hless hsame => hless.ne (congrArg Rate.label hsame)
  refine List.Perm.eq_of_pairwise (fun _ _ _ _ hless hgreater => ?_) h.ascending h'.ascending
    ((List.perm_ext_iff_of_nodup (hnodup h.ascending) (hnodup h'.ascending)).2 hmem)
  exact absurd hgreater hless.not_gt

end Rates

/-! ## Summaries -/

/-- The verdict that a trial counts under. -/
def Recorded.verdict (trial : Recorded) : Verdict :=
  trial.record.verdict.getD .error

namespace Summary

/-- The summary is the one of the trials, as far as it counts them. -/
structure Counts (summary : Summary) (trials : List Recorded) : Prop where
  runs : summary.runs = trials.length
  success : summary.success = trials.countP (·.verdict = .success)
  fail : summary.fail = trials.countP (·.verdict = .fail)
  error : summary.error = trials.countP (·.verdict = .error)
  won : summary.won = trials.countP (·.record.stop = some .won)
  lost : summary.lost = trials.countP (·.record.stop = some .lost)
  stepLimit : summary.stepLimit = trials.countP (·.record.stop = some .stepLimit)
  rates : Rates.Tallies summary.rates (trials.flatMap (·.findings))

/-- A summary without its averages, which depend on the order of the trials by their rounding. -/
def counters (summary : Summary) : Summary :=
  { summary with averageSteps := none, averageDuration := none }

variable {summary summary' : Summary} {trials trials' : List Recorded}

theorem countP_append_tally {α : Type} (p : α → Bool) (xs : List α) (x : α) :
    (xs ++ [x]).countP p = xs.countP p + tally (p x) := by
  rw [List.countP_append, List.countP_singleton, tally]

/-- The summary of no trial counts none. -/
theorem counts_empty : Counts empty [] :=
  ⟨rfl, rfl, rfl, rfl, rfl, rfl, rfl, List.Pairwise.nil, fun _ => rfl⟩

/-- One more trial is counted once in each group. -/
theorem Counts.add (h : Counts summary trials) (trial : Recorded) :
    Counts (summary.add trial) (trials ++ [trial]) where
  runs := by rw [List.length_append, ← h.runs]; rfl
  success := by rw [countP_append_tally, ← h.success]; rfl
  fail := by rw [countP_append_tally, ← h.fail]; rfl
  error := by rw [countP_append_tally, ← h.error]; rfl
  won := by rw [countP_append_tally, ← h.won]; rfl
  lost := by rw [countP_append_tally, ← h.lost]; rfl
  stepLimit := by rw [countP_append_tally, ← h.stepLimit]; rfl
  rates := by
    rw [List.flatMap_append, List.flatMap_singleton]
    exact h.rates.countAll trial.findings

/-- What is counted in just one of three ways is counted by the three together. -/
theorem countP_eq_add {α : Type} {p q r s : α → Bool}
    (h : ∀ x, tally (p x) = tally (q x) + tally (r x) + tally (s x)) (xs : List α) :
    xs.countP p = xs.countP q + xs.countP r + xs.countP s := by
  induction xs with
  | nil => rfl
  | cons x xs ih =>
    have hx := h x
    simp only [tally] at hx
    simp only [List.countP_cons]
    omega

/-- Each run that is counted has one of three verdicts, so the three numbers add up to that of the
runs. -/
theorem Counts.runs_eq (h : Counts summary trials) :
    summary.runs = summary.success + summary.fail + summary.error := by
  rw [h.runs, h.success, h.fail, h.error, ← List.countP_true]
  refine countP_eq_add (fun trial => ?_) trials
  cases trial.verdict <;> rfl

/-- The three ways to stop add up to the number of the runs that have stopped in one of them. -/
theorem Counts.stopped_eq (h : Counts summary trials) :
    summary.won + summary.lost + summary.stepLimit =
      trials.countP (·.record.stop.isSome) := by
  rw [h.won, h.lost, h.stepLimit]
  refine (countP_eq_add (fun trial => ?_) trials).symm
  rcases trial.record.stop with _ | _ | _ | _ <;> rfl

/-- No check has passed more often than it was made. -/
theorem Counts.passed_le (h : Counts summary trials) {rate : Rate} (hrate : rate ∈ summary.rates) :
    rate.passed ≤ rate.total := by
  rw [Rates.mem_iff_row? h.rates.ascending, h.rates.rows, Rates.rowOf?] at hrate
  split at hrate
  · cases hrate
  · rw [← Option.some.inj hrate]
    exact Rates.countP_passed_le _ _

/-- Trials in another order have the same counters. -/
theorem Counts.unique (h : Counts summary trials) (h' : Counts summary' trials')
    (hperm : trials.Perm trials') : summary.counters = summary'.counters := by
  have hrates := h.rates.unique h'.rates (hperm.flatMap_right _)
  simp only [counters, h.runs, h.success, h.fail, h.error, h.won, h.lost, h.stepLimit, hrates,
    h'.runs, h'.success, h'.fail, h'.error, h'.won, h'.lost, h'.stepLimit, hperm.length_eq,
    hperm.countP_eq]

end Summary

/-! ## Directories of trials -/

section Directories

variable (tree : FileTree)

/-- The trial that is recorded in a directory, if both documents of it can be read. -/
def recorded? (directory : String) : Option Recorded := do
  let record ← (readDocument tree directory "meta.json" Meta.ofData?).toOption
  let findings ← (readDocument tree directory "checks.json" findingsOfData?).toOption
  return ⟨record, findings⟩

theorem directory_of_error {α : Type} {directory file : String} {ofData? : Data → Option α}
    {warning : Skipped} (h : readDocument tree directory file ofData? = .error warning) :
    warning.directory = directory := by
  unfold readDocument at h
  split at h
  · cases h
    rfl
  · split at h
    · cases h
    · cases h
      rfl

/-- Either the trial is read, or there is a warning about its directory. -/
theorem readTrial_cases (directory : String) :
    (∃ trial, recorded? tree directory = some trial ∧ readTrial tree directory = .ok trial) ∨
      ∃ warning, recorded? tree directory = none ∧
        readTrial tree directory = .error warning ∧ warning.directory = directory := by
  rw [readTrial, recorded?]
  cases hrecord : readDocument tree directory "meta.json" Meta.ofData? with
  | error warning => exact .inr ⟨warning, rfl, rfl, directory_of_error tree hrecord⟩
  | ok record =>
    cases hfindings : readDocument tree directory "checks.json" findingsOfData? with
    | error warning => exact .inr ⟨warning, rfl, rfl, directory_of_error tree hfindings⟩
    | ok findings => exact .inl ⟨⟨record, findings⟩, rfl, rfl⟩

/-- One more trial, at the end, adds to the summary or to the warnings, depending on whether it
could be read. -/
theorem summarise_append (trials : List (Except Skipped Recorded)) :
    (∀ trial, summarise (trials ++ [.ok trial]) =
      ((summarise trials).1.add trial, (summarise trials).2)) ∧
    ∀ warning, summarise (trials ++ [.error warning]) =
      ((summarise trials).1, (summarise trials).2 ++ [warning]) := by
  constructor <;> intro last <;> rw [summarise, List.foldl_append] <;> rfl

variable (directories : List String)

/-- The trials recorded in directories, as far as they can be read. -/
def trialsIn : List Recorded :=
  directories.filterMap (recorded? tree)

/-- The summary of the trials recorded in directories. -/
def summaryOf : Summary :=
  (summarise (directories.map (readTrial tree))).1

/-- The warnings about directories that are left out of the summary. -/
def warningsOf : List Skipped :=
  (summarise (directories.map (readTrial tree))).2

/-- The trials that can be read are counted, and there is a warning for each other directory. -/
theorem counts_summaryOf :
    (summaryOf tree directories).Counts (trialsIn tree directories) ∧
      (warningsOf tree directories).map (·.directory) =
        directories.filter (recorded? tree · = none) := by
  rw [summaryOf, trialsIn, warningsOf]
  induction directories using List.reverseRecOn with
  | nil => exact ⟨Summary.counts_empty, rfl⟩
  | append_singleton directories directory ih =>
    obtain ⟨hcounts, hwarnings⟩ := ih
    obtain ⟨hok, herror⟩ := summarise_append (directories.map (readTrial tree))
    rw [List.map_append, List.filterMap_append, List.filter_append, List.map_singleton]
    rcases readTrial_cases tree directory with
      ⟨trial, hrecorded, hread⟩ | ⟨warning, hrecorded, hread, hdirectory⟩
    · rw [hread, hok]
      refine ⟨?_, ?_⟩
      · simpa [hrecorded] using hcounts.add trial
      · simpa [hrecorded] using hwarnings
    · rw [hread, herror]
      refine ⟨?_, ?_⟩
      · simpa [hrecorded] using hcounts
      · simpa [hrecorded, hdirectory] using hwarnings

/-- Every directory is accounted for, as a trial that could be read or as a warning. -/
theorem length_add_warnings :
    (trialsIn tree directories).length + (warningsOf tree directories).length =
      directories.length := by
  have hwarnings := congrArg List.length (counts_summaryOf tree directories).2
  rw [List.length_map, ← List.countP_eq_length_filter] at hwarnings
  rw [hwarnings, trialsIn, List.length_filterMap_eq_countP,
    List.length_eq_countP_add_countP fun directory => (recorded? tree directory).isSome]
  simp

end Directories

/-- The totals of directories, in some of which no trial can be read: each directory is counted as a
run or has a warning, each run has one verdict, each run that stopped for a reason has one, and the
row of a label says how many findings with that label the runs have and how many of them passed.
All this is the same in another order of the directories. -/
theorem totals_conserved (tree : FileTree) (directories : List String) :
    let summary := summaryOf tree directories
    let trials := trialsIn tree directories
    summary.runs = trials.length ∧
      summary.runs + (warningsOf tree directories).length = directories.length ∧
      summary.runs = summary.success + summary.fail + summary.error ∧
      summary.won + summary.lost + summary.stepLimit = trials.countP (·.record.stop.isSome) ∧
      (∀ label, Rates.row? summary.rates label =
        Rates.rowOf? (trials.flatMap (·.findings)) label) ∧
      summary.rates.all (fun rate => rate.passed ≤ rate.total) ∧
      ∀ directories', directories.Perm directories' →
        (summaryOf tree directories').counters = summary.counters := by
  intro summary trials
  have hcounts : summary.Counts trials := (counts_summaryOf tree directories).1
  refine ⟨hcounts.runs, ?_, hcounts.runs_eq, hcounts.stopped_eq, hcounts.rates.rows, ?_,
    fun directories' hperm => ?_⟩
  · rw [hcounts.runs]
    exact length_add_warnings tree directories
  · rw [List.all_eq_true]
    exact fun rate hrate => decide_eq_true (hcounts.passed_le hrate)
  · exact (counts_summaryOf tree directories').1.unique hcounts (hperm.symm.filterMap _)

/-- A directory with a trial that can be read, one without documents, and one without a trial. A
record may be written as the list of its fields. -/
def resultsTree : FileTree :=
  ⟨[(["a"], .directory), (["b"], .directory), (["b", "checks.json"], .file "{}".toUTF8),
    (["c"], .directory),
    (["c", "meta.json"],
      .file "[\"\",\"\",\"\",\"\",null,\"fail\",\"lost\",2,0,null,\"\",\"\",0,[]]".toUTF8),
    (["c", "checks.json"],
      .file "[[[\"steps_at_most\",5,2,true]]]".toUTF8)]⟩

/-- One of the three is counted, as lost, and so it is in another order. -/
theorem totals_conserved_results :
    (summaryOf resultsTree ["a", "b", "c"]).runs = 1 ∧
      (summaryOf resultsTree ["a", "b", "c"]).lost = 1 ∧
      Rates.row? (summaryOf resultsTree ["a", "b", "c"]).rates "steps_at_most(5)" =
        some ⟨"steps_at_most(5)", 1, 1⟩ ∧
      (warningsOf resultsTree ["a", "b", "c"]).length = 2 ∧
      ["a", "b", "c"].Perm ["c", "a", "b"] ∧
      (summaryOf resultsTree ["c", "a", "b"]).counters =
        (summaryOf resultsTree ["a", "b", "c"]).counters := by
  have hruns : (summaryOf resultsTree ["a", "b", "c"]).runs = 1 := by decide +kernel
  have hlost : (summaryOf resultsTree ["a", "b", "c"]).lost = 1 := by decide +kernel
  have hrow : Rates.row? (summaryOf resultsTree ["a", "b", "c"]).rates "steps_at_most(5)" =
      some ⟨"steps_at_most(5)", 1, 1⟩ := by decide +kernel
  have hperm : ["a", "b", "c"].Perm ["c", "a", "b"] := by decide
  have hthree : ["a", "b", "c"].length = 3 := rfl
  obtain ⟨-, hlength, -, -, -, -, horder⟩ := totals_conserved resultsTree ["a", "b", "c"]
  exact ⟨hruns, hlost, hrow, by omega, hperm, horder _ hperm⟩

end SlipStack.Eval
