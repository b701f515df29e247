import Mathlib.Data.String.Basic
import SlipStack.Eval.Perform
import SlipStack.Proofs.Eval.Truth
import SlipStack.Proofs.Files.Listing

/-!
# Finding cases

The cases that are found in a directory are sorted by their identifiers. Whether identifiers are
distinct is found out by looking at neighbours only, which is enough because equal ones stand side
by side (`sortCases_eq_ok`). So cases in another order are sorted into the same list, or the same
identifier is found to stand twice (`sortCases_perm`).

A directory lists its files in no particular order, and that is the only place where an order comes
in. So it cannot be seen in what is found (`discovery_unordered`).
-/

namespace SlipStack.Eval

/-! ## Sorting -/

/-- The cases stand in strictly ascending order of their identifiers. -/
def Ascending (cases : List (String × Case)) : Prop :=
  cases.Pairwise fun earlier later => earlier.2.id < later.2.id

/-- The identifiers of cases. -/
def idsOf (cases : List (String × Case)) : List String :=
  cases.map (·.2.id)

/-- The first text that stands in front of an equal one. -/
def repeated? (texts : List String) : Option String :=
  ((texts.zip (texts.drop 1)).find? fun (first, second) => first = second).map Prod.fst

theorem repeated?_cons_cons (first second : String) (rest : List String) :
    repeated? (first :: second :: rest) =
      if first = second then some first else repeated? (second :: rest) := by
  by_cases h : first = second <;> simp [repeated?, h]

/-- In sorted texts, neighbours that differ are enough for all to differ. -/
theorem repeated?_eq_none {texts : List String} (h : texts.Pairwise (· ≤ ·)) :
    repeated? texts = none ↔ texts.Pairwise (· < ·) := by
  rw [← List.isChain_iff_pairwise] at h ⊢
  induction texts with
  | nil => simp [repeated?]
  | cons first rest ih =>
    cases rest with
    | nil => simp [repeated?]
    | cons second rest =>
      obtain ⟨hle, hrest⟩ := List.isChain_cons_cons.1 h
      rw [repeated?_cons_cons, List.isChain_cons_cons, ← ih hrest]
      by_cases heq : first = second
      · simp [heq]
      · simp [heq, lt_of_le_of_ne hle heq]

variable {cases cases' found : List (String × Case)}

/-- The cases in the order of their identifiers, equal ones side by side. -/
def sorted (cases : List (String × Case)) : List (String × Case) :=
  cases.mergeSort fun a b => a.2.id ≤ b.2.id

/-- Sorting loses no case and adds none. -/
theorem sorted_perm (cases : List (String × Case)) : (sorted cases).Perm cases :=
  List.mergeSort_perm _ _

/-- After sorting, the identifiers do not descend. They ascend strictly only if no two of them are
the same. -/
theorem pairwise_idsOf_sorted (cases : List (String × Case)) :
    (idsOf (sorted cases)).Pairwise (· ≤ ·) := by
  rw [idsOf, List.pairwise_map]
  refine (List.pairwise_mergeSort (fun a b c hab hbc => ?_) (fun a b => ?_) cases).imp
    of_decide_eq_true
  · exact decide_eq_true (le_trans (of_decide_eq_true hab) (of_decide_eq_true hbc))
  · simpa using le_total a.2.id b.2.id

/-- What is refused is told by the identifiers alone. -/
theorem sortCases_eq (cases : List (String × Case)) :
    sortCases cases = match repeated? (idsOf (sorted cases)) with
      | some id => .error (Failure.of (.duplicateCase id))
      | none => .ok (sorted cases) := by
  have hrepeated : repeated? (idsOf (sorted cases)) =
      (((sorted cases).zip ((sorted cases).drop 1)).find? fun pair => pair.1.2.id = pair.2.2.id).map
        (·.1.2.id) := by
    rw [repeated?, idsOf, ← List.map_drop, List.zip_map, List.find?_map, Option.map_map]
    rfl
  rw [hrepeated, sortCases]
  dsimp only
  rw [← sorted]
  generalize List.find? _ _ = neighbours
  cases neighbours with
  | none => rfl
  | some pair => rfl

theorem Ascending.nodup_idsOf (h : Ascending found) : (idsOf found).Nodup :=
  List.pairwise_map.2 (h.imp ne_of_lt)

/-- Sorting succeeds with the same cases in ascending order, if they have one. -/
theorem sortCases_eq_ok : sortCases cases = .ok found ↔ found.Perm cases ∧ Ascending found := by
  have hle := pairwise_idsOf_sorted cases
  rw [sortCases_eq]
  constructor
  · intro h
    split at h
    · cases h
    · rename_i hnone
      cases h
      exact ⟨sorted_perm cases, List.pairwise_map.1 ((repeated?_eq_none hle).1 hnone)⟩
  · rintro ⟨hperm, hascending⟩
    have hall : (sorted cases).Perm found := (sorted_perm cases).trans hperm.symm
    have hsorted : sorted cases = found := by
      refine List.Perm.eq_of_pairwise ?_ (List.pairwise_map.1 hle)
        (hascending.imp le_of_lt) hall
      intro a b ha hb hab hba
      exact List.inj_on_of_nodup_map hascending.nodup_idsOf (hall.mem_iff.1 ha) hb
        (le_antisymm hab hba)
    rw [(repeated?_eq_none hle).2 (hsorted ▸ List.pairwise_map.2 hascending), hsorted]

/-- Sorting fails exactly if identifiers are not distinct. -/
theorem exists_sortCases_eq_error :
    (∃ failure, sortCases cases = .error failure) ↔ ¬ (idsOf cases).Nodup := by
  have hids : (idsOf (sorted cases)).Perm (idsOf cases) := (sorted_perm cases).map _
  have hle := pairwise_idsOf_sorted cases
  constructor
  · rintro ⟨failure, hfailure⟩ hnodup
    have hlt : (idsOf (sorted cases)).Pairwise (· < ·) :=
      (hle.and (hids.nodup_iff.2 hnodup)).imp fun h => lt_of_le_of_ne h.1 h.2
    rw [sortCases_eq, (repeated?_eq_none hle).2 hlt] at hfailure
    cases hfailure
  · intro hrepeats
    cases h : sortCases cases with
    | error failure => exact ⟨failure, rfl⟩
    | ok found =>
      obtain ⟨hperm, hascending⟩ := sortCases_eq_ok.1 h
      exact absurd ((hperm.map _).nodup_iff.1 hascending.nodup_idsOf) hrepeats

/-- The order of the cases makes no difference, neither to the list nor to the failure. -/
theorem sortCases_perm (h : cases'.Perm cases) : sortCases cases' = sortCases cases := by
  cases hfound : sortCases cases with
  | ok found =>
    obtain ⟨hperm, hascending⟩ := sortCases_eq_ok.1 hfound
    exact sortCases_eq_ok.2 ⟨hperm.trans h.symm, hascending⟩
  | error failure =>
    have hids : idsOf (sorted cases') = idsOf (sorted cases) := by
      refine List.Perm.eq_of_pairwise (fun _ _ _ _ => le_antisymm) (pairwise_idsOf_sorted cases')
        (pairwise_idsOf_sorted cases) (List.Perm.map _ ?_)
      exact ((sorted_perm cases').trans h).trans (sorted_perm cases).symm
    rw [sortCases_eq] at hfound ⊢
    rw [hids]
    split at hfound
    · exact hfound
    · cases hfound

/-! ## Reading the files -/

/-- The cases in the files at the paths, with their paths. -/
def loaded (source : Source) (paths : List String) : List (String × Case) :=
  paths.filterMap fun path => (Case.load source path).toOption.map (path, ·)

variable {source : Source} {paths : List String} {path : String} {case : Case}

/-- The loaded cases are those that loading gives for one of the paths, each with its path. -/
theorem mem_loaded :
    (path, case) ∈ loaded source paths ↔ path ∈ paths ∧ Case.load source path = .ok case := by
  rw [loaded, List.mem_filterMap]
  constructor
  · rintro ⟨path', hpath, h⟩
    obtain ⟨case', hcase, heq⟩ := Option.map_eq_some_iff.1 h
    cases heq
    refine ⟨hpath, ?_⟩
    cases hload : Case.load source path with
    | error e => simp [hload, Except.toOption] at hcase
    | ok case' =>
      rw [hload] at hcase
      exact congrArg _ (Option.some.inj hcase)
  · rintro ⟨hpath, hload⟩
    exact ⟨path, hpath, by simp [hload, Except.toOption]⟩

theorem loaded_cons (h : Case.load source path = .ok case) (paths : List String) :
    loaded source (path :: paths) = (path, case) :: loaded source paths :=
  List.filterMap_cons_some (by simp [h, Except.toOption])

/-- If every path loads, loading them in their order gives the loaded cases and no error. -/
theorem mapM_load (h : ∀ path ∈ paths, ∃ case, Case.load source path = .ok case) :
    (paths.mapM fun path => (Case.load source path).map (path, ·)) =
      .ok (loaded source paths) := by
  induction paths with
  | nil => rfl
  | cons path paths ih =>
    obtain ⟨⟨case, hcase⟩, hpaths⟩ := List.forall_mem_cons.1 h
    rw [List.mapM_cons, ih hpaths, hcase, loaded_cons hcase]
    rfl

theorem map_fst_loaded (h : ∀ path ∈ paths, ∃ case, Case.load source path = .ok case) :
    (loaded source paths).map Prod.fst = paths := by
  induction paths with
  | nil => rfl
  | cons path paths ih =>
    obtain ⟨⟨case, hcase⟩, hpaths⟩ := List.forall_mem_cons.1 h
    rw [loaded_cons hcase, List.map_cons, ih hpaths]

/-! ## Directories -/

/-- The paths of the settings files among the names in a directory. -/
def casePaths (directory : String) (names : List String) : List String :=
  (names.filter fun name => Path.extension? name = some "toml").map (Path.join directory)

/-- The directory lists a settings file that has the path. -/
def IsCaseFile (tree : FileTree) (directory path : String) : Prop :=
  ∃ names, tree.list directory = .ok names ∧ path ∈ casePaths directory names

/-- The directory lists such a file, with this case in it. -/
def HoldsCase (tree : FileTree) (directory path : String) (case : Case) : Prop :=
  IsCaseFile tree directory path ∧ Case.load tree.source path = .ok case

variable {tree tree' : FileTree} {directory : String} {names : List String}

/-- If all documents of a directory that can be listed load, discovery comes down to sorting what
they hold. -/
theorem discover_eq_sortCases (hlist : tree.list directory = .ok names)
    (hloads : ∀ path ∈ casePaths directory names, ∃ case, Case.load tree.source path = .ok case) :
    discover tree directory = sortCases (loaded tree.source (casePaths directory names)) := by
  have hmap := mapM_load hloads
  rw [casePaths] at hmap
  rw [discover, FileTree.exists?_of_list hlist, hlist]
  simp only [Bool.not_true, Bool.false_eq_true, if_false, Except.mapError, bind, Except.bind]
  rw [hmap]
  rfl

/-- In a proper tree no two documents found in a directory have the same path. -/
theorem nodup_casePaths (hproper : tree.Proper) (hlist : tree.list directory = .ok names) :
    (casePaths directory names).Nodup := by
  refine List.Nodup.map_on (fun name hname other hother hjoin => ?_)
    ((FileTree.nodup_list hproper hlist).filter _)
  have hplain : ∀ name ∈ names, Path.IsPlain name :=
    fun name hname => FileTree.plain_of_list hproper hlist hname
  exact Path.join_inj (hplain name (List.mem_filter.1 hname).1).1
    (hplain other (List.mem_filter.1 hother).1).1 hjoin

/-- Files with paths of their own cannot be told apart by the identifiers if two of them have the
same one. -/
theorem not_nodup_idsOf (h : (cases.map Prod.fst).Nodup) :
    ¬ (idsOf cases).Nodup ↔
      ∃ a ∈ cases, ∃ b ∈ cases, a.1 ≠ b.1 ∧ a.2.id = b.2.id := by
  rw [idsOf, List.nodup_map_iff_inj_on (List.Nodup.of_map _ h)]
  push Not
  constructor
  · rintro ⟨a, ha, b, hb, hid, hne⟩
    exact ⟨a, ha, b, hb, fun hpath => hne (List.inj_on_of_nodup_map h ha hb hpath), hid⟩
  · rintro ⟨a, ha, b, hb, hpath, hid⟩
    exact ⟨a, ha, b, hb, hid, fun heq => hpath (congrArg Prod.fst heq)⟩

theorem discover_of_not_exists (h : tree.exists? directory = false) :
    discover tree directory = .ok [] := by
  rw [discover, h]
  rfl

/-- Another order of the entries is another order of the paths. -/
theorem discover_reorders (hproper : tree.Proper) (horder : tree.Reorders tree')
    (hlist : tree.list directory = .ok names)
    (hloads : ∀ path ∈ casePaths directory names, ∃ case, Case.load tree.source path = .ok case) :
    discover tree' directory = discover tree directory := by
  obtain ⟨names', hlist', hnames⟩ := horder.exists_list hproper hlist
  have hpaths : (casePaths directory names').Perm (casePaths directory names) :=
    (hnames.filter _).map _
  have hsource := horder.source_eq hproper
  have hloads' : ∀ path ∈ casePaths directory names',
      ∃ case, Case.load tree'.source path = .ok case := by
    rw [hsource]
    exact fun path hpath => hloads path (hpaths.mem_iff.1 hpath)
  rw [discover_eq_sortCases hlist' hloads', discover_eq_sortCases hlist hloads, hsource]
  exact sortCases_perm (hpaths.filterMap _)

/-- The cases in a directory are found in the same way whatever the order in which it lists them,
if all of them can be loaded. Finding them fails exactly if two of them have the same identifier,
and otherwise each of them is found once, in ascending order. -/
theorem discovery_unordered {tree tree' : FileTree} {directory : String} (hproper : tree.Proper)
    (horder : tree.Reorders tree') (hplace : ∀ bytes, tree.stat directory ≠ .ok (.file bytes))
    (hloads : ∀ path, IsCaseFile tree directory path →
      ∃ case, Case.load tree.source path = .ok case) :
    ((∃ failure, discover tree directory = .error failure) ↔
      ∃ path case other case', HoldsCase tree directory path case ∧
        HoldsCase tree directory other case' ∧ path ≠ other ∧ case.id = case'.id) ∧
    (∀ cases, discover tree directory = .ok cases →
      (∀ path case, (path, case) ∈ cases ↔ HoldsCase tree directory path case) ∧
      (cases.map Prod.fst).Nodup ∧ Ascending cases) ∧
    discover tree' directory = discover tree directory := by
  -- A directory that is not there holds no case, which is no error.
  cases hexists : tree.exists? directory with
  | false =>
    have hnone : ∀ path case, ¬ HoldsCase tree directory path case := by
      rintro path case ⟨⟨names, hlist, -⟩, -⟩
      rw [FileTree.exists?_of_list hlist] at hexists
      cases hexists
    have hexists' : tree'.exists? directory = false := by
      rw [horder.exists?_eq hproper, hexists]
    rw [discover_of_not_exists hexists, discover_of_not_exists hexists']
    refine ⟨by simp [hnone], fun cases hcases => ?_, rfl⟩
    cases hcases
    exact ⟨by simp [hnone], List.nodup_nil, List.Pairwise.nil⟩
  | true =>
    obtain ⟨names, hlist⟩ := FileTree.exists_list_of_stat hexists hplace
    have hfile : ∀ path, IsCaseFile tree directory path ↔ path ∈ casePaths directory names := by
      simp [IsCaseFile, hlist]
    simp only [hfile] at hloads
    -- From here on the cases are those loaded from the listing, and only sorting is left.
    have hholds : ∀ path case, (path, case) ∈ loaded tree.source (casePaths directory names) ↔
        HoldsCase tree directory path case :=
      fun path case => mem_loaded.trans (and_congr_left' (hfile path).symm)
    have hnodup : ((loaded tree.source (casePaths directory names)).map Prod.fst).Nodup := by
      rw [map_fst_loaded hloads]
      exact nodup_casePaths hproper hlist
    refine ⟨?_, fun cases hcases => ?_, discover_reorders hproper horder hlist hloads⟩
    · rw [discover_eq_sortCases hlist hloads, exists_sortCases_eq_error, not_nodup_idsOf hnodup]
      simp only [Prod.exists, hholds, exists_and_left]
    · rw [discover_eq_sortCases hlist hloads] at hcases
      obtain ⟨hperm, hascending⟩ := sortCases_eq_ok.1 hcases
      exact ⟨fun path case => hperm.mem_iff.trans (hholds path case),
        (hperm.map _).nodup_iff.2 hnodup, hascending⟩

/-! ## Two cases in a directory -/

def gateSettings : String :=
  textOfLines
    ["[case]", "id = \"gate\"", "description = \"leave the gate alone\"", "plan = \"gate.lap\"",
      "[[checks]]", "type = \"steps_at_most\"", "steps = 3"]

/-- The case in `gateSettings`. -/
def gateCase : Case where
  id := "gate"
  description := "leave the gate alone"
  plan := "gate.lap"
  maxSteps := none
  stopOnLost := none
  script := ⟨[]⟩
  checks := [.stepsAtMost 3]

/-- A directory that lists the gate before the door. -/
def gateFirst : FileTree :=
  ⟨[(["cases"], .directory), (["cases", "gate.toml"], .file gateSettings.toUTF8),
    (["cases", "notes"], .file "".toUTF8), (["cases", "door.toml"], .file doorSettings.toUTF8)]⟩

/-- The same files, listed the other way round. -/
def doorFirst : FileTree := ⟨gateFirst.entries.reverse⟩

theorem load_gateFirst :
    Case.load gateFirst.source "cases/gate.toml" = .ok gateCase ∧
      Case.load gateFirst.source "cases/door.toml" = .ok doorCase := by
  have hgate : Case.ofToml gateSettings = .ok gateCase := by
    rw [Case.ofToml, Toml.load, Toml.read?, gateSettings, textOfLines, String.toList_ofList]
    decide +kernel
  have hpaths : gateFirst.resolve "cases/gate.toml" = .ok (.inside ["cases", "gate.toml"]) ∧
      gateFirst.resolve "cases/door.toml" = .ok (.inside ["cases", "door.toml"]) := by
    decide +kernel
  have hread : gateFirst.read "cases/gate.toml" = .ok gateSettings.toUTF8 ∧
      gateFirst.read "cases/door.toml" = .ok doorSettings.toUTF8 := by
    refine ⟨FileTree.read_eq_ok.2 ⟨_, hpaths.1, ?_⟩, FileTree.read_eq_ok.2 ⟨_, hpaths.2, ?_⟩⟩ <;>
      simp [FileTree.contentAt?, FileTree.content?, gateFirst]
  exact ⟨Case.load_eq_ok.2 ⟨gateSettings, FileTree.text_of_read hread.1, hgate⟩,
    Case.load_eq_ok.2 ⟨doorSettings, FileTree.text_of_read hread.2, ofToml_doorSettings⟩⟩

/-- The names in the directory, and which of them are those of cases. -/
theorem list_gateFirst :
    gateFirst.list "cases" = .ok ["gate.toml", "notes", "door.toml"] ∧
      casePaths "cases" ["gate.toml", "notes", "door.toml"] =
        ["cases/gate.toml", "cases/door.toml"] := by
  refine ⟨FileTree.list_eq_ok.2 ⟨.inside ["cases"], by decide +kernel, ?_, ?_⟩, by decide +kernel⟩
  · simp [FileTree.contentAt?, FileTree.content?, gateFirst]
  · simp [FileTree.names, gateFirst]

/-- The door is found before the gate, whichever is listed first. -/
theorem discovery_unordered_gate :
    gateFirst.Proper ∧ gateFirst.Reorders doorFirst ∧
      (∀ bytes, gateFirst.stat "cases" ≠ .ok (.file bytes)) ∧
      (∀ path, IsCaseFile gateFirst "cases" path →
        ∃ case, Case.load gateFirst.source path = .ok case) ∧
      discover gateFirst "cases" =
        .ok [("cases/door.toml", doorCase), ("cases/gate.toml", gateCase)] ∧
      discover doorFirst "cases" = discover gateFirst "cases" := by
  have hproper : gateFirst.Proper := by decide +kernel
  have horder : gateFirst.Reorders doorFirst := List.reverse_perm _
  obtain ⟨hgate, hdoor⟩ := load_gateFirst
  obtain ⟨hlist, hpaths⟩ := list_gateFirst
  have hplace : ∀ bytes, gateFirst.stat "cases" ≠ .ok (.file bytes) := by
    intro bytes hfile
    cases (FileTree.stat_of_list hlist).symm.trans hfile
  have hloads : ∀ path ∈ casePaths "cases" ["gate.toml", "notes", "door.toml"],
      ∃ case, Case.load gateFirst.source path = .ok case := by
    rw [hpaths]
    exact List.forall_mem_cons.2 ⟨⟨_, hgate⟩, List.forall_mem_singleton.2 ⟨_, hdoor⟩⟩
  have hfiles : ∀ path, IsCaseFile gateFirst "cases" path →
      ∃ case, Case.load gateFirst.source path = .ok case := by
    rintro path ⟨names, hnames, hpath⟩
    cases hlist.symm.trans hnames
    exact hloads path hpath
  have hfound : discover gateFirst "cases" =
      .ok [("cases/door.toml", doorCase), ("cases/gate.toml", gateCase)] := by
    rw [discover_eq_sortCases hlist hloads, hpaths, loaded_cons hgate, loaded_cons hdoor]
    refine sortCases_eq_ok.2 ⟨List.Perm.swap _ _ _, ?_⟩
    exact List.pairwise_pair.2 (by decide)
  exact ⟨hproper, horder, hplace, hfiles, hfound,
    (discovery_unordered hproper horder hplace hfiles).2.2⟩

end SlipStack.Eval
