import Mathlib.Data.List.Nodup
import Mathlib.Data.List.Perm.Basic
import SlipStack.Proofs.Files.Writing

/-!
# The order of a directory

A file tree keeps its entries in some order, in which a directory lists its names. If each location
stands once, that is all that the order is good for: a tree with the same entries in another order
(`FileTree.Reorders`) is the same to every path and every reading (`FileTree.Reorders.source_eq`),
and a directory lists the same names (`FileTree.Reorders.exists_list`), each of them once
(`FileTree.nodup_list`).
-/

namespace SlipStack

namespace Path

/-- Names without slashes are told apart by the paths that they have in the same directory. -/
theorem join_inj {directory name other : String} (hname : '/' ∉ name.toList)
    (hother : '/' ∉ other.toList) (h : join directory name = join directory other) :
    name = other := by
  obtain ⟨before, hbefore⟩ := exists_segments_join hname directory
  obtain ⟨before', hbefore'⟩ := exists_segments_join hother directory
  rw [h, hbefore'] at hbefore
  have hlast : [other.toList] = [name.toList] := (List.append_inj' hbefore rfl).2
  exact String.toList_inj.1 (List.singleton_inj.1 hlast).symm

end Path

namespace FileTree

variable {tree tree' : FileTree} {location : Location} {directory path name : String}
  {names : List String}

/-- Nothing is listed twice, and everything has a name that a path does not take apart. -/
structure Proper (tree : FileTree) : Prop where
  distinct : (tree.entries.map Prod.fst).Nodup
  plain : ∀ entry ∈ tree.entries, ∀ name ∈ entry.1, Path.IsPlain name

instance : DecidablePred Proper := fun tree =>
  decidable_of_iff
    ((tree.entries.map Prod.fst).Nodup ∧ ∀ entry ∈ tree.entries, ∀ name ∈ entry.1,
      Path.IsPlain name)
    ⟨fun h => ⟨h.1, h.2⟩, fun h => ⟨h.distinct, h.plain⟩⟩

/-- The second tree has the entries of the first, in whatever order. -/
def Reorders (tree tree' : FileTree) : Prop :=
  tree'.entries.Perm tree.entries

/-- With distinct locations, no entry stands in front of another one for the same. -/
theorem content?_eq_some (hproper : tree.Proper) (hne : location ≠ []) {content : Content} :
    tree.content? location = some content ↔ (location, content) ∈ tree.entries := by
  rw [content?, if_neg hne, Option.map_eq_some_iff]
  constructor
  · rintro ⟨⟨found, content'⟩, hfound, rfl⟩
    obtain rfl : found = location := by simpa using List.find?_some hfound
    exact List.mem_of_find?_eq_some hfound
  · intro hmem
    obtain ⟨entry, hfound⟩ : ∃ entry, tree.entries.find? (·.1 = location) = some entry :=
      Option.isSome_iff_exists.1 (List.find?_isSome.2 ⟨_, hmem, decide_eq_true rfl⟩)
    have hlocation : entry.1 = location := by simpa using List.find?_some hfound
    have hsame := List.inj_on_of_nodup_map hproper.distinct (List.mem_of_find?_eq_some hfound) hmem
      hlocation
    exact ⟨entry, hfound, congrArg Prod.snd hsame⟩

/-- A tree whose entries are listed in another order is proper too, as no entry is added or lost.
-/
theorem Reorders.proper (h : tree.Reorders tree') (hproper : tree.Proper) : tree'.Proper :=
  ⟨(h.map Prod.fst).nodup_iff.2 hproper.distinct,
    fun entry hentry => hproper.plain entry (h.mem_iff.1 hentry)⟩

theorem Reorders.content?_eq (h : tree.Reorders tree') (hproper : tree.Proper) :
    tree'.content? = tree.content? := by
  funext location
  by_cases hne : location = []
  · rw [content?, content?, if_pos hne, if_pos hne]
  · refine Option.ext fun content => ?_
    rw [content?_eq_some (h.proper hproper) hne, content?_eq_some hproper hne]
    exact h.mem_iff

theorem Reorders.contentAt?_eq (h : tree.Reorders tree') (hproper : tree.Proper) :
    tree'.contentAt? = tree.contentAt? := by
  funext place
  cases place with
  | above => rfl
  | inside location => exact congrFun (h.content?_eq hproper) location

/-- Paths lead to the same places, whatever the order in which entries are listed. -/
theorem Reorders.resolve_eq (h : tree.Reorders tree') (hproper : tree.Proper) :
    tree'.resolve = tree.resolve := by
  have hstep : tree'.step = tree.step := by
    funext place name
    unfold step
    rw [h.contentAt?_eq hproper]
  funext path
  rw [resolve, resolve, hstep]

theorem Reorders.stat_eq (h : tree.Reorders tree') (hproper : tree.Proper) :
    tree'.stat = tree.stat := by
  funext path
  rw [stat, stat, h.resolve_eq hproper, h.contentAt?_eq hproper]

theorem Reorders.exists?_eq (h : tree.Reorders tree') (hproper : tree.Proper) :
    tree'.exists? = tree.exists? := by
  funext path
  rw [exists?, exists?, h.stat_eq hproper]

/-- Whatever is read is the same. -/
theorem Reorders.source_eq (h : tree.Reorders tree') (hproper : tree.Proper) :
    tree'.source = tree.source := by
  have htext : tree'.readText = tree.readText := by
    funext path
    rw [readText, readText, read, read, h.stat_eq hproper]
  rw [source, source, htext, h.exists?_eq hproper]

/-- The names in a directory are the same ones, in the order of the other tree. -/
theorem Reorders.names_perm (h : tree.Reorders tree') (location : Location) :
    (tree'.names location).Perm (tree.names location) :=
  List.Perm.filterMap _ h

/-- A path can be listed exactly if it leads to a directory; above the root of the tree nothing is
listed. -/
theorem list_eq_ok : tree.list path = .ok names ↔
    ∃ place, tree.resolve path = .ok place ∧ tree.contentAt? place = some .directory ∧
      names = match place with
        | .inside location => tree.names location
        | .above => [] := by
  rw [list]
  cases tree.resolve path with
  | error e => simp
  | ok place =>
    cases place with
    | above => simp [contentAt?, eq_comm]
    | inside location =>
      cases hcontent : tree.content? location with
      | none => simp [contentAt?, hcontent]
      | some content => cases content <;> simp [contentAt?, hcontent, eq_comm]

/-- A directory lists the same names, in another order. -/
theorem Reorders.exists_list (h : tree.Reorders tree') (hproper : tree.Proper)
    (hlist : tree.list path = .ok names) :
    ∃ names', tree'.list path = .ok names' ∧ names'.Perm names := by
  obtain ⟨place, hresolve, hcontent, rfl⟩ := list_eq_ok.1 hlist
  rw [← h.resolve_eq hproper] at hresolve
  rw [← h.contentAt?_eq hproper] at hcontent
  refine ⟨_, list_eq_ok.2 ⟨place, hresolve, hcontent, rfl⟩, ?_⟩
  cases place with
  | above => exact .refl _
  | inside location => exact h.names_perm location

/-- What exists and is no file is a directory. -/
theorem exists_list_of_stat (hexists : tree.exists? path = true)
    (hplace : ∀ bytes, tree.stat path ≠ .ok (.file bytes)) :
    ∃ names, tree.list path = .ok names := by
  rw [exists?, stat] at hexists
  simp only [stat] at hplace
  cases hresolve : tree.resolve path with
  | error e => simp [hresolve, Except.toOption] at hexists
  | ok place =>
    cases hcontent : tree.contentAt? place with
    | none => simp [hresolve, hcontent, Except.toOption] at hexists
    | some content =>
      cases content with
      | file bytes => exact absurd (by simp [hresolve, hcontent]) (hplace bytes)
      | directory => exact ⟨_, list_eq_ok.2 ⟨place, hresolve, hcontent, rfl⟩⟩

theorem stat_of_list (h : tree.list path = .ok names) : tree.stat path = .ok .directory := by
  obtain ⟨place, hresolve, hcontent, -⟩ := list_eq_ok.1 h
  rw [stat, hresolve]
  simp only [hcontent]

theorem exists?_of_list (h : tree.list path = .ok names) : tree.exists? path = true := by
  rw [exists?, stat_of_list h]
  rfl

/-- A directory lists each name once, since directory and name tell the location. -/
theorem nodup_names (hproper : tree.Proper) (location : Location) :
    (tree.names location).Nodup := by
  have hnames : tree.names location = (tree.entries.map Prod.fst).filterMap fun other =>
      if other.dropLast = location then other.getLast? else none := by
    rw [names, List.filterMap_map]
    rfl
  rw [hnames]
  refine List.Nodup.filterMap (fun first second name hfirst hsecond => ?_) hproper.distinct
  obtain ⟨hdirectory, hlast⟩ := Option.ite_none_right_eq_some.1 hfirst
  obtain ⟨hdirectory', hlast'⟩ := Option.ite_none_right_eq_some.1 hsecond
  rw [← List.dropLast_append_getLast? name hlast, hdirectory, ← hdirectory',
    List.dropLast_append_getLast? name hlast']

/-- In a proper tree no name is listed twice in a directory. -/
theorem nodup_list (hproper : tree.Proper) (h : tree.list path = .ok names) : names.Nodup := by
  obtain ⟨place, -, -, rfl⟩ := list_eq_ok.1 h
  cases place with
  | above => exact List.nodup_nil
  | inside location => exact nodup_names hproper location

/-- The names that are listed are plain ones, without slashes and dots that would lead elsewhere.
-/
theorem plain_of_list (hproper : tree.Proper) (h : tree.list path = .ok names)
    (hname : name ∈ names) : Path.IsPlain name := by
  obtain ⟨place, -, -, rfl⟩ := list_eq_ok.1 h
  cases place with
  | above => cases hname
  | inside location =>
    obtain ⟨⟨other, content⟩, hentry, hlast⟩ := List.mem_filterMap.1 hname
    exact hproper.plain _ hentry _ (List.mem_of_getLast? (Option.ite_none_right_eq_some.1 hlast).2)

end FileTree

end SlipStack
