import SlipStack.Eval.Perform
import SlipStack.Proofs.Files.Lexical

/-!
# What removing the trials of a case takes away

The directory of the trials of a case is named by its identifier, put after the directory of all
trials. If the identifier leads down from where it starts, that directory is below the one of all
trials, and removing it changes nothing outside of that and leaves no such directory
(`clean_stays_inside`). The identifier of a valid case is a single name, and so it does. But a case
is removed without looking for one, by whatever was given as identifier: two dots lead to all that
belongs to the evaluation (`clean_leaves_results`).
-/

namespace SlipStack.Eval

open SlipStack.Path (Descends IsPlain lexical)

/-- The directory of all trials. -/
def resultsTop (root : String) : String :=
  Path.join (Path.join root "eval") "results"

/-- An identifier is a single name. -/
theorem isPlain_of_idFault? {id : String} (h : idFault? id = none) : IsPlain id := by
  have hspecial : ∀ name ∈ ["", ".", ".."], idFault? name ≠ none := by decide +kernel
  refine ⟨fun hslash => ?_, fun hmem => hspecial id hmem h⟩
  have hseparator : (id.toList.any fun c => c = '/' || c = '\\') = true :=
    List.any_eq_true.2 ⟨'/', hslash, rfl⟩
  rw [idFault?, if_pos hseparator] at h
  split at h <;> cases h

section Clean

variable (tree : FileTree) (root id : String)

/-- Either there is no directory and nothing is done, or it is removed and a failure to do so is
reported. -/
theorem performClean_cases :
    (tree.exists? (resultsDirectory root id) = false ∧ (performClean tree root id).tree = tree) ∨
      ((performClean tree root id).tree = (tree.removeDirectory (resultsDirectory root id)).2 ∧
        ((performClean tree root id).failure = none →
          (tree.removeDirectory (resultsDirectory root id)).1 = .ok ())) := by
  unfold performClean
  dsimp only
  split
  · rename_i hmissing
    exact .inl ⟨by simpa using hmissing, rfl⟩
  · split
    · rename_i hremove
      rw [hremove]
      exact .inr ⟨rfl, fun _ => rfl⟩
    · rename_i hremove
      rw [hremove]
      exact .inr ⟨rfl, fun hnone => nomatch hnone⟩

/-- If an identifier leads down, as that of a valid case does, then the directory that is removed
for it is below the directory of all trials. Nothing is changed outside of that, and without a
failure, the directory does not exist afterwards. -/
theorem clean_stays_inside :
    (idFault? id = none → Descends id) ∧
      (Descends id →
        (lexical (resultsTop root)).Within (lexical (resultsDirectory root id)) ∧
          (∀ location,
            (performClean tree root id).tree.content? location ≠ tree.content? location →
              (lexical (resultsTop root)).Within ⟨false, 0, location⟩) ∧
          ((performClean tree root id).failure = none →
            (performClean tree root id).tree.exists? (resultsDirectory root id) = false)) := by
  refine ⟨fun hvalid => Path.descends_of_isPlain (isPlain_of_idFault? hvalid), fun hdescends => ?_⟩
  have hwithin : (lexical (resultsTop root)).Within (lexical (resultsDirectory root id)) :=
    Path.within_join hdescends (resultsTop root)
  refine ⟨hwithin, ?_⟩
  rcases performClean_cases tree root id with ⟨hmissing, hsame⟩ | ⟨hremoved, hfailure⟩
  · rw [hsame]
    exact ⟨fun location hchanged => absurd rfl hchanged, fun _ => hmissing⟩
  · rw [hremoved]
    refine ⟨fun location hchanged => ?_, fun hnone => ?_⟩
    · obtain ⟨place, hplace, hcovers⟩ := FileTree.covers_of_removeDirectory hchanged
      exact FileTree.within_of_covers hwithin (FileTree.leadsTo_resolve hplace) hcovers
    · exact FileTree.exists?_removeDirectory (Path.Route.names_ne_nil_of_within hwithin)
        (hfailure hnone)

end Clean

/-- A case with one trial. -/
def openedTree : FileTree :=
  ⟨[(["eval"], .directory), (["eval", "cases"], .directory),
    (["eval", "cases", "door.toml"], .file "".toUTF8), (["eval", "results"], .directory),
    (["eval", "results", "door"], .directory), (["eval", "results", "door", "1"], .directory)]⟩

/-- The trial is removed, which is inside of the directory of all trials, with the directory of its
case. -/
theorem clean_stays_inside_door :
    idFault? "door" = none ∧
      (performClean openedTree "." "door").tree.content? ["eval", "results", "door", "1"] ≠
        openedTree.content? ["eval", "results", "door", "1"] ∧
      (lexical (resultsTop ".")).Within ⟨false, 0, ["eval", "results", "door", "1"]⟩ ∧
      (performClean openedTree "." "door").failure = none ∧
      (performClean openedTree "." "door").tree.exists? (resultsDirectory "." "door") = false := by
  have hvalid : idFault? "door" = none := by decide +kernel
  have hchanged :
      (performClean openedTree "." "door").tree.content? ["eval", "results", "door", "1"] ≠
        openedTree.content? ["eval", "results", "door", "1"] := by decide +kernel
  have hfailure : (performClean openedTree "." "door").failure.isNone := by decide +kernel
  have hnone : (performClean openedTree "." "door").failure = none :=
    Option.isNone_iff_eq_none.1 hfailure
  obtain ⟨hdescends, hclean⟩ := clean_stays_inside openedTree "." "door"
  obtain ⟨-, hinside, hgone⟩ := hclean (hdescends hvalid)
  exact ⟨hvalid, hchanged, hinside _ hchanged, hnone, hgone hnone⟩

/-- For two dots, the directory of all trials is left, and a case is removed. The empty text and an
absolute path are no better. -/
theorem clean_leaves_results :
    ¬ (lexical (resultsTop ".")).Within (lexical (resultsDirectory "." "..")) ∧
      ¬ (lexical (resultsTop ".")).Within (lexical (resultsDirectory "." "")) ∧
      ¬ (lexical (resultsTop ".")).Within (lexical (resultsDirectory "." "/srv")) ∧
      openedTree.content? ["eval", "cases", "door.toml"] = some (.file "".toUTF8) ∧
      (performClean openedTree "." "..").tree.content? ["eval", "cases", "door.toml"] = none := by
  decide +kernel

end SlipStack.Eval
