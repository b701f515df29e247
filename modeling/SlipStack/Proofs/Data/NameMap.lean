import Mathlib.Data.List.Nodup
import Mathlib.Data.List.Perm.Basic
import SlipStack.Data.NameMap

/-!
# Maps in ascending order

The entries of a map stand in ascending order of their names (`NameMap.Ascending`), however they
were put there. So a map is told by what is found in it (`Ascending.ext`).
-/

namespace SlipStack.NameMap

variable {α : Type}

/-- The entries stand in ascending order of their names. -/
def Ascending (map : NameMap α) : Prop :=
  map.entries.Pairwise fun first second => first.1 < second.1

theorem ascending_empty : (empty : NameMap α).Ascending := List.Pairwise.nil

/-- An entry put in its place stands before what the others stood before. -/
theorem lt_of_mem_insert {name bound : String} {value : α} {entries : List (String × α)}
    (hname : bound < name) (hentries : ∀ entry ∈ entries, bound < entry.1) :
    ∀ entry ∈ insert name value entries, bound < entry.1 := by
  induction entries with
  | nil => simpa [insert] using hname
  | cons entry rest ih =>
    obtain ⟨first, old⟩ := entry
    rw [List.forall_mem_cons] at hentries
    obtain ⟨hfirst, hrest⟩ := hentries
    unfold insert
    split
    · exact List.forall_mem_cons.2 ⟨hname, hrest⟩
    · split
      · exact List.forall_mem_cons.2 ⟨hname, List.forall_mem_cons.2 ⟨hfirst, hrest⟩⟩
      · exact List.forall_mem_cons.2 ⟨hfirst, ih hrest⟩

/-- Setting a name keeps the names ascending: the value is replaced if the name is there, and else
put where it belongs. -/
theorem Ascending.set {map : NameMap α} (h : map.Ascending) (name : String) (value : α) :
    (map.set name value).Ascending := by
  obtain ⟨entries⟩ := map
  unfold Ascending NameMap.set at *
  -- The induction is on the entries, along which `insert` looks for its place.
  induction entries with
  | nil => exact List.pairwise_singleton ..
  | cons entry rest ih =>
    obtain ⟨first, old⟩ := entry
    rw [List.pairwise_cons] at h
    obtain ⟨hfirst, hrest⟩ := h
    dsimp only at ih hfirst ⊢
    unfold insert
    split
    case isTrue hsame =>
      subst hsame
      exact List.pairwise_cons.2 ⟨hfirst, hrest⟩
    case isFalse hne =>
      split
      case isTrue hless =>
        refine List.pairwise_cons.2 ⟨?_, List.pairwise_cons.2 ⟨hfirst, hrest⟩⟩
        exact List.forall_mem_cons.2 ⟨hless, fun entry hentry =>
          String.lt_trans hless (hfirst entry hentry)⟩
      case isFalse hnot =>
        have hgreater : first < name :=
          String.not_le.1 fun hle => hne (String.le_antisymm (String.not_lt.1 hnot) hle)
        exact List.pairwise_cons.2 ⟨lt_of_mem_insert hgreater hfirst, ih hrest⟩

/-- In a map with ascending names, what is found under a name is what is stored there, as no name
comes twice. -/
theorem Ascending.get?_eq_some {map : NameMap α} (h : map.Ascending) {name : String} {value : α} :
    map.get? name = some value ↔ (name, value) ∈ map.entries := by
  refine ⟨mem_of_get?, fun hmem => ?_⟩
  obtain ⟨entries⟩ := map
  unfold Ascending get? at *
  induction entries with
  | nil => cases hmem
  | cons entry rest ih =>
    obtain ⟨first, old⟩ := entry
    rw [List.pairwise_cons] at h
    obtain ⟨hfirst, hrest⟩ := h
    cases hmem with
    | head => simp [lookup]
    | tail _ hmem =>
      have hne : first ≠ name := fun hsame => String.lt_irrefl name (hsame ▸ hfirst _ hmem)
      rw [lookup, if_neg hne]
      exact ih hrest hmem

theorem Ascending.nodup_names {map : NameMap α} (h : map.Ascending) : map.names.Nodup := by
  unfold names
  rw [List.nodup_iff_pairwise_ne, List.pairwise_map]
  refine h.imp fun {first second} hless => ?_
  intro hsame
  rw [hsame] at hless
  exact String.lt_irrefl _ hless

theorem Ascending.write {map : NameMap α} (h : map.Ascending) (entries : List (String × α)) :
    (map.write entries).Ascending := by
  induction entries generalizing map with
  | nil => exact h
  | cons entry entries ih => exact ih (h.set _ _)

/-- Entries whose names differ are all found. -/
theorem get?_ofEntries {entries : List (String × α)} (hnodup : (entries.map Prod.fst).Nodup)
    {name : String} {value : α} :
    (ofEntries entries).get? name = some value ↔ (name, value) ∈ entries := by
  induction entries generalizing value with
  | nil => simp [ofEntries, NameMap.write]
  | cons entry entries ih =>
    obtain ⟨other, found⟩ := entry
    rw [List.map_cons, List.nodup_cons] at hnodup
    obtain ⟨hfresh, hnodup⟩ := hnodup
    rw [get?_ofEntries_cons, Option.or_eq_some_iff, ih hnodup]
    by_cases hother : other = name
    · subst hother
      have hnone : ∀ value, (other, value) ∉ entries := fun value hmem =>
        hfresh (List.mem_map.2 ⟨_, hmem, rfl⟩)
      have hrest : (ofEntries entries).get? other = none := by
        rw [Option.eq_none_iff_forall_ne_some]
        intro value hvalue
        exact hnone value ((ih hnodup).1 hvalue)
      simp [hnone, hrest, eq_comm]
    · simp [hother, Ne.symm hother]

/-- Maps in which the same is found are the same. -/
theorem Ascending.ext {map map' : NameMap α} (h : map.Ascending) (h' : map'.Ascending)
    (hget : ∀ name, map.get? name = map'.get? name) : map = map' := by
  have hnodup : ∀ {map : NameMap α}, map.Ascending → map.entries.Nodup := by
    intro map hmap
    exact List.Nodup.of_map _ hmap.nodup_names
  have hmem : ∀ entry, entry ∈ map.entries ↔ entry ∈ map'.entries := by
    intro entry
    rw [← h.get?_eq_some, ← h'.get?_eq_some, hget]
  have hperm := (List.perm_ext_iff_of_nodup (hnodup h) (hnodup h')).2 hmem
  have hequal : map.entries = map'.entries := by
    refine hperm.eq_of_pairwise (fun first second _ _ hless hmore => ?_) h h'
    exact absurd (String.lt_trans hless hmore) (String.lt_irrefl _)
  obtain ⟨entries⟩ := map
  exact congrArg NameMap.mk hequal

end SlipStack.NameMap
