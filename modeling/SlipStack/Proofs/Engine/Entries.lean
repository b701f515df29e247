import Mathlib.Data.List.Nodup
import SlipStack.Proofs.Engine.Paths

/-!
# The nodes of a tree, one by one

A look-up finds one node at a path, whatever else is stored. `Instances.entries` lists
everything that is stored, each node with the path that leads to it. Where no site has two
slots in one place (`Instances.Distinct`) the two are the same: every stored node has a path
of its own (`Distinct.nodup_paths`) and is what is found there (`Distinct.mem_entries_iff`).
Storing, entering and changing nodes keep it so.
-/

namespace SlipStack.Engine.Instances

/-- Everything that is stored, with its path. -/
def entries : Instances → List (Path × Node)
  | .empty => []
  | .slot site node inner others =>
    ([site], node) ::
      (inner.entries.map (fun entry => (site :: entry.1, entry.2)) ++ others.entries)

/-- The sites that have a slot at the top of the tree. -/
def sites : Instances → List Site
  | .empty => []
  | .slot site _ _ others => site :: others.sites

/-- There is one slot at most for every site, at the top and below every node. -/
def Distinct : Instances → Prop
  | .empty => True
  | .slot site _ inner others => site ∉ others.sites ∧ inner.Distinct ∧ others.Distinct

variable {instances : Instances}

/-- What stands in a tree whose first slot is filled: the node of the slot, what lies below it,
with the site in front of the path, and what the other slots hold. -/
theorem mem_entries_slot {site : Site} {node : Node} {inner others : Instances}
    {entry : Path × Node} :
    entry ∈ (slot site node inner others).entries ↔ entry = ([site], node) ∨
      (∃ below ∈ inner.entries, entry = (site :: below.1, below.2)) ∨ entry ∈ others.entries := by
  simp only [entries, List.mem_cons, List.mem_append, List.mem_map, eq_comm]

/-- The path of a node starts at a site at the top of the tree. -/
theorem exists_site_of_mem_entries {path : Path} {node : Node}
    (h : (path, node) ∈ instances.entries) :
    ∃ site ∈ instances.sites, ∃ rest, path = site :: rest := by
  induction instances with
  | empty => cases h
  | slot site found inner others _ ihOthers =>
    rcases mem_entries_slot.1 h with heq | ⟨below, _, heq⟩ | hothers
    · cases heq
      exact ⟨site, List.mem_cons_self, [], rfl⟩
    · cases heq
      exact ⟨site, List.mem_cons_self, below.1, rfl⟩
    · obtain ⟨site', hsite', hrest⟩ := ihOthers hothers
      exact ⟨site', List.mem_cons_of_mem _ hsite', hrest⟩

/-- No node has the empty path. Every path leads through at least one slot. -/
theorem nil_not_mem_entries (node : Node) : ([], node) ∉ instances.entries := by
  intro h
  obtain ⟨site, _, rest, hpath⟩ := exists_site_of_mem_entries h
  cases hpath

/-! ## One node for a path -/

namespace Distinct

/-- What is stored is what is found. -/
theorem mem_entries_iff (h : instances.Distinct) {path : Path} {node : Node} :
    (path, node) ∈ instances.entries ↔ instances.get? path = some node := by
  induction instances generalizing path with
  | empty => simp [entries, get?]
  | slot site found inner others ihInner ihOthers =>
    obtain ⟨hsite, hinner, hothers⟩ := h
    cases path with
    | nil => simp [nil_not_mem_entries]
    | cons first rest =>
      rw [mem_entries_slot]
      by_cases hfirst : first = site
      · subst hfirst
        -- The slots beside this one are at other sites.
        have hbeside : (first :: rest, node) ∉ others.entries := by
          intro hmem
          obtain ⟨site, hmem, rest', hpath⟩ := exists_site_of_mem_entries hmem
          cases hpath
          exact hsite hmem
        rw [get?_slot_self]
        by_cases hrest : rest = []
        · subst hrest
          simp [nil_not_mem_entries, hbeside, eq_comm]
        · rw [if_neg hrest, ← ihInner hinner]
          constructor
          · rintro (heq | ⟨below, hmem, heq⟩ | hmem)
            · cases heq
              exact absurd rfl hrest
            · cases heq
              exact hmem
            · exact absurd hmem hbeside
          · intro hmem
            exact .inr (.inl ⟨_, hmem, rfl⟩)
      · rw [get?_slot_ne hfirst, ← ihOthers hothers]
        constructor
        · rintro (heq | ⟨below, _, heq⟩ | hmem)
          · cases heq
            exact absurd rfl hfirst
          · cases heq
            exact absurd rfl hfirst
          · exact hmem
        · exact fun hmem => .inr (.inr hmem)

/-- No path leads to two nodes. -/
theorem nodup_paths (h : instances.Distinct) : (instances.entries.map Prod.fst).Nodup := by
  induction instances with
  | empty => exact List.nodup_nil
  | slot site found inner others ihInner ihOthers =>
    obtain ⟨hsite, hinner, hothers⟩ := h
    have hbelow : (inner.entries.map fun entry => (site :: entry.1, entry.2)).map Prod.fst =
        (inner.entries.map Prod.fst).map (site :: ·) := by
      simp [Function.comp_def]
    -- What lies beside a slot starts with another site, so it is apart from all below the slot.
    have hbeside : ∀ rest, site :: rest ∉ others.entries.map Prod.fst := by
      intro rest hmem
      obtain ⟨⟨path, node⟩, hmem, rfl⟩ := List.mem_map.1 hmem
      obtain ⟨site', hmem, rest', hpath⟩ := exists_site_of_mem_entries hmem
      cases hpath
      exact hsite hmem
    rw [entries, List.map_cons, List.map_append, hbelow, List.nodup_cons, List.nodup_append]
    refine ⟨?_, ?_, ihOthers hothers, ?_⟩
    · rw [List.mem_append, not_or]
      refine ⟨fun hmem => ?_, hbeside []⟩
      obtain ⟨path, hmem, hpath⟩ := List.mem_map.1 hmem
      obtain ⟨⟨below, node⟩, hbelow, rfl⟩ := List.mem_map.1 hmem
      obtain rfl : below = [] := List.tail_eq_of_cons_eq hpath
      exact nil_not_mem_entries node hbelow
    · exact (ihInner hinner).map List.cons_injective
    · rintro _ hmem path hpath rfl
      obtain ⟨rest, _, rfl⟩ := List.mem_map.1 hmem
      exact hbeside rest hpath

end Distinct

/-! ## What keeps sites apart -/

/-- Setting a node fills no slot of a tree but the one that the path starts with. -/
theorem mem_sites_set {path : Path} {node : Node} {site : Site}
    (h : site ∈ (instances.set path node).sites) :
    site ∈ instances.sites ∨ path.head? = some site := by
  induction instances with
  | empty =>
    match path with
    | [] => exact .inl h
    | [first] =>
      obtain rfl : site = first := by simpa [set, sites] using h
      exact .inr rfl
    | _ :: _ :: _ => exact .inl h
  | slot site' found inner others _ ihOthers =>
    cases path with
    | nil => exact .inl h
    | cons first rest =>
      rw [set] at h
      split at h
      · split at h <;> exact .inl h
      · rcases List.mem_cons.1 h with rfl | hothers
        · exact .inl List.mem_cons_self
        · exact (ihOthers hothers).imp_left (List.mem_cons_of_mem _)

/-- Changing all nodes in place, as a reset does, leaves the slots and so all paths as they are.
-/
theorem sites_map (change : Node → Node) (instances : Instances) :
    (instances.map change).sites = instances.sites := by
  induction instances with
  | empty => rfl
  | slot site node inner others _ ihOthers => rw [map, sites, ihOthers, sites]

namespace Distinct

/-- No two entries get the same path when a node is set: a filled slot is changed where it is, and
only an empty one is added. -/
theorem set (h : instances.Distinct) (path : Path) (node : Node) :
    (instances.set path node).Distinct := by
  induction instances generalizing path with
  | empty =>
    match path with
    | [] | _ :: _ :: _ => trivial
    | [site] => exact ⟨List.not_mem_nil, trivial, trivial⟩
  | slot site found inner others ihInner ihOthers =>
    obtain ⟨hsite, hinner, hothers⟩ := h
    cases path with
    | nil => exact ⟨hsite, hinner, hothers⟩
    | cons first rest =>
      rw [Instances.set]
      split
      · split
        · exact ⟨hsite, hinner, hothers⟩
        · exact ⟨hsite, ihInner hinner rest, hothers⟩
      · rename_i hfirst
        refine ⟨fun hmem => ?_, hinner, ihOthers hothers _⟩
        rcases mem_sites_set hmem with hmem | hhead
        · exact hsite hmem
        · exact hfirst (Option.some.inj hhead)

theorem enter (h : instances.Distinct) (path : Path) (node : Node) :
    (instances.enter path node).Distinct := by
  rw [Instances.enter]
  split
  · exact h
  · exact h.set path node

theorem map (h : instances.Distinct) (change : Node → Node) :
    (instances.map change).Distinct := by
  induction instances with
  | empty => trivial
  | slot site node inner others ihInner ihOthers =>
    rw [Instances.map, Distinct, sites_map]
    exact ⟨h.1, ihInner h.2.1, ihOthers h.2.2⟩

end Distinct

end SlipStack.Engine.Instances
