import SlipStack.Proofs.Engine.Attempts
import SlipStack.Proofs.Engine.Paths

/-!
# What stands where

A path tells what the node at it is a use of, whether that node was entered or not:
`Library.unused?` follows the path through the definitions and gives the node as it is
before its first use. In a sound drive element (`Drive.Sound`) every node that was entered
resets to the one that its path tells, and there is a node at the root and one at the
cursor.

Drive elements are built sound, and stay so when they are tried or reset. They also stay
the same but for their state (`Drive.unused`).
-/

namespace SlipStack.Engine

variable {ω ε : Type} {library : Library}

/-! ## Nodes before their first use -/

@[simp]
theorem Library.reset_fresh (library : Library) (ref : NodeRef) :
    (library.fresh ref).reset = library.fresh ref := by
  cases ref with
  | pattern => rfl
  | competence name =>
    rw [fresh, Competence.fresh, Node.reset, map_levels_map]
    rfl

@[simp]
theorem Library.reset_freshTarget (library : Library) (target : Target) :
    (library.freshTarget target).reset = library.freshTarget target := by
  cases target with
  | action => rfl
  | node ref => exact library.reset_fresh ref

namespace Library

/-- The node for what another one refers to at a site, before its first use. -/
def next? (library : Library) (node : Node) (site : Site) : Option Node :=
  (node.site? site).map library.fresh

/-- The node at a path below a target, before its first use. -/
def unused? (library : Library) (target : Target) : Path → Option Node
  | .root :: sites => sites.foldlM library.next? (library.freshTarget target)
  | _ => none

theorem unused?_home (library : Library) (target : Target) :
    library.unused? target Drive.home = some (library.freshTarget target) := rfl

/-- Behind a path that leads somewhere, one more site leads to what the node there has at that
site. -/
theorem unused?_append {path : Path} (hpath : path ≠ []) (target : Target) (site : Site) :
    library.unused? target (path ++ [site]) =
      (library.unused? target path).bind (library.next? · site) := by
  match path with
  | .root :: sites => simp [unused?, List.foldlM_append]
  | .element _ :: _ | .handoff :: _ => rfl

/-- All patterns name competences in their last steps only. -/
def CompetencesLast (library : Library) : Prop :=
  ∀ pattern ∈ library.patterns, pattern.fresh.CompetenceLast

/-- In a library whose patterns end in their competences, every node made from it has that form.
-/
theorem fresh_competenceLast (h : library.CompetencesLast) (ref : NodeRef) :
    (library.fresh ref).CompetenceLast := by
  cases ref with
  | competence => trivial
  | pattern name =>
    rw [fresh]
    cases hpattern : library.pattern? name with
    | none =>
      intro position next hstep
      simp [Option.getD] at hstep
    | some pattern => exact h pattern (List.mem_of_find?_eq_some hpattern)

/-- Every node below one is a new use of a definition. -/
theorem foldlM_next?_cases {sites : List Site} {start node : Node}
    (h : sites.foldlM library.next? start = some node) :
    node = start ∨ ∃ ref, node = library.fresh ref := by
  induction sites generalizing start with
  | nil => exact .inl (by simpa using h.symm)
  | cons site sites ih =>
    rw [List.foldlM_cons] at h
    obtain ⟨next, hnext, hrest⟩ := Option.bind_eq_some_iff.1 h
    obtain ⟨ref, _, rfl⟩ := Option.map_eq_some_iff.1 hnext
    rcases ih hrest with rfl | hfresh
    · exact .inr ⟨ref, rfl⟩
    · exact .inr hfresh

/-- A path through unused nodes ends at the root of the target or at a node made from the library
for some reference. -/
theorem unused?_cases {target : Target} {path : Path} {node : Node}
    (h : library.unused? target path = some node) :
    node = library.freshTarget target ∨ ∃ ref, node = library.fresh ref := by
  match path with
  | .root :: sites => exact foldlM_next?_cases h

/-- Every node that a path can lead to has its competence, if it is a pattern, at the last step.
-/
theorem unused?_competenceLast (h : library.CompetencesLast) {target : Target} {path : Path}
    {node : Node} (hnode : library.unused? target path = some node) : node.CompetenceLast := by
  rcases unused?_cases hnode with rfl | ⟨ref, rfl⟩
  · cases target with
    | action => trivial
    | node ref => exact fresh_competenceLast h ref
  · exact fresh_competenceLast h ref

end Library

theorem Node.competenceLast_reset {node : Node} :
    node.reset.CompetenceLast ↔ node.CompetenceLast := by
  cases node <;> rfl

/-! ## Sound drive elements -/

namespace Drive

variable {drive drive' : Drive} {now : Int}

/-- The drive element as it was built. -/
def unused (library : Library) (drive : Drive) : Drive :=
  .fresh library drive.name drive.trigger drive.target drive.interval

/-- Every node of the drive element is a use of what its path tells. -/
structure Sound (library : Library) (drive : Drive) : Prop where
  home : (drive.instances.get? home).isSome
  cursor : (drive.instances.get? drive.cursor).isSome
  uses : ∀ ⦃path : Path⦄ ⦃node : Node⦄, drive.instances.get? path = some node →
    library.unused? drive.target path = some node.reset

theorem fresh_sound (library : Library) (name : String) (trigger : Trigger) (target : Target)
    (interval : Option Int) : (fresh library name trigger target interval).Sound library := by
  have hhome : (Instances.empty.set home (library.freshTarget target)).get? home =
      some (library.freshTarget target) := Instances.get?_set_singleton _ _ _
  refine ⟨?_, ?_, ?_⟩
  · rw [fresh, hhome]
    rfl
  · rw [fresh, hhome]
    rfl
  · intro path node hnode
    rw [fresh] at hnode ⊢
    by_cases hpath : path = home
    · subst hpath
      rw [hhome] at hnode
      cases hnode
      rw [Library.reset_freshTarget, Library.unused?_home]
    · rw [Instances.get?_set_ne _ _ hpath] at hnode
      cases hnode

/-- What was there stays, but for the node that was fired. -/
theorem get?_follow_of_ne {node found : Node} {move : Move} {path : Path}
    (hpath : path ≠ drive.cursor)
    (hfound : drive.instances.get? path = some found) :
    ((drive.store now node).follow library move).instances.get? path = some found := by
  have hstored : (drive.store now node).instances.get? path = some found :=
    (Instances.get?_set_ne _ _ hpath).trans hfound
  cases move with
  | stay | home => exact hstored
  | enter site ref =>
    rw [Drive.follow, Instances.enter]
    split
    · exact hstored
    · rename_i hnone
      by_cases hentered : path = drive.cursor ++ [site]
      · subst hentered
        cases hstored.symm.trans hnone
      · exact (Instances.get?_set_ne _ _ hentered).trans hstored

namespace Sound

/-- The cursor of a sound drive element is at some node, so that its path is not empty. -/
theorem cursor_ne_nil (h : drive.Sound library) : drive.cursor ≠ [] := by
  intro hnil
  have := h.cursor
  rw [hnil, Instances.get?_nil] at this
  cases this

theorem current?_eq (h : drive.Sound library) : drive.current? = some (drive.node library) := by
  obtain ⟨current, hcurrent⟩ := Option.isSome_iff_exists.1 h.cursor
  rw [Drive.node, current?, hcurrent]
  rfl

/-- The node at the cursor is, but for its use, the one that its path leads to by definition. -/
theorem unused?_cursor (h : drive.Sound library) :
    library.unused? drive.target drive.cursor = some (drive.node library).reset :=
  h.uses h.current?_eq

/-- The node at the cursor refers at its sites to what the paths there tell. -/
theorem unused?_site (h : drive.Sound library) {site : Site} {ref : NodeRef}
    (hsite : (drive.node library).site? site = some ref) :
    library.unused? drive.target (drive.cursor ++ [site]) = some (library.fresh ref) := by
  rw [Library.unused?_append h.cursor_ne_nil, h.unused?_cursor, Option.bind_some,
    Library.next?, Node.site?_reset, hsite]
  rfl

theorem competenceLast (hlast : library.CompetencesLast) (h : drive.Sound library) :
    (drive.node library).CompetenceLast :=
  Node.competenceLast_reset.1 (Library.unused?_competenceLast hlast h.unused?_cursor)

/-- A sound drive element may store any node that differs from the fired one only in its use. -/
theorem store (h : drive.Sound library) {node : Node}
    (hnode : node.reset = (drive.node library).reset) : (drive.store now node).Sound library := by
  have hcursor : (drive.instances.set drive.cursor node).get? drive.cursor = some node :=
    Instances.get?_set_self node h.cursor
  refine ⟨?_, ?_, ?_⟩
  · rw [Drive.store]
    by_cases hhome : Drive.home = drive.cursor
    · rw [hhome, hcursor]
      rfl
    · rw [Instances.get?_set_ne _ _ hhome]
      exact h.home
  · rw [Drive.store, hcursor]
    rfl
  · intro path old hold
    rw [Drive.store] at hold ⊢
    by_cases hpath : path = drive.cursor
    · subst hpath
      rw [hcursor] at hold
      cases hold
      rw [hnode]
      exact h.unused?_cursor
    · rw [Instances.get?_set_ne _ _ hpath] at hold
      exact h.uses hold

/-- A sound drive element may follow any move that its node can make: a site entered is one that
this node leads to. -/
theorem follow (h : drive.Sound library) {move : Move}
    (hmove : ∀ site ref, move = .enter site ref → (drive.node library).site? site = some ref) :
    (drive.follow library move).Sound library := by
  cases move with
  | stay => exact h
  | home => exact ⟨h.home, h.home, h.uses⟩
  | enter site ref =>
    -- A node that is entered first is the one that its path leads to by definition.
    have hunused := h.unused?_site (hmove site ref rfl)
    have hentered := Instances.get?_enter_append site (library.fresh ref) h.cursor
    refine ⟨?_, ?_, ?_⟩
    · rw [Drive.follow]
      by_cases hhome : Drive.home = drive.cursor ++ [site]
      · rw [hhome, hentered]
        rfl
      · rw [Instances.get?_enter_ne _ _ hhome]
        exact h.home
    · rw [Drive.follow, hentered]
      rfl
    · intro path node hnode
      rw [Drive.follow] at hnode ⊢
      by_cases hpath : path = drive.cursor ++ [site]
      · subst hpath
        rw [hentered] at hnode
        cases hold : drive.instances.get? (drive.cursor ++ [site]) with
        | none =>
          rw [hold] at hnode
          cases hnode
          rw [Option.getD_none, Library.reset_fresh, hunused]
        | some old =>
          rw [hold] at hnode
          cases hnode
          exact h.uses hold
      · rw [Instances.get?_enter_ne _ _ hpath] at hnode
        exact h.uses hnode

/-- The node at the cursor after it was fired. -/
theorem node_store (h : drive.Sound library) (node : Node) :
    (drive.store now node).node library = node := by
  rw [Drive.node, Drive.current?, Drive.store, Instances.get?_set_self node h.cursor]
  rfl

/-- After the node at the cursor was fired there are this node and those of before. -/
theorem get?_store_cases (h : drive.Sound library) {node found : Node} {path : Path}
    (hfound : (drive.store now node).instances.get? path = some found) :
    path = drive.cursor ∧ found = node ∨
      path ≠ drive.cursor ∧ drive.instances.get? path = some found := by
  rw [Drive.store] at hfound
  by_cases hpath : path = drive.cursor
  · subst hpath
    simp only [Instances.get?_set_self node h.cursor, Option.some.injEq] at hfound
    exact .inl ⟨rfl, hfound.symm⟩
  · simp only [Instances.get?_set_ne _ _ hpath] at hfound
    exact .inr ⟨hpath, hfound⟩

/-- After its move there are this node, those of before, and possibly one that is new. -/
theorem get?_follow_cases (h : drive.Sound library) {node found : Node} {move : Move}
    {path : Path}
    (hfound : ((drive.store now node).follow library move).instances.get? path = some found) :
    path = drive.cursor ∧ found = node ∨ path ≠ drive.cursor ∧
      (drive.instances.get? path = some found ∨ ∃ ref, found = library.fresh ref) := by
  have hstored : (drive.store now node).instances.get? path = some found →
      path = drive.cursor ∧ found = node ∨ path ≠ drive.cursor ∧
        (drive.instances.get? path = some found ∨ ∃ ref, found = library.fresh ref) := by
    intro hfound
    rcases h.get?_store_cases hfound with hcursor | ⟨hpath, hfound⟩
    · exact .inl hcursor
    · exact .inr ⟨hpath, .inl hfound⟩
  cases move with
  | stay | home => exact hstored hfound
  | enter site ref =>
    rw [Drive.follow] at hfound
    -- Entering adds a node at one path at most, and only if nothing was there.
    by_cases hpath : path = drive.cursor ++ [site]
    · subst hpath
      have hcursor : ((drive.store now node).instances.get? drive.cursor).isSome := by
        simp [Drive.store, Instances.get?_set_self node h.cursor]
      have hentered := Instances.get?_enter_append site (library.fresh ref) hcursor
      cases hold : (drive.store now node).instances.get? (drive.cursor ++ [site]) with
      | some old =>
        rw [hold] at hentered
        exact hstored (by rw [hold]; exact hentered.symm.trans hfound)
      | none =>
        rw [hold] at hentered
        cases hentered.symm.trans hfound
        exact .inr ⟨by simp, .inr ⟨ref, rfl⟩⟩
    · exact hstored ((Instances.get?_enter_ne _ _ hpath).symm.trans hfound)

/-- Soundness is kept by every attempt, whatever its result. The three cases are those of `Tried`.
-/
theorem tried (hlast : library.CompetencesLast) (h : drive.Sound library)
    {result : Except ε (Option Unit)} (htried : drive.Tried library now result drive') :
    drive'.Sound library := by
  cases htried with
  | unready | triggerFailed => exact h
  | fireFailed _ hfired => exact h.store hfired.reset_eq
  | fired _ hfired =>
    refine (h.store hfired.reset_eq).follow fun site ref hmove => ?_
    subst hmove
    rw [h.node_store, Node.site?_congr hfired.reset_eq]
    exact hfired.site?_eq (h.competenceLast hlast)

theorem reset (h : drive.Sound library) : drive.reset.Sound library := by
  have hhome : (drive.reset.instances.get? Drive.home).isSome := by
    rw [Drive.reset, Instances.get?_map, Option.isSome_map]
    exact h.home
  refine ⟨hhome, hhome, ?_⟩
  intro path node hnode
  rw [Drive.reset, Instances.get?_map] at hnode
  obtain ⟨old, hold, rfl⟩ := Option.map_eq_some_iff.1 hnode
  rw [Node.reset_reset]
  exact h.uses hold

end Sound

/-! ## What stays -/

/-- An attempt changes only use: made unused again, the drive element is the same before and
after. -/
theorem Tried.unused_eq {result : Except ε (Option Unit)}
    (h : drive.Tried library now result drive') : drive'.unused library = drive.unused library := by
  cases h with
  | unready | triggerFailed | fireFailed => rfl
  | @fired move => cases move <;> rfl

end Drive

end SlipStack.Engine
