import SlipStack.Proofs.Engine.Lockstep

/-!
# The machine of a plan

A plan that builds can be assembled, and its machine shows the built agent
(`exists_assembled`). Drive elements are installed one after the other, so their roots are the
handles in order, and there are no other instances at first (`Machine.collect_ok`).
-/

namespace SlipStack.Engine

variable {library : Library Nat} {index : Index} {heap heap' : Heap}

/-! ## Installing drive elements -/

/-- The drive element over the heap is the other one as it is built. -/
structure DriveCell.Installed (library : Library Nat) (heap : Heap) (driver : DriveCell)
    (drive : Drive) : Prop where
  name : driver.name = drive.name
  trigger : driver.trigger = drive.trigger
  interval : driver.interval = drive.interval
  lastFired : driver.lastFired = Drive.neverFired
  current : driver.current = none
  root : ∃ cell target, heap[driver.root]? = some cell ∧
    library.instantiateTarget target = .ok cell ∧ target.named library = drive.target

/-- A drive element that is installed stays so when cells are added at the end: handles count from
the front, so what they lead to is what it was. -/
theorem DriveCell.Installed.grow {driver : DriveCell} {drive : Drive} (new : Heap)
    (h : driver.Installed library heap drive) : driver.Installed library (heap ++ new) drive := by
  obtain ⟨cell, target, hcell, hroot⟩ := h.root
  have hless := (List.getElem?_eq_some_iff.1 hcell).1
  refine ⟨h.name, h.trigger, h.interval, h.lastFired, h.current, cell, target, ?_, hroot⟩
  rw [List.getElem?_append_left hless, hcell]

/-- The instance that a target in range is installed with. -/
theorem Library.exists_instantiateTarget {target : Target Nat}
    (h : ∀ ref, target = .node ref → library.Has ref) :
    ∃ cell, library.instantiateTarget target = .ok cell := by
  cases target with
  | action capability => exact ⟨_, rfl⟩
  | node ref => exact (h ref rfl).exists_instantiate

/-- Installing a drive element whose target the index knows adds one cell, its root, at the end of
the heap, and its cursor is at home. -/
theorem Machine.install_ok (hnumbers : index.Numbers library) {drive : Drive}
    {target : Target Nat} (htarget : index.target drive.target = .ok target) (heap : Heap) :
    ∃ driver root, install index library heap drive = .ok (driver, heap ++ [root]) ∧
      driver.root = heap.length ∧ driver.Installed library (heap ++ [root]) drive := by
  obtain ⟨hhas, hnamed⟩ := Index.target_named hnumbers htarget
  obtain ⟨root, hroot⟩ := Library.exists_instantiateTarget hhas
  refine ⟨⟨drive.name, drive.trigger, heap.length, none, drive.interval, Drive.neverFired⟩, root,
    ?_, rfl, rfl, rfl, rfl, rfl, rfl, root, target, by simp, hroot, hnamed⟩
  exact bind_eq_ok.2 ⟨target, mapError_eq_ok.2 htarget, bind_eq_ok.2
    ⟨root, mapError_eq_ok.2 hroot, rfl⟩⟩

/-- Where each thing can be made at the end of any heap, all can, one after the other. What
holds of one when it is made holds to the end if it does not depend on what is added. -/
theorem Machine.collect_ok {α β : Type}
    {make : Heap → α → Except (Trouble BuildError) (β × Heap)} {roots : β → List Handle}
    {Fits : Heap → β → α → Prop} {xs : List α}
    (hgrow : ∀ heap new y x, Fits heap y x → Fits (heap ++ new) y x)
    (hmake : ∀ x ∈ xs, ∀ heap, ∃ y new, make heap x = .ok (y, heap ++ new) ∧
      roots y = List.range' heap.length new.length ∧ Fits (heap ++ new) y x) (heap : Heap) :
    ∃ ys new, collect make heap xs = .ok (ys, heap ++ new) ∧
      ys.flatMap roots = List.range' heap.length new.length ∧
      List.Forall₂ (Fits (heap ++ new)) ys xs := by
  induction xs generalizing heap with
  | nil =>
    refine ⟨[], [], ?_, rfl, .nil⟩
    rw [List.append_nil]
    rfl
  | cons x xs ih =>
    obtain ⟨y, new, hy, hroots, hfits⟩ := hmake x List.mem_cons_self heap
    obtain ⟨ys, more, hys, hothers, hall⟩ :=
      ih (fun x hx => hmake x (List.mem_cons_of_mem _ hx)) (heap ++ new)
    -- What fits the heap after the first still fits it when the others have been added.
    rw [List.append_assoc] at hys hall
    refine ⟨y :: ys, new ++ more, ?_, ?_, .cons ?_ hall⟩
    · exact bind_eq_ok.2 ⟨_, hy, bind_eq_ok.2 ⟨_, hys, rfl⟩⟩
    · rw [List.flatMap_cons, hroots, hothers, List.length_append, List.length_append,
        List.range'_append_1]
    · rw [← List.append_assoc]
      exact hgrow _ more y x hfits

/-! ## The heap at first -/

/-- The layout in which every instance is a root. -/
def Layout.roots (count : Nat) : Layout :=
  (List.range count).map fun handle => (handle, Drive.home)

/-- Before any step a handle stands for the root of the drive element of the same number, and no
other handle stands for anything. -/
theorem getElem?_roots {count : Nat} {handle owner : Handle} {path : Path} :
    (Layout.roots count)[handle]? = some (owner, path) ↔
      handle < count ∧ owner = handle ∧ path = Drive.home := by
  rw [Layout.roots, List.getElem?_map, Option.map_eq_some_iff]
  simp only [List.getElem?_eq_some_iff, List.length_range, List.getElem_range, Prod.mk.injEq]
  constructor
  · intro h
    obtain ⟨_, ⟨hless, rfl⟩, rfl, rfl⟩ := h
    exact ⟨hless, rfl, rfl⟩
  · intro h
    obtain ⟨hless, rfl, rfl⟩ := h
    exact ⟨_, ⟨hless, rfl⟩, rfl, rfl⟩

/-- A heap of new instances is laid out as roots. -/
theorem laid_roots (hlinked : library.Linked)
    (h : ∀ (handle : Handle) (cell : Cell), heap[handle]? = some cell →
      ∃ target, library.instantiateTarget target = .ok cell) :
    Laid library (Layout.roots heap.length) heap := by
  refine ⟨by simp [Layout.roots], ?_, ?_, ?_, ?_⟩
  · exact List.nodup_range.map fun first second heq => congrArg Prod.fst heq
  · intro handle cell hcell
    obtain ⟨target, htarget⟩ := h handle cell hcell
    exact ⟨target, Library.serves_of_instantiateTarget htarget⟩
  · intro handle owner held path cell site slot _ hcell hslot hheld
    obtain ⟨target, htarget⟩ := h handle cell hcell
    rw [(hlinked.slot?_instantiate htarget hslot).2] at hheld
    cases hheld
  · intro handle owner path hplace
    obtain ⟨-, rfl, rfl⟩ := getElem?_roots.1 hplace
    exact .inl ⟨rfl, rfl⟩

/-- An installed drive element shows the built one: both are at home, with no instance but a root
in which nothing has been used. -/
theorem DriveCell.Installed.shows (hlinked : library.Linked) {driver : DriveCell} {drive : Drive}
    (hunused : drive.unused library.named = drive) (h : driver.Installed library heap drive) :
    driver.Shows library (Layout.roots heap.length) heap drive := by
  obtain ⟨cell, target, hcell, hinstance, htarget⟩ := h.root
  have hless := (List.getElem?_eq_some_iff.1 hcell).1
  have hstands : Stands (Layout.roots heap.length) heap driver.root Drive.home driver.root cell :=
    ⟨getElem?_roots.2 ⟨hless, rfl, rfl⟩, hcell⟩
  have hserves := Library.serves_of_instantiateTarget hinstance
  have hcurrent : driver.cursor = driver.root := by
    rw [DriveCell.cursor, h.current, Option.getD_none]
  have hread := hlinked.freshTarget_named hinstance
  rw [htarget] at hread
  rw [← hunused]
  refine ⟨h.name, h.trigger, h.interval, h.lastFired, ⟨cell, target, hstands, hserves, htarget⟩,
    ⟨cell, hcurrent ▸ hstands⟩, iff_of_true h.current rfl, fun path node => ?_⟩
  rw [Drive.unused, Drive.fresh, hread]
  -- Only the path of the root leads anywhere, on either side.
  by_cases hpath : path = Drive.home
  · subst hpath
    rw [Drive.home, Instances.get?_set_singleton, Option.some_inj]
    constructor
    · intro hnode
      exact ⟨driver.root, cell, hstands, hnode⟩
    · intro hfound
      obtain ⟨handle, found, hplace, hnode⟩ := hfound
      obtain ⟨-, rfl, -⟩ := getElem?_roots.1 hplace.1
      rw [← hnode, Option.some.inj (hplace.2.symm.trans hcell)]
  · rw [Instances.get?_set_ne _ _ hpath]
    constructor
    · intro hnode
      cases hnode
    · intro hfound
      obtain ⟨handle, found, hplace, -⟩ := hfound
      exact absurd (getElem?_roots.1 hplace.1).2.2 hpath

end SlipStack.Engine

namespace SlipStack

open Engine

/-- The drive elements of a built agent can be installed. Their roots are all there is in the heap
then, in the order of the drive elements. -/
theorem exists_installed {registry : Registry} {plan : Plan} {built : Agent} {library : Library Nat}
    (hbuild : plan.build registry = .ok built)
    (hnumbers : (Index.ofPlan plan).Numbers library) :
    ∃ levels heap,
      Machine.collect (Machine.collect (Machine.install (.ofPlan plan) library)) [] built.levels =
          .ok (levels, heap) ∧
        levels.flatten.map (·.root) = List.range heap.length ∧
        List.Forall₂ (List.Forall₂ (DriveCell.Installed library heap)) levels built.levels := by
  -- `Machine.collect` is used twice, for the levels and within each of them, and so is its lemma.
  have hinstall : ∀ level ∈ built.levels, ∀ heap, ∃ drivers new,
      Machine.collect (Machine.install (.ofPlan plan) library) heap level =
          .ok (drivers, heap ++ new) ∧
        drivers.flatMap (fun driver => [driver.root]) = List.range' heap.length new.length ∧
        List.Forall₂ (DriveCell.Installed library (heap ++ new)) drivers level := by
    intro level hlevel
    refine Machine.collect_ok (fun heap new _ _ hdrive => hdrive.grow new)
      fun drive hdrive heap => ?_
    obtain ⟨target, htarget⟩ := Index.exists_target (fun ref => exists_ref_of_build hbuild)
      ((build_closed hbuild).targets level hlevel drive hdrive)
    obtain ⟨driver, root, hok, hroot, hinstalled⟩ := Machine.install_ok hnumbers htarget heap
    exact ⟨driver, [root], hok, by rw [hroot]; rfl, hinstalled⟩
  have hgrow : ∀ (heap new : Heap) (drivers : List DriveCell) (level : List Drive),
      List.Forall₂ (DriveCell.Installed library heap) drivers level →
        List.Forall₂ (DriveCell.Installed library (heap ++ new)) drivers level :=
    fun heap new _ _ hlevel => hlevel.imp fun _ _ hdrive => hdrive.grow new
  obtain ⟨levels, heap, hlevels, hroots, hinstalled⟩ := Machine.collect_ok hgrow hinstall []
  rw [List.nil_append] at hlevels hinstalled
  refine ⟨levels, heap, hlevels, ?_, hinstalled⟩
  have hsame : levels.flatten.map (·.root) =
      levels.flatMap fun level => level.flatMap fun driver => [driver.root] := by
    rw [List.map_flatten, List.flatMap]
    exact congrArg List.flatten (List.map_congr_left fun level _ => List.map_eq_flatMap)
  rw [hsame, hroots, List.range_eq_range']
  rfl

/-- Installed drive elements whose roots are all that is in the heap show the unused ones. -/
theorem shows_installed {library : Library Nat} {heap : Heap} {levels : List (List DriveCell)}
    {drives : List (List Drive)} (hlinked : library.Linked)
    (hroots : levels.flatten.map (·.root) = List.range heap.length)
    (hunused : ∀ level ∈ drives, ∀ drive ∈ level, drive.unused library.named = drive)
    (hinstalled : List.Forall₂ (List.Forall₂ (DriveCell.Installed library heap)) levels drives) :
    ShowsLevels library (Layout.roots heap.length) heap levels drives := by
  refine ⟨?_, ?_, ?_, ?_⟩
  · refine laid_roots hlinked fun handle cell hcell => ?_
    -- A cell is the root of some drive element, as nothing else was added to the heap.
    have hmem : handle ∈ levels.flatten.map (·.root) := by
      rw [hroots]
      exact List.mem_range.2 (List.getElem?_eq_some_iff.1 hcell).1
    obtain ⟨driver, hdriver, rfl⟩ := List.mem_map.1 hmem
    obtain ⟨drive, -, hdrive⟩ := exists_of_mem_forall₂ (forall₂_flatten hinstalled) hdriver
    obtain ⟨cell', target, hcell', htarget, -⟩ := hdrive.root
    rw [hcell] at hcell'
    cases hcell'
    exact ⟨target, htarget⟩
  · refine (forall₂_and_right.2 ⟨hinstalled, hunused⟩).imp fun _ _ hlevel => ?_
    exact (forall₂_and_right.2 hlevel).imp fun _ _ hdrive =>
      DriveCell.Installed.shows hlinked hdrive.2 hdrive.1
  · rw [hroots]
    exact List.nodup_range
  · intro place hmem
    obtain ⟨handle, hhandle, rfl⟩ := List.mem_map.1 hmem
    rwa [hroots]

/-- A plan that builds can be assembled, and its machine shows the built agent. -/
theorem exists_assembled {registry : Registry} {plan : Plan} {built : Agent}
    (hbuild : plan.build registry = .ok built) :
    ∃ start layout, plan.assemble registry = .ok start ∧ start.Shows layout built := by
  obtain ⟨library, hlibrary, hnamed, hlinked⟩ := exists_library_of_build hbuild
  obtain ⟨levels, heap, hlevels, hroots, hinstalled⟩ :=
    exists_installed hbuild (numbers_of_build hbuild hlibrary)
  have hunused := (build_asBuilt hbuild).unused
  rw [← hnamed] at hunused
  refine ⟨⟨built.name, built.discipline, built.docstring, library, built.goal, levels, heap,
    built.clock⟩, Layout.roots heap.length, ?_, ?_⟩
  · exact bind_eq_ok.2 ⟨built, mapError_eq_ok.2 hbuild, bind_eq_ok.2
      ⟨library, mapError_eq_ok.2 hlibrary, bind_eq_ok.2 ⟨(levels, heap), hlevels, rfl⟩⟩⟩
  · exact ⟨rfl, rfl, rfl, rfl, rfl, hnamed, hlinked,
      shows_installed hlinked hroots hunused hinstalled⟩

end SlipStack
