import SlipStack.Proofs.Engine.Restarting
import SlipStack.Proofs.Engine.Uses
import SlipStack.Proofs.Registered

/-!
# Drive elements over a heap

A drive element over a heap shows one with a tree (`DriveCell.Shows`) if it is at the same
path, and what stands at a path below its root reads as the node that is stored there. Such
elements fire alike (`DriveCell.Shows.fire`): with the same result and the same calls, and they
show each other afterwards. A firing touches nothing that stands below another root
(`Untouched`), so other drive elements show what they showed before.
-/

namespace SlipStack.Engine

variable {ω ε : Type} {library : Library Nat} {layout : Layout} {heap : Heap}
  {root handle : Handle} {path : Path} {cell : Cell}

/-! ## New instances -/

/-- A competence of the library by numbers is found under its name in the library by names, and it
is the same one. -/
theorem Library.Linked.competence?_named (h : library.Linked) {index : Nat}
    {definition : Competence Nat} (hindex : library.competences[index]? = some definition) :
    library.named.competence? definition.name = some (definition.named library) := by
  have hnames : (library.named.competences.map (·.name)).Nodup := by
    rw [named, List.map_map]
    exact h.competenceNames
  exact find?_key_of_mem hnames (List.mem_map_of_mem (List.mem_of_getElem? hindex))

/-- A pattern of the library by numbers is found under its name in the library by names, and it is
the same one. -/
theorem Library.Linked.pattern?_named (h : library.Linked) {index : Nat}
    {definition : Pattern Nat} (hindex : library.patterns[index]? = some definition) :
    library.named.pattern? definition.name = some (definition.named library) := by
  have hnames : (library.named.patterns.map (·.name)).Nodup := by
    rw [named, List.map_map]
    exact h.patternNames
  exact find?_key_of_mem hnames (List.mem_map_of_mem (List.mem_of_getElem? hindex))

theorem ElementCell.read_fresh (library : Library Nat) (element : Element Nat) :
    (fresh element).read library = .fresh (element.named library) := by
  have htarget : (Aim.ofTarget element.target).target = element.target := by
    cases element.target <;> rfl
  rw [fresh, read, htarget]
  rfl

/-- A new instance reads as the node before its first use. -/
theorem Library.Linked.fresh_named (h : library.Linked) {ref : NodeRef Nat}
    (hcell : library.instantiate ref = .ok cell) :
    library.named.fresh (ref.named library) = cell.read library := by
  cases ref with
  | competence index =>
    rw [instantiate] at hcell
    split at hcell
    case h_2 => cases hcell
    case h_1 definition hdefinition =>
      cases hcell
      have hlevels : ElementCell.read library ∘ ElementCell.fresh =
          ElementState.fresh ∘ Element.named library :=
        funext (ElementCell.read_fresh library)
      rw [NodeRef.named, hdefinition, Option.map_some, Option.getD_some, fresh,
        h.competence?_named hdefinition, Option.getD_some, Competence.fresh, Competence.named,
        map_levels_map, Competence.cell, Cell.read, map_levels_map, hlevels]
  | pattern index =>
    rw [instantiate] at hcell
    split at hcell
    case h_2 => cases hcell
    case h_1 definition hdefinition =>
      cases hcell
      rw [NodeRef.named, hdefinition, Option.map_some, Option.getD_some, fresh,
        h.pattern?_named hdefinition, Option.getD_some]
      rfl

/-- A cell made for a target reads as the node that is made for the target by name. -/
theorem Library.Linked.freshTarget_named (h : library.Linked) {target : Target Nat}
    (hcell : library.instantiateTarget target = .ok cell) :
    library.named.freshTarget (target.named library) = cell.read library := by
  cases target with
  | action capability =>
    cases hcell
    rfl
  | node ref => exact h.fresh_named hcell

/-! ## What stands where -/

/-- The cell stands at the path below the root, behind the handle. -/
def Stands (layout : Layout) (heap : Heap) (root : Handle) (path : Path) (handle : Handle)
    (cell : Cell) : Prop :=
  layout[handle]? = some (root, path) ∧ heap[handle]? = some cell

/-- Wherever a handle has its place, a cell stands behind it. -/
theorem Laid.exists_stands (h : Laid library layout heap)
    (hplace : layout[handle]? = some (root, path)) :
    ∃ cell, Stands layout heap root path handle cell := by
  obtain ⟨cell, hcell⟩ := h.exists_cell hplace
  exact ⟨cell, hplace, hcell⟩

/-- What stands below a root after a cell that stands below it was exchanged. -/
theorem stands_set (hcell : heap[handle]? = some cell) (cell' : Cell) {path' : Path}
    {other : Handle} {found : Cell} :
    Stands layout (heap.set handle cell') root path' other found ↔
      if other = handle then layout[handle]? = some (root, path') ∧ found = cell'
      else Stands layout heap root path' other found := by
  have hless := (List.getElem?_eq_some_iff.1 hcell).1
  unfold Stands
  split
  · rename_i hother
    subst hother
    rw [List.getElem?_set_self hless, Option.some_inj, eq_comm (a := found)]
  · rename_i hother
    rw [List.getElem?_set_ne (Ne.symm hother)]

/-- What stands somewhere after a place for a new cell was added. -/
theorem stands_concat (hlength : layout.length = heap.length) {place : Handle × Path}
    {fresh found : Cell} {other : Handle} :
    Stands (layout ++ [place]) (heap ++ [fresh]) root path other found ↔
      Stands layout heap root path other found ∨
        other = heap.length ∧ place = (root, path) ∧ fresh = found := by
  unfold Stands
  rw [getElem?_concat, getElem?_concat, hlength]
  constructor
  · intro h
    obtain ⟨hold | ⟨hnew, hplace⟩, hcell | ⟨hnew', hcell⟩⟩ := h
    · exact .inl ⟨hold, hcell⟩
    · have hless := (List.getElem?_eq_some_iff.1 hold).1
      exact absurd hless (by rw [hlength, hnew']; exact Nat.lt_irrefl _)
    · have hless := (List.getElem?_eq_some_iff.1 hcell).1
      exact absurd hless (by rw [hnew]; exact Nat.lt_irrefl _)
    · exact .inr ⟨hnew, hplace, hcell⟩
  · intro h
    rcases h with ⟨hplace, hcell⟩ | ⟨hnew, hplace, hcell⟩
    · exact ⟨.inl hplace, .inl hcell⟩
    · exact ⟨.inr ⟨hnew, hplace⟩, .inr ⟨hnew, hcell⟩⟩

/-- The tree holds at every path what stands there. -/
def Pictures (library : Library Nat) (layout : Layout) (heap : Heap) (root : Handle)
    (instances : Instances) : Prop :=
  ∀ path node, instances.get? path = some node ↔
    ∃ handle cell, Stands layout heap root path handle cell ∧ cell.read library = node

namespace Pictures

variable {instances : Instances}

/-- Where a cell stands, the tree has the node that is read off the cell. -/
theorem get?_eq (h : Pictures library layout heap root instances)
    (hstands : Stands layout heap root path handle cell) :
    instances.get? path = some (cell.read library) :=
  (h path _).2 ⟨handle, cell, hstands, rfl⟩

/-- Where no handle has its place, nothing was entered and the tree has no node. -/
theorem get?_eq_none (h : Pictures library layout heap root instances)
    (hnone : (root, path) ∉ layout) : instances.get? path = none := by
  cases hget : instances.get? path with
  | none => rfl
  | some node =>
    obtain ⟨handle, cell, hstands, -⟩ := (h path node).1 hget
    exact absurd (List.mem_of_getElem? hstands.1) hnone

/-- To exchange a cell is to store a node at its path. -/
theorem set (hlaid : Laid library layout heap) (h : Pictures library layout heap root instances)
    (hstands : Stands layout heap root path handle cell) (cell' : Cell) :
    Pictures library layout (heap.set handle cell') root
      (instances.set path (cell'.read library)) := by
  intro path' node
  -- One handle stands at the path, so the cell that was written is the one that is read there.
  by_cases hpath : path' = path
  · subst hpath
    rw [Instances.get?_set_self _ (Option.isSome_of_eq_some (h.get?_eq hstands)), Option.some_inj]
    constructor
    · intro hread
      exact ⟨handle, cell', (stands_set hstands.2 cell').2 (by simp [hstands.1]), hread⟩
    · intro hfound
      obtain ⟨other, found, hother, hread⟩ := hfound
      obtain rfl := hlaid.handle_unique hother.1 hstands.1
      rw [stands_set hstands.2, if_pos rfl] at hother
      rw [← hread, hother.2]
  · rw [Instances.get?_set_ne _ _ hpath, h path' node]
    refine exists_congr fun other => exists_congr fun found => and_congr_left fun _ => ?_
    rw [stands_set hstands.2]
    split
    · rename_i hother
      subst hother
      have hne : ¬ layout[other]? = some (root, path') := by
        rw [hstands.1]
        simpa using Ne.symm hpath
      simp [Stands, hne]
    · rfl

/-- To add a cell at a site is to enter the site. -/
theorem enter (hlength : layout.length = heap.length)
    (h : Pictures library layout heap root instances)
    (hstands : Stands layout heap root path handle cell) {site : Site}
    (hnone : (root, path ++ [site]) ∉ layout) (fresh : Cell) :
    Pictures library (layout ++ [(root, path ++ [site])]) (heap ++ [fresh]) root
      (instances.enter (path ++ [site]) (fresh.read library)) := by
  have habsent := h.get?_eq_none hnone
  intro path' node
  by_cases hpath : path' = path ++ [site]
  · subst hpath
    rw [Instances.get?_enter_append _ _ (Option.isSome_of_eq_some (h.get?_eq hstands)), habsent,
      Option.getD_none, Option.some_inj]
    constructor
    · intro hread
      exact ⟨heap.length, fresh, (stands_concat hlength).2 (.inr ⟨rfl, rfl, rfl⟩), hread⟩
    · intro hfound
      obtain ⟨other, found, hother, hread⟩ := hfound
      rcases (stands_concat hlength).1 hother with hold | ⟨-, -, rfl⟩
      · exact absurd (List.mem_of_getElem? hold.1) hnone
      · exact hread
  · rw [Instances.get?_enter_ne _ _ hpath, h path' node]
    refine exists_congr fun other => exists_congr fun found => and_congr_left fun _ => ?_
    rw [stands_concat hlength]
    simp [Ne.symm hpath]

end Pictures

/-! ## Drive elements -/

/-- The drive element over the heap shows the one with a tree. -/
structure DriveCell.Shows (library : Library Nat) (layout : Layout) (heap : Heap)
    (driver : DriveCell) (drive : Drive) : Prop where
  name : driver.name = drive.name
  trigger : driver.trigger = drive.trigger
  interval : driver.interval = drive.interval
  lastFired : driver.lastFired = drive.lastFired
  root : ∃ cell target, Stands layout heap driver.root Drive.home driver.root cell ∧
    cell.Serves library target ∧ target.named library = drive.target
  cursor : ∃ cell, Stands layout heap driver.root drive.cursor driver.cursor cell
  away : driver.current = none ↔ drive.cursor = Drive.home
  nodes : Pictures library layout heap driver.root drive.instances

/-- Nothing changes below the root. -/
def Untouched (layout : Layout) (heap : Heap) (layout' : Layout) (heap' : Heap)
    (root : Handle) : Prop :=
  ∀ path handle cell,
    Stands layout' heap' root path handle cell ↔ Stands layout heap root path handle cell

section Untouched

variable {layout₁ layout' : Layout} {heap₁ heap' : Heap}

theorem Untouched.trans (h : Untouched layout heap layout₁ heap₁ root)
    (h' : Untouched layout₁ heap₁ layout' heap' root) :
    Untouched layout heap layout' heap' root :=
  fun path handle cell => (h' path handle cell).trans (h path handle cell)

/-- Writing a cell below one root leaves what stands below the others, because no handle has two
owners. -/
theorem untouched_set {other : Handle} (hne : other ≠ root)
    (hstands : Stands layout heap root path handle cell) (cell' : Cell) :
    Untouched layout heap layout (heap.set handle cell') other := by
  intro path' i found
  rw [stands_set hstands.2]
  split
  · rename_i hi
    subst hi
    have hplace : ¬ layout[i]? = some (other, path') := by
      rw [hstands.1]
      simp [Ne.symm hne]
    simp [Stands, hplace]
  · rfl

/-- A cell that is added below one root leaves what stands below the others. -/
theorem untouched_concat {other : Handle} (hne : other ≠ root)
    (hlength : layout.length = heap.length) (path : Path) (fresh : Cell) :
    Untouched layout heap (layout ++ [(root, path)]) (heap ++ [fresh]) other := by
  intro path' i found
  rw [stands_concat hlength]
  simp [Ne.symm hne]

end Untouched

namespace DriveCell.Shows

variable {driver : DriveCell} {drive : Drive}

/-- What a drive element shows depends on what stands below its root only. -/
theorem congr {layout' : Layout} {heap' : Heap} (h : driver.Shows library layout heap drive)
    (huntouched : Untouched layout heap layout' heap' driver.root) :
    driver.Shows library layout' heap' drive := by
  obtain ⟨cell, target, hroot, hserves⟩ := h.root
  obtain ⟨current, hcursor⟩ := h.cursor
  refine ⟨h.name, h.trigger, h.interval, h.lastFired,
    ⟨cell, target, (huntouched _ _ _).2 hroot, hserves⟩,
    ⟨current, (huntouched _ _ _).2 hcursor⟩, h.away, fun path node => ?_⟩
  rw [h.nodes path node]
  exact exists_congr fun handle => exists_congr fun found =>
    and_congr_left fun _ => (huntouched path handle found).symm

/-- The cell at the cursor reads as the node at the cursor. -/
theorem node_eq (h : driver.Shows library layout heap drive)
    (hstands : Stands layout heap driver.root drive.cursor driver.cursor cell) :
    drive.node library.named = cell.read library := by
  rw [Drive.node, Drive.current?, h.nodes.get?_eq hstands, Option.getD_some]

/-- The cell at the cursor was exchanged for another instance of the same. -/
theorem store (hlaid : Laid library layout heap) (h : driver.Shows library layout heap drive)
    (hstands : Stands layout heap driver.root drive.cursor driver.cursor cell) {cell' : Cell}
    (hvacant : cell'.vacant = cell.vacant) (now : Int) :
    ({ driver with lastFired := now } : DriveCell).Shows library layout
      (heap.set driver.cursor cell') (drive.store now (cell'.read library)) := by
  obtain ⟨above, target, hroot, hserves, htarget⟩ := h.root
  refine ⟨h.name, h.trigger, h.interval, rfl, ?_, ?_, h.away, h.nodes.set hlaid hstands cell'⟩
  · by_cases hcursor : driver.root = driver.cursor
    · have hsame : above = cell := by
        rw [hcursor] at hroot
        exact Option.some.inj (hroot.2.symm.trans hstands.2)
      subst hsame
      refine ⟨cell', target, (stands_set hstands.2 cell').2 ?_, hserves.congr hvacant, htarget⟩
      rw [if_pos hcursor]
      exact ⟨hcursor ▸ hroot.1, rfl⟩
    · refine ⟨above, target, (stands_set hstands.2 cell').2 ?_, hserves, htarget⟩
      rwa [if_neg hcursor]
  · refine ⟨cell', (stands_set hstands.2 cell').2 ?_⟩
    have hkept : ({ driver with lastFired := now } : DriveCell).cursor = driver.cursor := rfl
    rw [if_pos hkept]
    exact ⟨hstands.1, rfl⟩

theorem home (h : driver.Shows library layout heap drive) :
    (driver.follow .home).Shows library layout heap
      (drive.follow library.named .home) := by
  obtain ⟨cell, target, hroot, hserves⟩ := h.root
  exact ⟨h.name, h.trigger, h.interval, h.lastFired, ⟨cell, target, hroot, hserves⟩,
    ⟨cell, hroot⟩, iff_of_true rfl rfl, h.nodes⟩

theorem concat_ne_home (hpath : path ≠ []) (site : Site) : path ++ [site] ≠ Drive.home := by
  intro hhome
  have hlength := congrArg List.length hhome
  simp [Drive.home, hpath] at hlength

/-- A slot is entered again. -/
theorem enterAgain (h : driver.Shows library layout heap drive) {site : Site}
    (hstands : Stands layout heap driver.root (drive.cursor ++ [site]) handle cell)
    (hcursor : drive.cursor ≠ []) (ref : NodeRef) :
    (driver.follow (.enter handle)).Shows library layout heap
      (drive.follow library.named (.enter site ref)) := by
  have hinstances : drive.instances.enter (drive.cursor ++ [site]) (library.named.fresh ref) =
      drive.instances := by
    rw [Instances.enter, h.nodes.get?_eq hstands]
  refine ⟨h.name, h.trigger, h.interval, h.lastFired, h.root, ⟨cell, hstands⟩, ?_, ?_⟩
  · exact iff_of_false (Option.some_ne_none _) (concat_ne_home hcursor site)
  · rw [Drive.follow, hinstances]
    exact h.nodes

/-- A slot is entered for the first time. -/
theorem enterMade (hlinked : library.Linked) (hlength : layout.length = heap.length)
    (h : driver.Shows library layout heap drive) {site : Site}
    (hnone : (driver.root, drive.cursor ++ [site]) ∉ layout) (hcursor : drive.cursor ≠ [])
    {ref : NodeRef Nat} {fresh : Cell} (hfresh : library.instantiate ref = .ok fresh) :
    (driver.follow (.enter heap.length)).Shows library
      (layout ++ [(driver.root, drive.cursor ++ [site])]) (heap ++ [fresh])
      (drive.follow library.named (.enter site (ref.named library))) := by
  obtain ⟨above, target, hroot, hserves⟩ := h.root
  obtain ⟨current, hcurrent⟩ := h.cursor
  refine ⟨h.name, h.trigger, h.interval, h.lastFired,
    ⟨above, target, (stands_concat hlength).2 (.inl hroot), hserves⟩,
    ⟨fresh, (stands_concat hlength).2 (.inr ⟨rfl, rfl, rfl⟩)⟩, ?_, ?_⟩
  · exact iff_of_false (Option.some_ne_none _) (concat_ne_home hcursor site)
  · rw [Drive.follow, hlinked.fresh_named hfresh]
    exact h.nodes.enter hlength hcurrent hnone fresh

end DriveCell.Shows

/-! ## Firing -/

/-- What firing a drive element over a heap leaves, where it shows the given one afterwards. -/
structure Fared (library : Library Nat) (layout : Layout) (heap : Heap) (root : Handle)
    (layout' : Layout) (heap' : Heap) (driver' : DriveCell) (drive' : Drive) : Prop where
  laid : Laid library layout' heap'
  shown : driver'.Shows library layout' heap' drive'
  untouched : ∀ other, other ≠ root → Untouched layout heap layout' heap' other
  grown : ∃ new, layout' = layout ++ new ∧ ∀ place ∈ new, place.1 = root
  root : driver'.root = root

/-- Where a firing leaves the cursor: after a failure it stays. -/
def Jump.ofResult : Except (Trouble ε) Jump → Jump
  | .ok jump => jump
  | .error _ => .stay

/-- What the firing of a drive element comes to on the heap, once what its cell does is known. -/
theorem DriveCell.fire_eq {driver : DriveCell} {world : World ω ε}
    (hcursor : heap[driver.cursor]? = some cell) {w w' : ω} {result : Except (Trouble ε) Jump}
    {cell' : Cell} {heap' : Heap}
    (hcell : cell.fire library world (heap, w) = (result, cell', heap', w')) (now : Int) :
    ({ driver with lastFired := now } : DriveCell).fire library world (heap, w) =
      (result.map fun _ => (),
        ({ driver with lastFired := now } : DriveCell).follow (.ofResult result),
        heap'.set driver.cursor cell', w') := by
  have hkept : ({ driver with lastFired := now } : DriveCell).cursor = driver.cursor := rfl
  rw [fire, hkept, hcursor]
  dsimp only
  rw [hcell]
  cases result <;> rfl

/-- What firing leaves where a slot was entered for the first time: heap and layout have grown by
the new instance, and nothing has changed below the other roots. -/
theorem DriveCell.Shows.fared_made (hlinked : library.Linked) {driver : DriveCell} {drive : Drive}
    {cell' fresh : Cell} {site : Site} {slot : Slot}
    (h : driver.Shows library layout (heap.set handle cell') drive)
    (hmaking : Making library layout heap handle driver.root drive.cursor cell cell' fresh
      site slot) :
    Fared library layout heap driver.root (layout ++ [(driver.root, drive.cursor ++ [site])])
      ((heap ++ [fresh]).set handle cell') (driver.follow (.enter heap.length))
      (drive.follow library.named (.enter site (slot.ref.named library))) := by
  have hlaid := hmaking.laid
  have hless := (List.getElem?_eq_some_iff.1 hmaking.before).1
  have hnone :=
    hlaid.not_mem_of_vacant hmaking.place hmaking.before hmaking.entered hmaking.vacant
  have hlength : layout.length = (heap.set handle cell').length := by
    rw [List.length_set, hlaid.length]
  -- The new cell comes behind all others, so it does not matter which is written first.
  have hset : (heap ++ [fresh]).set handle cell' =
      heap.set handle cell' ++ [fresh] := List.set_append_left _ _ hless
  have hshown := h.enterMade hlinked hlength hnone (hlaid.path_ne_nil hmaking.place)
    hmaking.instantiated
  rw [List.length_set, ← hset] at hshown
  refine ⟨hmaking.laid_after hlinked, hshown, ?_, ?_, rfl⟩
  · intro other hne
    rw [hset]
    exact (untouched_set hne ⟨hmaking.place, hmaking.before⟩ cell').trans
      (untouched_concat hne hlength _ _)
  · refine ⟨_, rfl, fun place hmem => ?_⟩
    rw [List.mem_singleton.1 hmem]

/-- A drive element is fired where the one that it shows is. -/
theorem DriveCell.Shows.fire {driver : DriveCell} {drive : Drive} (hlinked : library.Linked)
    (hlaid : Laid library layout heap) (h : driver.Shows library layout heap drive) (now : Int)
    {world : World ω ε} {w w' : ω} {moved : Except ε Move} {node' : Node}
    (hfire : (drive.node library.named).fire world w = (moved, node', w')) :
    ∃ driver' layout' heap',
      ({ driver with lastFired := now } : DriveCell).fire library world (heap, w) =
          ((moved.map fun _ => ()).mapError .raised, driver', heap', w') ∧
        Fared library layout heap driver.root layout' heap' driver'
          ((drive.store now node').follow library.named (.ofResult moved)) := by
  obtain ⟨cell, hcursor⟩ := h.cursor
  obtain ⟨target, hserves⟩ := hlaid.serves hcursor.2
  rw [h.node_eq hcursor] at hfire
  obtain ⟨result, cell', heap₁, hcell, hmatched⟩ :=
    Cell.fire_matched hlinked hserves heap hfire
  have hpath := hlaid.path_ne_nil hcursor.1
  have hstored := h.store hlaid hcursor hmatched.vacant now
  rw [hmatched.read] at hstored
  have hother : ∀ other, other ≠ driver.root →
      Untouched layout heap layout (heap.set driver.cursor cell') other :=
    fun other hne => untouched_set hne hcursor cell'
  -- Unless a slot is entered for the first time, the layout stays as it is.
  have hsame : cell'.slot? = cell.slot? → Laid library layout (heap.set driver.cursor cell') :=
    fun hslots => hlaid.congr (outline_set hcursor.2 hslots hmatched.vacant)
  have hkeep : ∃ new, layout = layout ++ new ∧ ∀ place ∈ new, place.1 = driver.root :=
    ⟨[], (List.append_nil layout).symm, by simp⟩
  rw [DriveCell.fire_eq hcursor.2 hcell now]
  cases hmatched.passage with
  | failed e hslots =>
    exact ⟨_, layout, _, rfl, hsame hslots, hstored, hother, hkeep, rfl⟩
  | stayed hslots =>
    exact ⟨_, layout, _, rfl, hsame hslots, hstored, hother, hkeep, rfl⟩
  | returned hslots =>
    exact ⟨_, layout, _, rfl, hsame hslots, hstored.home, hother, hkeep, rfl⟩
  | @entered _ site slot slot' handle _ hslot hentered hslots =>
    cases hentered with
    | again hheld =>
      have hkept : cell'.slot? = cell.slot? := by
        funext other
        rw [hslots other]
        split
        · rename_i heq
          rw [heq, hslot]
        · rfl
      obtain ⟨hplace, below, hbelow, -⟩ := hlaid.child hcursor.1 hcursor.2 hslot hheld
      have hlaid' := hsame hkept
      obtain ⟨found, hfound⟩ := hlaid'.exists_stands hplace
      exact ⟨_, layout, _, rfl, hlaid', hstored.enterAgain hfound hpath _, hother,
        hkeep, rfl⟩
    | @made fresh hvacant hfresh =>
      have hmaking : Making library layout heap driver.cursor driver.root drive.cursor cell cell'
          fresh site slot :=
        ⟨hlaid, hcursor.1, hcursor.2, hslot, hvacant, hfresh, hmatched.vacant, hslots⟩
      have hfared := hstored.fared_made hlinked hmaking
      exact ⟨_, _, _, rfl, hfared⟩

end SlipStack.Engine
