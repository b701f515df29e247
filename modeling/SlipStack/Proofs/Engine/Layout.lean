import SlipStack.Proofs.Engine.Reading

/-!
# Where instances are

A heap is laid out (`Laid`) if it is a forest: every instance is the root of a drive element, or
is held by one slot of one instance that was made before it. The ghost of this is a `Layout`,
which gives for every handle the root above it and the path that leads there. An instance is
where its path leads (`Heap.Leads`), and is nowhere else (`Laid.leads_iff`).

Firing keeps a heap laid out, whether it enters a slot for the first time (`Making.laid_after`) or
not (`Laid.congr`). A reset goes through all instances below a root and through no others
(`Laid.reset`), and it comes to an end.
-/

namespace SlipStack.Engine

/-- For every handle the root above it and the path from there. -/
abbrev Layout := List (Handle × Path)

/-- The path leads from the root to the handle, through slots that hold the instance at the
next site. -/
inductive Heap.Leads (heap : Heap) (root : Handle) : Path → Handle → Prop
  | root : Leads heap root Drive.home root
  | site {path : Path} {handle held : Handle} {cell : Cell} {site : Site} {slot : Slot} :
      Leads heap root path handle → heap[handle]? = some cell → cell.slot? site = some slot →
      slot.held = some held → Leads heap root (path ++ [site]) held

/-- Every instance of the heap has one place in the layout and is an instance of a definition,
and the slots hold what is at the sites below. -/
structure Laid (library : Library Nat) (layout : Layout) (heap : Heap) : Prop where
  length : layout.length = heap.length
  nodup : layout.Nodup
  serves : ∀ ⦃handle : Handle⦄ ⦃cell : Cell⦄, heap[handle]? = some cell →
    ∃ target, cell.Serves library target
  child : ∀ ⦃handle owner held : Handle⦄ ⦃path : Path⦄ ⦃cell : Cell⦄ ⦃site : Site⦄ ⦃slot : Slot⦄,
    layout[handle]? = some (owner, path) → heap[handle]? = some cell →
    cell.slot? site = some slot → slot.held = some held →
    layout[held]? = some (owner, path ++ [site]) ∧
      ∃ below, heap[held]? = some below ∧ below.Serves library (.node slot.ref)
  parent : ∀ ⦃handle owner : Handle⦄ ⦃path : Path⦄, layout[handle]? = some (owner, path) →
    path = Drive.home ∧ owner = handle ∨
      ∃ holder front cell site slot, holder < handle ∧ path = front ++ [site] ∧
        layout[holder]? = some (owner, front) ∧ heap[holder]? = some cell ∧
        cell.slot? site = some slot ∧ slot.held = some handle

variable {library : Library Nat} {layout : Layout} {heap heap' : Heap}

/-! ## What layouts depend on -/

/-- The slots of a cell, and what it is an instance of. -/
def Cell.outline (cell : Cell) : (Site → Option Slot) × Cell :=
  (cell.slot?, cell.vacant)

/-- Heaps with the same outlines have like cells behind the same handles. -/
theorem exists_of_outline (h : heap'.map Cell.outline = heap.map Cell.outline) {handle : Handle}
    {cell : Cell} (hcell : heap[handle]? = some cell) :
    ∃ cell', heap'[handle]? = some cell' ∧ cell'.slot? = cell.slot? ∧
      cell'.vacant = cell.vacant := by
  have houtline : (heap'.map Cell.outline)[handle]? = some cell.outline := by
    rw [h, List.getElem?_map, hcell]
    rfl
  rw [List.getElem?_map, Option.map_eq_some_iff] at houtline
  obtain ⟨cell', hcell', hsame⟩ := houtline
  exact ⟨cell', hcell', congrArg Prod.fst hsame, congrArg Prod.snd hsame⟩

/-- Whether a cell serves a target is a matter of its definition only, not of what has been spent
in it or what its slots hold. -/
theorem Cell.Serves.congr {target : Target Nat} {cell cell' : Cell}
    (h : cell.Serves library target) (hvacant : cell'.vacant = cell.vacant) :
    cell'.Serves library target := by
  unfold Serves
  rw [hvacant]
  exact h

/-- A heap whose cells change in counters and cursors only is laid out as before. -/
theorem Laid.congr (h : Laid library layout heap)
    (houtline : heap'.map Cell.outline = heap.map Cell.outline) : Laid library layout heap' := by
  have hlength : heap'.length = heap.length := by
    simpa using congrArg List.length houtline
  refine ⟨h.length.trans hlength.symm, h.nodup, ?_, ?_, ?_⟩
  · intro handle cell' hcell'
    obtain ⟨cell, hcell, -, hvacant⟩ := exists_of_outline houtline.symm hcell'
    obtain ⟨target, hserves⟩ := h.serves hcell
    exact ⟨target, hserves.congr hvacant.symm⟩
  · intro handle owner held path cell' site slot hplace hcell' hslot hheld
    obtain ⟨cell, hcell, hslots, -⟩ := exists_of_outline houtline.symm hcell'
    rw [← hslots] at hslot
    obtain ⟨hbelow, below, hfound, hserves⟩ := h.child hplace hcell hslot hheld
    obtain ⟨below', hfound', -, hvacant⟩ := exists_of_outline houtline hfound
    exact ⟨hbelow, below', hfound', hserves.congr hvacant⟩
  · intro handle owner path hplace
    rcases h.parent hplace with hroot |
      ⟨holder, front, cell, site, slot, hless, hpath, habove, hcell, hslot, hheld⟩
    · exact .inl hroot
    · obtain ⟨cell', hcell', hslots, -⟩ := exists_of_outline houtline hcell
      rw [← hslots] at hslot
      exact .inr ⟨holder, front, cell', site, slot, hless, hpath, habove, hcell', hslot, hheld⟩

/-- A cell that is overwritten by one with the same slots and definition leaves the outline of the
heap as it is. -/
theorem outline_set {handle : Handle} {cell cell' : Cell} (hcell : heap[handle]? = some cell)
    (hslots : cell'.slot? = cell.slot?) (hvacant : cell'.vacant = cell.vacant) :
    (heap.set handle cell').map Cell.outline = heap.map Cell.outline := by
  have hsame : cell'.outline = cell.outline := Prod.ext hslots hvacant
  have hless := (List.getElem?_eq_some_iff.1 hcell).1
  refine List.ext_getElem? fun i => ?_
  rw [List.getElem?_map, List.getElem?_map, List.getElem?_set]
  by_cases hi : handle = i
  · subst hi
    rw [if_pos rfl, if_pos hless, hcell]
    exact congrArg some hsame
  · rw [if_neg hi]

/-! ## Places -/

namespace Laid

variable {handle handle' owner : Handle} {path : Path}

/-- A place has one handle. -/
theorem handle_unique (h : Laid library layout heap) {place : Handle × Path}
    (hplace : layout[handle]? = some place) (hplace' : layout[handle']? = some place) :
    handle = handle' := by
  obtain ⟨hless, heq⟩ := List.getElem?_eq_some_iff.1 hplace
  obtain ⟨hless', heq'⟩ := List.getElem?_eq_some_iff.1 hplace'
  exact (h.nodup.getElem_inj_iff).1 (heq.trans heq'.symm)

/-- No handle stands for the empty path, as every instance lies in some slot. -/
theorem path_ne_nil (h : Laid library layout heap)
    (hplace : layout[handle]? = some (owner, path)) : path ≠ [] := by
  rcases h.parent hplace with ⟨rfl, -⟩ | ⟨_, _, _, _, _, _, rfl, -⟩ <;> simp [Drive.home]

/-- Every handle in the layout leads to a cell of the heap. -/
theorem exists_cell (h : Laid library layout heap) {place : Handle × Path}
    (hplace : layout[handle]? = some place) : ∃ cell, heap[handle]? = some cell := by
  obtain ⟨hless, -⟩ := List.getElem?_eq_some_iff.1 hplace
  rw [h.length] at hless
  exact ⟨_, List.getElem?_eq_getElem hless⟩

/-- Where something is at a site, the slot of the instance above holds it. -/
theorem held_of_place (h : Laid library layout heap) {site : Site} {cell : Cell}
    (hplace : layout[handle]? = some (owner, path)) (hcell : heap[handle]? = some cell)
    (hbelow : layout[handle']? = some (owner, path ++ [site])) :
    handle < handle' ∧ ∃ slot, cell.slot? site = some slot ∧ slot.held = some handle' := by
  rcases h.parent hbelow with ⟨hhome, -⟩ |
    ⟨holder, front, cell', site', slot, hless, hpath, habove, hcell', hslot, hheld⟩
  · have hnil : path = [] := by
      cases path with
      | nil => rfl
      | cons first rest => simp [Drive.home] at hhome
    exact absurd hnil (h.path_ne_nil hplace)
  · obtain ⟨rfl, rfl⟩ : path = front ∧ site = site' := by simpa using hpath
    obtain rfl := h.handle_unique hplace habove
    rw [hcell] at hcell'
    cases hcell'
    exact ⟨hless, slot, hslot, hheld⟩

/-- Above every place is a root, which is at home. -/
theorem exists_below_home (h : Laid library layout heap)
    (hplace : layout[handle]? = some (owner, path)) :
    layout[owner]? = some (owner, Drive.home) ∧ ∃ below, path = Drive.home ++ below := by
  induction handle using Nat.strongRecOn generalizing path with
  | ind handle ih =>
    rcases h.parent hplace with ⟨rfl, rfl⟩ | ⟨holder, front, _, site, _, hless, rfl, habove, -⟩
    · exact ⟨hplace, [], (List.append_nil _).symm⟩
    · obtain ⟨hroot, below, rfl⟩ := ih holder hless habove
      exact ⟨hroot, below ++ [site], List.append_assoc ..⟩

/-- A path leads to the one handle whose place it is. -/
theorem leads_iff (h : Laid library layout heap)
    (hroot : layout[owner]? = some (owner, Drive.home)) :
    heap.Leads owner path handle ↔ layout[handle]? = some (owner, path) := by
  constructor
  · intro hleads
    induction hleads with
    | root => exact hroot
    | site _ hcell hslot hheld ih => exact (h.child ih hcell hslot hheld).1
  · intro hplace
    induction handle using Nat.strongRecOn generalizing path with
    | ind handle ih =>
      rcases h.parent hplace with ⟨rfl, rfl⟩ |
        ⟨holder, front, cell, site, slot, hless, rfl, habove, hcell, hslot, hheld⟩
      · exact .root
      · exact .site (ih holder hless habove) hcell hslot hheld

end Laid

/-! ## A slot that is entered for the first time -/

/-- A cell that is made for a target is vacant: nothing in it has been spent and no slot is
filled. -/
theorem Library.vacant_of_instantiateTarget {target : Target Nat} {cell : Cell}
    (h : library.instantiateTarget target = .ok cell) : cell.vacant = cell := by
  cases target with
  | action => cases h; rfl
  | node ref =>
    cases ref with
    | competence index =>
      rw [instantiateTarget, instantiate] at h
      split at h <;> cases h
      rw [Competence.cell, Cell.vacant, map_levels_map]
      have hfresh : ElementCell.vacant ∘ ElementCell.fresh = ElementCell.fresh := by
        funext element
        cases htarget : element.target <;>
          simp [ElementCell.vacant, ElementCell.fresh, htarget, Aim.ofTarget, Aim.vacant,
            Slot.vacant]
      rw [hfresh]
    | pattern index =>
      rw [instantiateTarget, instantiate] at h
      split at h <;> cases h
      rw [Pattern.cell, Cell.vacant, Option.map_map]
      rfl

/-- A cell that is made for a target serves it. -/
theorem Library.serves_of_instantiateTarget {target : Target Nat} {cell : Cell}
    (h : library.instantiateTarget target = .ok cell) : cell.Serves library target := by
  unfold Cell.Serves
  rw [vacant_of_instantiateTarget h]
  exact h

theorem getElem?_concat {α : Type} {xs : List α} {x y : α} {i : Nat} :
    (xs ++ [x])[i]? = some y ↔ xs[i]? = some y ∨ i = xs.length ∧ x = y := by
  rcases Nat.lt_trichotomy i xs.length with hless | rfl | hmore
  · rw [List.getElem?_append_left hless]
    simp [Nat.ne_of_lt hless]
  · simp
  · have hnone : (xs ++ [x])[i]? = none := List.getElem?_eq_none (by simp; omega)
    have hnone' : xs[i]? = none := List.getElem?_eq_none (Nat.le_of_lt hmore)
    simp [hnone, hnone', Nat.ne_of_gt hmore]

section Making

variable {handle owner : Handle} {path : Path} {cell cell' fresh : Cell} {site : Site} {slot : Slot}

/-- The heap in which a cell has changed and a new one was added, handle by handle. -/
theorem getElem?_made (hcell : heap[handle]? = some cell) {i : Handle} {found : Cell} :
    ((heap ++ [fresh]).set handle cell')[i]? = some found ↔
      i = handle ∧ found = cell' ∨ i ≠ handle ∧ heap[i]? = some found ∨
        i = heap.length ∧ found = fresh := by
  have hless : handle < List.length heap := (List.getElem?_eq_some_iff.1 hcell).1
  rw [List.getElem?_set]
  by_cases hi : handle = i
  · subst hi
    have hne : ¬ handle = List.length heap := Nat.ne_of_lt hless
    simp [Nat.lt_succ_of_lt hless, hne, eq_comm]
  · rw [if_neg hi, getElem?_concat]
    simp [Ne.symm hi, eq_comm]

/-- Nothing is at a site whose slot is vacant. -/
theorem Laid.not_mem_of_vacant (h : Laid library layout heap)
    (hplace : layout[handle]? = some (owner, path)) (hcell : heap[handle]? = some cell)
    (hslot : cell.slot? site = some slot) (hvacant : slot.held = none) :
    (owner, path ++ [site]) ∉ layout := by
  intro hmem
  obtain ⟨below, hbelow⟩ := List.getElem?_of_mem hmem
  obtain ⟨-, slot', hslot', hheld⟩ := h.held_of_place hplace hcell hbelow
  rw [hslot] at hslot'
  cases hslot'
  rw [hvacant] at hheld
  cases hheld

/-- A new instance is made for a slot that was vacant: it is added to the heap, and the slot holds
it from now on. The cell is as it was otherwise. -/
structure Making (library : Library Nat) (layout : Layout) (heap : Heap) (handle owner : Handle)
    (path : Path) (cell cell' fresh : Cell) (site : Site) (slot : Slot) : Prop where
  laid : Laid library layout heap
  place : layout[handle]? = some (owner, path)
  before : heap[handle]? = some cell
  entered : cell.slot? site = some slot
  vacant : slot.held = none
  instantiated : library.instantiate slot.ref = .ok fresh
  same : cell'.vacant = cell.vacant
  slots : ∀ other, cell'.slot? other =
    if other = site then some { slot with held := some heap.length } else cell.slot? other

namespace Making

/-- What was there is there still. The changed cell serves what it served before. -/
theorem exists_after (h : Making library layout heap handle owner path cell cell' fresh site slot)
    {i : Handle} {found : Cell} (hfound : heap[i]? = some found) :
    ∃ found', ((heap ++ [fresh]).set handle cell')[i]? = some found' ∧
      found'.vacant = found.vacant := by
  by_cases hi : i = handle
  · subst hi
    rw [h.before] at hfound
    cases hfound
    exact ⟨cell', (getElem?_made h.before).2 (.inl ⟨rfl, rfl⟩), h.same⟩
  · exact ⟨found, (getElem?_made h.before).2 (.inr (.inl ⟨hi, hfound⟩)), rfl⟩

/-- The new instance serves the reference of the slot that it was made for. -/
theorem serves_fresh
    (h : Making library layout heap handle owner path cell cell' fresh site slot) :
    fresh.Serves library (.node slot.ref) :=
  Library.serves_of_instantiateTarget h.instantiated

/-- An instance that was there has the place that it had before. -/
theorem place_before (h : Making library layout heap handle owner path cell cell' fresh site slot)
    {i : Handle} {found : Cell} {place : Handle × Path} (hfound : heap[i]? = some found)
    (hi : (layout ++ [(owner, path ++ [site])])[i]? = some place) : layout[i]? = some place := by
  have hless := (List.getElem?_eq_some_iff.1 hfound).1
  rwa [List.getElem?_append_left (h.laid.length ▸ hless)] at hi

/-- No place is given twice: nothing was at the site of the vacant slot. -/
theorem nodup (h : Making library layout heap handle owner path cell cell' fresh site slot) :
    (layout ++ [(owner, path ++ [site])]).Nodup := by
  have hnew := h.laid.not_mem_of_vacant h.place h.before h.entered h.vacant
  refine List.nodup_append.2
    ⟨h.laid.nodup, List.nodup_singleton _, fun place hmem other hother => ?_⟩
  rw [List.mem_singleton.1 hother]
  exact fun heq => hnew (heq ▸ hmem)

/-- Every instance is of some definition, the new one of that of the slot. -/
theorem exists_serves
    (h : Making library layout heap handle owner path cell cell' fresh site slot)
    {i : Handle} {found : Cell}
    (hfound : ((heap ++ [fresh]).set handle cell')[i]? = some found) :
    ∃ target, found.Serves library target := by
  rcases (getElem?_made h.before).1 hfound with ⟨rfl, rfl⟩ | ⟨-, hbefore⟩ | ⟨-, rfl⟩
  · obtain ⟨target, hserves⟩ := h.laid.serves h.before
    exact ⟨target, hserves.congr h.same⟩
  · exact h.laid.serves hbefore
  · exact ⟨_, h.serves_fresh⟩

/-- What a slot held before is at the same place after it. -/
theorem child_before (h : Making library layout heap handle owner path cell cell' fresh site slot)
    {i o held : Handle} {p : Path} {found : Cell} {other : Site} {s : Slot}
    (hi : layout[i]? = some (o, p)) (hfound : heap[i]? = some found)
    (hs : found.slot? other = some s) (hheld : s.held = some held) :
    (layout ++ [(owner, path ++ [site])])[held]? = some (o, p ++ [other]) ∧
      ∃ below, ((heap ++ [fresh]).set handle cell')[held]? = some below ∧
        below.Serves library (.node s.ref) := by
  obtain ⟨hplace, below, hbelow, hserves⟩ := h.laid.child hi hfound hs hheld
  obtain ⟨below', hbelow', hvacant⟩ := h.exists_after hbelow
  exact ⟨getElem?_concat.2 (.inl hplace), below', hbelow', hserves.congr hvacant⟩

/-- What any slot holds is at the site below it. In the changed cell this is the new instance at
the site that was entered, and what was there before at all others. -/
theorem child (hlinked : library.Linked)
    (h : Making library layout heap handle owner path cell cell' fresh site slot)
    {i o held : Handle} {p : Path} {found : Cell} {other : Site} {s : Slot}
    (hi : (layout ++ [(owner, path ++ [site])])[i]? = some (o, p))
    (hfound : ((heap ++ [fresh]).set handle cell')[i]? = some found)
    (hs : found.slot? other = some s) (hheld : s.held = some held) :
    (layout ++ [(owner, path ++ [site])])[held]? = some (o, p ++ [other]) ∧
      ∃ below, ((heap ++ [fresh]).set handle cell')[held]? = some below ∧
        below.Serves library (.node s.ref) := by
  rcases (getElem?_made h.before).1 hfound with ⟨rfl, rfl⟩ | ⟨-, hbefore⟩ | ⟨-, rfl⟩
  · have hat := h.place_before h.before hi
    rw [h.slots] at hs
    by_cases hother : other = site
    · subst hother
      obtain ⟨rfl, rfl⟩ := Prod.mk.inj (Option.some.inj (h.place.symm.trans hat))
      rw [if_pos rfl] at hs
      cases hs
      cases hheld
      refine ⟨getElem?_concat.2 (.inr ⟨h.laid.length.symm, rfl⟩), fresh, ?_, h.serves_fresh⟩
      exact (getElem?_made h.before).2 (.inr (.inr ⟨rfl, rfl⟩))
    · rw [if_neg hother] at hs
      exact h.child_before hat h.before hs hheld
  · exact h.child_before (h.place_before hbefore hi) hbefore hs hheld
  · -- Nothing was entered from a new instance.
    have hinstance : library.instantiateTarget (.node slot.ref) = .ok _ := h.instantiated
    have hnone := (hlinked.slot?_instantiate hinstance hs).2
    rw [hnone] at hheld
    cases hheld

/-- A slot that held something holds it still: the one that is entered was vacant. -/
theorem held_after (h : Making library layout heap handle owner path cell cell' fresh site slot)
    {holder held : Handle} {above : Cell} {other : Site} {s : Slot}
    (habove : heap[holder]? = some above) (hs : above.slot? other = some s)
    (hheld : s.held = some held) :
    ∃ above', ((heap ++ [fresh]).set handle cell')[holder]? = some above' ∧
      above'.slot? other = some s := by
  by_cases hholder : holder = handle
  · subst hholder
    rw [h.before] at habove
    cases habove
    have hne : other ≠ site := by
      intro heq
      rw [heq, h.entered] at hs
      cases hs
      rw [h.vacant] at hheld
      cases hheld
    refine ⟨cell', (getElem?_made h.before).2 (.inl ⟨rfl, rfl⟩), ?_⟩
    rw [h.slots, if_neg hne, hs]
  · exact ⟨above, (getElem?_made h.before).2 (.inr (.inl ⟨hholder, habove⟩)), hs⟩

/-- Every instance but a root is held by a slot of one that was made before it. -/
theorem parent (h : Making library layout heap handle owner path cell cell' fresh site slot)
    {i o : Handle} {p : Path}
    (hi : (layout ++ [(owner, path ++ [site])])[i]? = some (o, p)) :
    p = Drive.home ∧ o = i ∨
      ∃ holder front above other s, holder < i ∧ p = front ++ [other] ∧
        (layout ++ [(owner, path ++ [site])])[holder]? = some (o, front) ∧
        ((heap ++ [fresh]).set handle cell')[holder]? = some above ∧
        above.slot? other = some s ∧ s.held = some i := by
  rcases getElem?_concat.1 hi with hat | ⟨rfl, heq⟩
  · rcases h.laid.parent hat with hroot |
      ⟨holder, front, above, other, s, hless, hpath, hplace, habove, hs, hheld⟩
    · exact .inl hroot
    · obtain ⟨above', habove', hs'⟩ := h.held_after habove hs hheld
      exact .inr ⟨holder, front, above', other, s, hless, hpath,
        getElem?_concat.2 (.inl hplace), habove', hs', hheld⟩
  · cases heq
    refine .inr ⟨handle, path, cell', site, { slot with held := some heap.length }, ?_, rfl,
      getElem?_concat.2 (.inl h.place), (getElem?_made h.before).2 (.inl ⟨rfl, rfl⟩), ?_, ?_⟩
    · exact h.laid.length ▸ (List.getElem?_eq_some_iff.1 h.before).1
    · rw [h.slots, if_pos rfl]
    · rw [h.laid.length]

/-- A heap stays laid out when an instance is made. The new one has the place at the site of its
slot. -/
theorem laid_after (hlinked : library.Linked)
    (h : Making library layout heap handle owner path cell cell' fresh site slot) :
    Laid library (layout ++ [(owner, path ++ [site])]) ((heap ++ [fresh]).set handle cell') where
  length := by simp [h.laid.length]
  nodup := h.nodup
  serves _ _ hfound := h.exists_serves hfound
  child _ _ _ _ _ _ _ hi hfound hs hheld := h.child hlinked hi hfound hs hheld
  parent _ _ _ hi := h.parent hi

end Making

end Making

end SlipStack.Engine
