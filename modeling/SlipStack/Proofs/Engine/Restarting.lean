import Mathlib.Data.List.Induction
import SlipStack.Proofs.Engine.Layout

/-!
# Resets go through every instance

`Heap.reset` follows what slots hold from an instance downwards. In a heap that is laid out it
comes to an end, finds every instance, and restarts those at and below the one that it starts
from, each in the end as if once (`Laid.reset`). The instances below have greater handles, so
the greatest depth that is ever needed is the number of instances.

To reset all roots one after the other therefore restarts the whole heap (`Laid.resetRoots`):
that is one change of every cell, and no cell is left out.
-/

namespace SlipStack.Engine

/-! ## Restarting a cell -/

namespace Cell

/-- Restarting a cell leaves its slots and what they hold, so handles that were reachable before
are so after it. -/
theorem slot?_restart (cell : Cell) : cell.restart.slot? = cell.slot? := by
  funext site
  match cell, site with
  | .action _, _ => rfl
  | .competence _ _, .root | .competence _ _, .handoff => rfl
  | .pattern _ _ _, .root | .pattern _ _ _, .element _ | .pattern _ _ _, .handoff => rfl
  | .competence definition levels, .element position =>
    rw [restart, slot?, slot?, ← List.map_flatten, List.getElem?_map, Option.bind_map]
    rfl

/-- Restarting does not change what a cell was made from. -/
theorem vacant_restart (cell : Cell) : cell.restart.vacant = cell.vacant := by
  cases cell with
  | action | pattern => rfl
  | competence definition levels =>
    rw [restart, vacant, vacant, map_levels_map]
    rfl

theorem restart_restart (cell : Cell) : cell.restart.restart = cell.restart := by
  cases cell with
  | action | pattern => rfl
  | competence definition levels =>
    rw [restart, restart, map_levels_map]
    rfl

theorem outline_restart (cell : Cell) : cell.restart.outline = cell.outline :=
  Prod.ext cell.slot?_restart cell.vacant_restart

/-- The slots of a cell are what is at its sites. -/
theorem mem_slots {cell : Cell} {slot : Slot} :
    slot ∈ cell.slots ↔ ∃ site, cell.slot? site = some slot := by
  cases cell with
  | action capability => simp [slots, slot?]
  | competence definition levels =>
    rw [slots, List.mem_filterMap]
    constructor
    · intro h
      obtain ⟨element, hmem, hslot⟩ := h
      obtain ⟨position, hposition⟩ := List.getElem?_of_mem hmem
      refine ⟨.element position, ?_⟩
      rw [slot?, hposition]
      exact hslot
    · intro h
      obtain ⟨site, hslot⟩ := h
      cases site with
      | root | handoff => cases hslot
      | element position =>
        obtain ⟨element, helement, hslot⟩ := Option.bind_eq_some_iff.1 hslot
        exact ⟨element, List.mem_of_getElem? helement, hslot⟩
  | pattern definition cursor handoff =>
    rw [slots, Option.mem_toList]
    constructor
    · intro h
      exact ⟨.handoff, h⟩
    · intro h
      obtain ⟨site, hslot⟩ := h
      cases site with
      | root | element => cases hslot
      | handoff => exact hslot

/-- The instances that were entered from a cell. -/
theorem mem_held {cell : Cell} {handle : Handle} :
    handle ∈ cell.slots.filterMap (·.held) ↔
      ∃ site slot, cell.slot? site = some slot ∧ slot.held = some handle := by
  rw [List.mem_filterMap]
  constructor
  · intro h
    obtain ⟨slot, hmem, hheld⟩ := h
    obtain ⟨site, hslot⟩ := mem_slots.1 hmem
    exact ⟨site, slot, hslot, hheld⟩
  · intro h
    obtain ⟨site, slot, hslot, hheld⟩ := h
    exact ⟨slot, mem_slots.2 ⟨site, hslot⟩, hheld⟩

end Cell

/-! ## Restarting some cells -/

/-- The second heap is the first with the cells restarted that have the property. -/
structure Restarts (p : Handle → Prop) (heap heap' : Heap) : Prop where
  restarted : ∀ handle, p handle → heap'[handle]? = heap[handle]?.map Cell.restart
  kept : ∀ handle, ¬ p handle → heap'[handle]? = heap[handle]?

namespace Restarts

variable {p q : Handle → Prop} {heap heap₁ heap' : Heap}

theorem congr (h : Restarts p heap heap') (hiff : ∀ handle, p handle ↔ q handle) :
    Restarts q heap heap' := by
  have hsame : p = q := funext fun handle => propext (hiff handle)
  rwa [← hsame]

theorem refl (heap : Heap) : Restarts (fun _ => False) heap heap :=
  ⟨fun _ hfalse => hfalse.elim, fun _ _ => rfl⟩

/-- A cell that is restarted twice is restarted. -/
theorem trans (h : Restarts p heap heap₁) (h' : Restarts q heap₁ heap') :
    Restarts (fun handle => p handle ∨ q handle) heap heap' := by
  have htwice : Cell.restart ∘ Cell.restart = Cell.restart := funext Cell.restart_restart
  constructor
  · intro handle hhandle
    by_cases hq : q handle
    · rw [h'.restarted handle hq]
      by_cases hp : p handle
      · rw [h.restarted handle hp, Option.map_map, htwice]
      · rw [h.kept handle hp]
    · rw [h'.kept handle hq, h.restarted handle (hhandle.resolve_right hq)]
  · intro handle hhandle
    rw [h'.kept handle (hhandle ∘ .inr), h.kept handle (hhandle ∘ .inl)]

/-- Restarting the cell behind one handle restarts just that cell of the heap. -/
theorem set {handle : Handle} {cell : Cell} (hcell : heap[handle]? = some cell) :
    Restarts (· = handle) heap (heap.set handle cell.restart) := by
  have hless := (List.getElem?_eq_some_iff.1 hcell).1
  constructor
  · intro other hother
    rw [hother, List.getElem?_set_self hless, hcell]
    rfl
  · intro other hother
    exact List.getElem?_set_ne (Ne.symm hother)

/-- Heaps that differ by restarts have the same outline: the same slots, holding the same handles.
-/
theorem outline (h : Restarts p heap heap') :
    heap'.map Cell.outline = heap.map Cell.outline := by
  refine List.ext_getElem? fun handle => ?_
  rw [List.getElem?_map, List.getElem?_map]
  by_cases hp : p handle
  · rw [h.restarted handle hp, Option.map_map]
    exact congrArg (Option.map · heap[handle]?) (funext Cell.outline_restart)
  · rw [h.kept handle hp]

end Restarts

/-! ## Following what slots hold -/

variable {library : Library Nat} {layout : Layout} {heap heap' : Heap} {handle owner : Handle}
  {path : Path}

/-- The second handle is the first or below it. -/
def Layout.Below (layout : Layout) (handle below : Handle) : Prop :=
  ∃ owner path rest, layout[handle]? = some (owner, path) ∧
    layout[below]? = some (owner, path ++ rest)

namespace Laid

/-- Above a place there is something at every site on the way. -/
theorem exists_above (h : Laid library layout heap) (hpath : path ≠ []) {rest : Path}
    (hplace : layout[handle]? = some (owner, path ++ rest)) :
    ∃ above : Handle, layout[above]? = some (owner, path) := by
  induction handle using Nat.strongRecOn generalizing rest with
  | ind handle ih =>
    cases rest using List.reverseRecOn with
    | nil => exact ⟨handle, by rwa [List.append_nil] at hplace⟩
    | append_singleton rest site =>
      rcases h.parent hplace with ⟨hhome, -⟩ | ⟨holder, front, _, site', _, hless, heq, habove, -⟩
      · -- A home has one site, which the path above has already.
        have hlength := congrArg List.length hhome
        have hpositive := List.length_pos_iff.2 hpath
        simp [Drive.home] at hlength
        omega
      · rw [← List.append_assoc] at heq
        rw [← (List.append_inj' heq rfl).1] at habove
        exact ih holder hless habove

/-- Below an instance is itself, and what is below one that was entered from it. -/
theorem below_iff (h : Laid library layout heap) (hplace : layout[handle]? = some (owner, path))
    {cell : Cell} (hcell : heap[handle]? = some cell) (below : Handle) :
    layout.Below handle below ↔
      below = handle ∨ ∃ held ∈ cell.slots.filterMap (·.held), layout.Below held below := by
  constructor
  · intro hbelow
    obtain ⟨owner', path', rest, hplace', hrest⟩ := hbelow
    rw [hplace] at hplace'
    cases hplace'
    -- Below an instance is the instance itself, or what is below one that it holds.
    cases rest with
    | nil =>
      rw [List.append_nil] at hrest
      exact .inl (h.handle_unique hrest hplace)
    | cons site rest =>
      rw [← List.singleton_append, ← List.append_assoc] at hrest
      obtain ⟨held, hheld⟩ := h.exists_above (by simp) hrest
      obtain ⟨-, slot, hslot, hslotHeld⟩ := h.held_of_place hplace hcell hheld
      exact .inr ⟨held, Cell.mem_held.2 ⟨site, slot, hslot, hslotHeld⟩, owner, _, rest, hheld,
        hrest⟩
  · intro hbelow
    rcases hbelow with rfl | ⟨held, hmem, owner', path', rest, hheld, hrest⟩
    · exact ⟨owner, path, [], hplace, by rwa [List.append_nil]⟩
    · obtain ⟨site, slot, hslot, hslotHeld⟩ := Cell.mem_held.1 hmem
      have hsite := (h.child hplace hcell hslot hslotHeld).1
      rw [hheld] at hsite
      cases hsite
      exact ⟨owner, path, site :: rest, hplace, by simpa using hrest⟩

/-- What was entered from an instance was made after it. -/
theorem lt_of_held (h : Laid library layout heap)
    (hplace : layout[handle]? = some (owner, path)) {cell : Cell}
    (hcell : heap[handle]? = some cell) {held : Handle}
    (hmem : held ∈ cell.slots.filterMap (·.held)) : handle < held ∧ held < heap.length := by
  obtain ⟨site, slot, hslot, hheld⟩ := Cell.mem_held.1 hmem
  obtain ⟨hsite, _, hfound, -⟩ := h.child hplace hcell hslot hheld
  exact ⟨(h.held_of_place hplace hcell hsite).1, (List.getElem?_eq_some_iff.1 hfound).1⟩

/-- One after the other, where each can be reset. -/
theorem foldlM_reset {depth : Nat} {handles : List Handle}
    (hreset : ∀ handle ∈ handles, ∀ heap : Heap, Laid library layout heap →
      ∃ heap', heap.reset depth handle = .ok heap' ∧ Restarts (layout.Below handle) heap heap')
    (h : Laid library layout heap) :
    ∃ heap', handles.foldlM (Heap.reset depth) heap = .ok heap' ∧
      Restarts (fun below => ∃ handle ∈ handles, layout.Below handle below) heap heap' := by
  induction handles generalizing heap with
  | nil => exact ⟨heap, rfl, (Restarts.refl heap).congr (by simp)⟩
  | cons handle handles ih =>
    obtain ⟨heap₁, hfirst, hrestarts⟩ := hreset handle List.mem_cons_self heap h
    obtain ⟨heap', hothers, hrestarts'⟩ :=
      ih (fun other hmem => hreset other (List.mem_cons_of_mem _ hmem))
        (h.congr hrestarts.outline)
    refine ⟨heap', ?_, (hrestarts.trans hrestarts').congr (by simp)⟩
    rw [List.foldlM_cons, hfirst]
    exact hothers

/-- A reset of an instance restarts what is at it and below, and nothing else. -/
theorem reset {depth : Nat} (h : Laid library layout heap) (hless : handle < heap.length)
    (hdepth : heap.length ≤ depth + handle) :
    ∃ heap', heap.reset depth handle = .ok heap' ∧ Restarts (layout.Below handle) heap heap' := by
  induction depth generalizing handle heap with
  | zero =>
    rw [Nat.zero_add] at hdepth
    exact absurd hless (Nat.not_lt.2 hdepth)
  | succ depth ih =>
    have hcell := List.getElem?_eq_getElem hless
    obtain ⟨⟨owner, path⟩, hplace⟩ : ∃ place, layout[handle]? = some place :=
      ⟨_, List.getElem?_eq_getElem (h.length ▸ hless)⟩
    have hset := Restarts.set hcell
    have hheld : ∀ held ∈ (heap[handle]).slots.filterMap (·.held), ∀ heap' : Heap,
        Laid library layout heap' → ∃ heap'', heap'.reset depth held = .ok heap'' ∧
          Restarts (layout.Below held) heap' heap'' := by
      intro held hmem heap' hlaid
      obtain ⟨hmore, hbound⟩ := h.lt_of_held hplace hcell hmem
      have hlength : heap'.length = heap.length := hlaid.length.symm.trans h.length
      -- What is held was made later, so the depth that is left still covers the handles above it.
      refine ih hlaid (hlength ▸ hbound) ?_
      calc heap'.length = heap.length := hlength
        _ ≤ depth + (handle + 1) := by rwa [Nat.add_comm handle, ← Nat.add_assoc]
        _ ≤ depth + held := Nat.add_le_add_left hmore depth
    obtain ⟨heap', hothers, hrestarts⟩ := foldlM_reset hheld (h.congr hset.outline)
    refine ⟨heap', ?_, (hset.trans hrestarts).congr fun below => ?_⟩
    · rw [Heap.reset, hcell]
      exact hothers
    · exact (h.below_iff hplace hcell below).symm

/-- To reset the roots of all instances restarts every cell. -/
theorem resetRoots (h : Laid library layout heap) {roots : List Handle}
    (hroots : ∀ root ∈ roots, layout[root]? = some (root, Drive.home))
    (howners : ∀ place ∈ layout, place.1 ∈ roots) :
    roots.foldlM (Heap.reset heap.length) heap = .ok (heap.map Cell.restart) := by
  have hreset : ∀ root ∈ roots, ∀ heap' : Heap, Laid library layout heap' →
      ∃ heap'', heap'.reset heap.length root = .ok heap'' ∧
        Restarts (layout.Below root) heap' heap'' := by
    intro root hmem heap' hlaid
    have hless := (List.getElem?_eq_some_iff.1 (hroots root hmem)).1
    have hlength : heap'.length = heap.length := hlaid.length.symm.trans h.length
    exact hlaid.reset (hlaid.length ▸ hless) (hlength ▸ Nat.le_add_right _ _)
  obtain ⟨heap', hfold, hrestarts⟩ := foldlM_reset hreset h
  rw [hfold]
  refine congrArg Except.ok (List.ext_getElem? fun handle => ?_)
  rw [List.getElem?_map]
  by_cases hless : handle < heap.length
  · obtain ⟨⟨owner, path⟩, hplace⟩ : ∃ place, layout[handle]? = some place :=
      ⟨_, List.getElem?_eq_getElem (h.length ▸ hless)⟩
    -- Every instance is below some root, and the roots are all gone through.
    obtain ⟨hroot, below, rfl⟩ := h.exists_below_home hplace
    have hmem := howners _ (List.mem_of_getElem? hplace)
    exact hrestarts.restarted handle ⟨owner, hmem, owner, Drive.home, below, hroot, hplace⟩
  · have hlength := congrArg List.length hrestarts.outline
    simp only [List.length_map] at hlength
    rw [List.getElem?_eq_none (by omega), List.getElem?_eq_none (by omega)]
    rfl

end Laid

end SlipStack.Engine
