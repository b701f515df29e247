import SlipStack.Engine.Instances

/-!
# Looking up what was stored

The nodes of a drive element are a tree, but all that counts is which node stands at which
path. To store a node changes what stands at its own path and at no other (`get?_set_ne`),
and it does so where the path has a node already or leads on from one that has
(`get?_set_self`, `get?_set_append`). Below a path without a node there is none
(`get?_below_none`).
-/

namespace SlipStack.Engine.Instances

@[simp]
theorem get?_nil (instances : Instances) : instances.get? [] = none := by
  cases instances <;> rfl

/-- A slot at the head of a tree is all that a path through its site sees. -/
theorem get?_slot_self (site : Site) (node : Node) (inner others : Instances) (rest : Path) :
    (slot site node inner others).get? (site :: rest) =
      if rest = [] then some node else inner.get? rest := by
  rw [get?, if_pos rfl]

/-- A path through another site does not see the slot at the head of a tree. -/
theorem get?_slot_ne {first site : Site} (h : first ≠ site) (node : Node)
    (inner others : Instances) (rest : Path) :
    (slot site node inner others).get? (first :: rest) = others.get? (first :: rest) := by
  rw [get?, if_neg h]

/-- Reading a path after all nodes have been changed in place gives the changed node that was
there. -/
theorem get?_map (change : Node → Node) (instances : Instances) (path : Path) :
    (instances.map change).get? path = (instances.get? path).map change := by
  induction instances generalizing path with
  | empty => rfl
  | slot site node inner others ihInner ihOthers =>
    cases path with
    | nil => rfl
    | cons first rest =>
      rw [map]
      by_cases hsite : first = site
      · subst hsite
        rw [get?_slot_self, get?_slot_self]
        split
        · rfl
        · exact ihInner rest
      · rw [get?_slot_ne hsite, get?_slot_ne hsite]
        exact ihOthers (first :: rest)

/-- What stands above a node is there as well. -/
theorem isSome_get?_up {instances : Instances} {path below : Path} (hpath : path ≠ [])
    (h : (instances.get? (path ++ below)).isSome) : (instances.get? path).isSome := by
  induction instances generalizing path with
  | empty => cases h
  | slot site node inner others ihInner ihOthers =>
    cases path with
    | nil => exact absurd rfl hpath
    | cons first rest =>
      rw [List.cons_append] at h
      by_cases hsite : first = site
      · subst hsite
        rw [get?_slot_self] at h ⊢
        by_cases hrest : rest = []
        · rw [if_pos hrest]
          rfl
        · rw [if_neg hrest]
          rw [if_neg (by simp [hrest])] at h
          exact ihInner hrest h
      · rw [get?_slot_ne hsite] at h ⊢
        exact ihOthers hpath h

/-- Nothing stands below a path that has no node. -/
theorem get?_below_none {instances : Instances} {path : Path} (hpath : path ≠ [])
    (h : instances.get? path = none) (below : Path) : instances.get? (path ++ below) = none := by
  cases hbelow : instances.get? (path ++ below) with
  | none => rfl
  | some node =>
    have hup := isSome_get?_up hpath (Option.isSome_of_eq_some hbelow)
    rw [h] at hup
    cases hup

/-! ## Storing -/

/-- Setting a node at one path leaves what other paths lead to, also those that begin alike. -/
theorem get?_set_ne (instances : Instances) {path other : Path} (node : Node)
    (h : other ≠ path) : (instances.set path node).get? other = instances.get? other := by
  induction instances generalizing path other with
  | empty =>
    match path with
    | [] => rfl
    | _ :: _ :: _ => rfl
    | [site] =>
      rw [set]
      cases other with
      | nil => rfl
      | cons first rest =>
        by_cases hsite : first = site
        · subst hsite
          rw [get?_slot_self, if_neg (fun hrest => h (by rw [hrest]))]
          rfl
        · rw [get?_slot_ne hsite]
  | slot site old inner others ihInner ihOthers =>
    cases path with
    | nil => rfl
    | cons first rest =>
      cases other with
      | nil => rw [get?_nil, get?_nil]
      | cons first' rest' =>
        rw [set]
        by_cases hsite : first = site
        · subst hsite
          rw [if_pos rfl]
          by_cases hsite' : first' = first
          · subst hsite'
            have hrest : rest' ≠ rest := fun hrest => h (by rw [hrest])
            -- The two paths part below this slot.
            split
            · subst_vars
              rw [get?_slot_self, get?_slot_self, if_neg hrest, if_neg hrest]
            · rw [get?_slot_self, get?_slot_self, ihInner hrest]
          · split
            · rw [get?_slot_ne hsite', get?_slot_ne hsite']
            · rw [get?_slot_ne hsite', get?_slot_ne hsite']
        · rw [if_neg hsite]
          by_cases hsite' : first' = site
          · subst hsite'
            rw [get?_slot_self, get?_slot_self]
          · rw [get?_slot_ne hsite', get?_slot_ne hsite', ihOthers h]

/-- To store at a path that has a node replaces it. -/
theorem get?_set_self {instances : Instances} {path : Path} (node : Node)
    (h : (instances.get? path).isSome) : (instances.set path node).get? path = some node := by
  induction instances generalizing path with
  | empty => cases h
  | slot site old inner others ihInner ihOthers =>
    cases path with
    | nil => cases h
    | cons first rest =>
      rw [set]
      by_cases hsite : first = site
      · subst hsite
        rw [if_pos rfl]
        by_cases hrest : rest = []
        · rw [if_pos hrest, get?_slot_self, if_pos hrest]
        · rw [get?_slot_self, if_neg hrest] at h
          rw [if_neg hrest, get?_slot_self, if_neg hrest, ihInner h]
      · rw [get?_slot_ne hsite] at h
        rw [if_neg hsite, get?_slot_ne hsite, ihOthers h]

/-- To store at a site of the tree itself always succeeds. -/
theorem get?_set_singleton (instances : Instances) (site : Site) (node : Node) :
    (instances.set [site] node).get? [site] = some node := by
  induction instances with
  | empty => rw [set, get?_slot_self, if_pos rfl]
  | slot site' old inner others _ ihOthers =>
    rw [set]
    by_cases hsite : site = site'
    · subst hsite
      rw [if_pos rfl, if_pos rfl, get?_slot_self, if_pos rfl]
    · rw [if_neg hsite, get?_slot_ne hsite, ihOthers]

/-- To store at a site of a node that is there succeeds. -/
theorem get?_set_append {instances : Instances} {path : Path} (site : Site) (node : Node)
    (h : (instances.get? path).isSome) :
    (instances.set (path ++ [site]) node).get? (path ++ [site]) = some node := by
  induction instances generalizing path with
  | empty => cases h
  | slot site' old inner others ihInner ihOthers =>
    cases path with
    | nil => cases h
    | cons first rest =>
      have happend : rest ++ [site] ≠ [] := by simp
      rw [List.cons_append, set]
      by_cases hsite : first = site'
      · subst hsite
        rw [if_pos rfl, if_neg happend, get?_slot_self, if_neg happend]
        by_cases hrest : rest = []
        · subst hrest
          exact get?_set_singleton inner site node
        · rw [get?_slot_self, if_neg hrest] at h
          exact ihInner h
      · rw [get?_slot_ne hsite] at h
        rw [if_neg hsite, get?_slot_ne hsite, ← List.cons_append, ihOthers h]

/-! ## Entering -/

/-- After entering there is a node at the path: the old one if there was one. -/
theorem get?_enter_append {instances : Instances} {path : Path} (site : Site) (node : Node)
    (h : (instances.get? path).isSome) :
    (instances.enter (path ++ [site]) node).get? (path ++ [site]) =
      some ((instances.get? (path ++ [site])).getD node) := by
  rw [enter]
  split
  · rename_i old hold
    rw [hold]
    rfl
  · rename_i hnone
    rw [hnone, get?_set_append site node h]
    rfl

/-- Entering a path leaves what other paths lead to. -/
theorem get?_enter_ne (instances : Instances) {path other : Path} (node : Node)
    (h : other ≠ path) : (instances.enter path node).get? other = instances.get? other := by
  rw [enter]
  split
  · rfl
  · exact get?_set_ne instances node h

end SlipStack.Engine.Instances
