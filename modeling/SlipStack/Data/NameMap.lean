/-!
# Maps by name

A `NameMap` holds values under names, as a list of entries in ascending order of the names. `set`
puts an entry in its place and replaces one of the same name, which is all that looking up can
tell (`get?_set`).
-/

namespace SlipStack

/-- Values under names, in ascending order of the names. -/
structure NameMap (α : Type) where
  entries : List (String × α)
  deriving DecidableEq, Repr

namespace NameMap

variable {α : Type}

/-- The map without entries. -/
def empty : NameMap α := ⟨[]⟩

/-- The value under a name in a list of entries. -/
def lookup (name : String) : List (String × α) → Option α
  | [] => none
  | (other, value) :: rest => if other = name then some value else lookup name rest

/-- Entries with one more in its place, or instead of the one of the same name. -/
def insert (name : String) (value : α) : List (String × α) → List (String × α)
  | [] => [(name, value)]
  | (other, old) :: rest =>
    if other = name then (name, value) :: rest
    else if name < other then (name, value) :: (other, old) :: rest
    else (other, old) :: insert name value rest

/-- The value under a name. -/
def get? (map : NameMap α) (name : String) : Option α :=
  lookup name map.entries

/-- Puts a value under a name. -/
def set (map : NameMap α) (name : String) (value : α) : NameMap α :=
  ⟨insert name value map.entries⟩

/-- Removes what stands under a name. -/
def erase (map : NameMap α) (name : String) : NameMap α :=
  ⟨map.entries.filter (·.1 ≠ name)⟩

/-- Puts values under names one after the other. -/
def write (map : NameMap α) (entries : List (String × α)) : NameMap α :=
  entries.foldl (fun map (name, value) => map.set name value) map

/-- The map with the given entries, of which a later one replaces an earlier one of the same
name. -/
def ofEntries (entries : List (String × α)) : NameMap α :=
  empty.write entries

/-- The names that something stands under, in ascending order. -/
def names (map : NameMap α) : List String :=
  map.entries.map (·.1)

/-! ## Looking up -/

theorem lookup_insert (name other : String) (value : α) (entries : List (String × α)) :
    lookup other (insert name value entries) =
      if name = other then some value else lookup other entries := by
  induction entries with
  | nil => simp [insert, lookup]
  | cons entry rest ih =>
    obtain ⟨first, old⟩ := entry
    by_cases h : first = name
    · subst h
      by_cases hother : first = other <;> simp [insert, lookup, hother]
    · by_cases hless : name < first
      · simp [insert, lookup, h, hless]
      · by_cases hfirst : first = other
        · subst hfirst
          simp [insert, lookup, h, hless, Ne.symm h]
        · simp [insert, lookup, h, hless, hfirst, ih]

/-- What is looked up after a value was put under a name: this value under that name, and else
what was there before. -/
theorem get?_set (map : NameMap α) (name other : String) (value : α) :
    (map.set name value).get? other = if name = other then some value else map.get? other :=
  lookup_insert name other value map.entries

@[simp]
theorem get?_empty (name : String) : (empty : NameMap α).get? name = none := rfl

theorem write_cons (map : NameMap α) (name : String) (value : α)
    (entries : List (String × α)) :
    map.write ((name, value) :: entries) = (map.set name value).write entries := rfl

/-- Of several entries of one name the last one counts. -/
theorem get?_write (map : NameMap α) (entries : List (String × α)) (name : String) :
    (map.write entries).get? name = ((ofEntries entries).get? name).or (map.get? name) := by
  induction entries generalizing map with
  | nil => rfl
  | cons entry entries ih =>
    obtain ⟨other, value⟩ := entry
    rw [ofEntries, write_cons, write_cons, ih, ih (empty.set other value), get?_set, get?_set,
      get?_empty, Option.or_assoc]
    by_cases hother : other = name <;> simp [hother]

theorem get?_ofEntries_cons (other : String) (value : α) (entries : List (String × α))
    (name : String) :
    (ofEntries ((other, value) :: entries)).get? name =
      ((ofEntries entries).get? name).or (if other = name then some value else none) := by
  rw [ofEntries, write_cons, get?_write, get?_set, get?_empty]

/-- What is found is among the entries. -/
theorem mem_of_get? {map : NameMap α} {name : String} {value : α}
    (h : map.get? name = some value) : (name, value) ∈ map.entries := by
  obtain ⟨entries⟩ := map
  induction entries with
  | nil => cases h
  | cons entry rest ih =>
    obtain ⟨first, old⟩ := entry
    rw [get?, lookup] at h
    split at h
    case isTrue hname =>
      cases h
      subst hname
      exact List.mem_cons_self
    case isFalse => exact List.mem_cons_of_mem _ (ih h)

/-- Nothing is found only where nothing stands. -/
theorem get?_eq_none {map : NameMap α} {name : String} :
    map.get? name = none ↔ name ∉ map.names := by
  obtain ⟨entries⟩ := map
  unfold get? names
  induction entries with
  | nil => simp [lookup]
  | cons entry rest ih =>
    obtain ⟨first, old⟩ := entry
    by_cases hname : first = name
    · simp [lookup, hname]
    · simpa [lookup, hname, Ne.symm hname] using ih

end NameMap

end SlipStack
