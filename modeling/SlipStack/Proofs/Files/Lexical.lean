import SlipStack.Proofs.Files.Writing

/-!
# Where a path leads by its text

A path can be followed without looking at any files: names lead down, two dots lead back over the
last name, and only if there is none they lead up. What is found so is a `Path.Route`. A file tree
agrees with it: a path that leads anywhere leads to where its route says
(`FileTree.leadsTo_resolve`). So removing a directory changes nothing but what is there, and below
(`FileTree.covers_of_removeDirectory`).

One path put after another continues its route (`Path.lexical_join`). So a path that leads down from
where it starts also leads down from any directory that it is put after (`Path.within_join`).
-/

namespace SlipStack

namespace Path

/-- Where a path leads: up, and then down by names. -/
@[ext]
structure Route where
  absolute : Bool
  ups : Nat
  names : List String
  deriving DecidableEq, Repr

namespace Route

/-- Leads back by one name. Without names, this is up, except from the root of the file system. -/
def up : Route → Route
  | ⟨false, ups, []⟩ => ⟨false, ups + 1, []⟩
  | ⟨true, ups, []⟩ => ⟨true, ups, []⟩
  | ⟨absolute, ups, names⟩ => ⟨absolute, ups, names.dropLast⟩

def step (route : Route) (name : String) : Route :=
  if name = "" || name = "." then route
  else if name = ".." then route.up
  else { route with names := route.names ++ [name] }

def walk (route : Route) (names : List String) : Route :=
  names.foldl step route

/-- The route that leads to the given names below. -/
def below (route : Route) (names : List String) : Route :=
  { route with names := route.names ++ names }

/-- The other route leads to something below, and not to the same. -/
def Within (base route : Route) : Prop :=
  base.absolute = route.absolute ∧ base.ups = route.ups ∧
    base.names <+: route.names ∧ base.names ≠ route.names

instance : DecidableRel Within := fun _ _ =>
  inferInstanceAs (Decidable (_ ∧ _ ∧ _ ∧ _))

/-- The route of a path without names. -/
def start (absolute : Bool) : Route := ⟨absolute, 0, []⟩

variable {route base : Route} {names : List String}

/-- Walking along names and then along more is walking along all of them. -/
theorem walk_append (route : Route) (names names' : List String) :
    route.walk (names ++ names') = (route.walk names).walk names' :=
  List.foldl_append

theorem walk_nil (route : Route) : route.walk [] = route := rfl

theorem walk_cons (route : Route) (name : String) (names : List String) :
    route.walk (name :: names) = (route.step name).walk names :=
  rfl

theorem below_nil (route : Route) : route.below [] = route := by
  rw [below, List.append_nil]

/-- Going down by at least one name ends strictly below where one was. -/
theorem within_below (route : Route) (h : names ≠ []) : route.Within (route.below names) :=
  ⟨rfl, rfl, List.prefix_append _ _, fun hsame => h (List.self_eq_append_right.1 hsame)⟩

theorem names_ne_nil_of_within (h : base.Within route) : route.names ≠ [] := by
  obtain ⟨-, -, hstarts, hne⟩ := h
  intro hnil
  rw [hnil, List.prefix_nil] at hstarts
  exact hne (hstarts.trans hnil.symm)

theorem up_of_ne_nil (h : route.names ≠ []) :
    route.up = { route with names := route.names.dropLast } := by
  obtain ⟨absolute, ups, names⟩ := route
  cases names with
  | nil => exact absurd rfl h
  | cons name names => cases absolute <;> rfl

/-- A step leads up, or it leads down and back below what it starts from, wherever that is. -/
theorem step_below (base : Route) (inner : List String) (name : String) :
    (⟨false, 0, inner⟩ : Route).step name = ⟨false, 1, []⟩ ∨
      ∃ inner', (⟨false, 0, inner⟩ : Route).step name = ⟨false, 0, inner'⟩ ∧
        (base.below inner).step name = base.below inner' := by
  by_cases hidle : name = "" ∨ name = "."
  · exact .inr ⟨inner, by simp [step, hidle], by simp [step, hidle]⟩
  by_cases hup : name = ".."
  · subst hup
    by_cases hinner : inner = []
    · subst hinner
      exact .inl rfl
    · have hback (route : Route) : route.step ".." = route.up := rfl
      have hnames : (base.below inner).names ≠ [] := List.append_ne_nil_of_right_ne_nil _ hinner
      refine .inr ⟨inner.dropLast, ?_, ?_⟩
      · rw [hback, up_of_ne_nil hinner]
      · rw [hback, up_of_ne_nil hnames, below, List.dropLast_append_of_ne_nil hinner]
        rfl
  · refine .inr ⟨inner ++ [name], ?_, ?_⟩
    · simp [step, hidle, hup]
    · simp [step, hidle, hup, below]

theorem absolute_step (route : Route) (name : String) :
    (route.step name).absolute = route.absolute := by
  unfold step
  split
  · rfl
  · split
    · unfold up
      split <;> rfl
    · rfl

theorem absolute_walk (route : Route) (names : List String) :
    (route.walk names).absolute = route.absolute := by
  induction names generalizing route with
  | nil => rfl
  | cons name names ih => exact (ih (route.step name)).trans (absolute_step route name)

/-- No step takes back the way up that a route already has: names that follow `..` at the top only
go down from there. -/
theorem ups_le_step (route : Route) (name : String) : route.ups ≤ (route.step name).ups := by
  unfold step
  split
  · exact Nat.le_refl _
  · split
    · unfold up
      split
      · exact Nat.le_succ _
      · exact Nat.le_refl _
      · exact Nat.le_refl _
    · exact Nat.le_refl _

/-- What leads up stays up. -/
theorem ups_le_walk (route : Route) (names : List String) : route.ups ≤ (route.walk names).ups := by
  induction names generalizing route with
  | nil => exact Nat.le_refl _
  | cons name names ih => exact Nat.le_trans (ups_le_step route name) (ih (route.step name))

/-- A walk that leads down does so from anywhere. -/
theorem walk_below {inner inner' : List String}
    (h : (⟨false, 0, inner⟩ : Route).walk names = ⟨false, 0, inner'⟩) (base : Route) :
    (base.below inner).walk names = base.below inner' := by
  induction names generalizing inner with
  | nil => rw [walk_nil] at h ⊢; rw [(Route.mk.inj h).2.2]
  | cons name names ih =>
    rw [walk_cons] at h ⊢
    rcases step_below base inner name with hup | ⟨next, hnext, hbase⟩
    · have hups := ups_le_walk ⟨false, 1, []⟩ names
      rw [hup] at h
      rw [h] at hups
      exact absurd hups (Nat.not_succ_le_zero 0)
    · rw [hnext] at h
      rw [hbase]
      exact ih h

end Route

/-- The names of a path. -/
def nameList (path : String) : List String :=
  (segments path.toList).map String.ofList

/-- Where a path leads by its text. -/
def lexical (path : String) : Route :=
  (Route.start (isAbsolute path)).walk (nameList path)

/-- The path leads down from where it starts. -/
def Descends (path : String) : Prop :=
  (Route.start false).Within (lexical path)

instance : DecidablePred Descends :=
  fun _ => inferInstanceAs (Decidable (Route.Within _ _))

theorem absolute_lexical (path : String) : (lexical path).absolute = isAbsolute path :=
  Route.absolute_walk _ _

/-- Whether a path is absolute is decided at its first character, so what is appended to it plays
no part. -/
theorem isAbsolute_append {directory : String} (h : directory ≠ "") (path : String) :
    isAbsolute (directory ++ path) = isAbsolute directory := by
  have hne : directory.toList ≠ [] := fun hnil => h (String.toList_eq_nil_iff.1 hnil)
  rw [isAbsolute, isAbsolute, String.toList_append, List.head?_append_of_ne_nil _ hne]

/-- The names of two paths joined by a slash are those of the first and then those of the second.
-/
theorem nameList_append_slash (directory path : String) :
    nameList (directory ++ "/" ++ path) = nameList directory ++ nameList path := by
  rw [nameList, String.toList_append, String.toList_append, List.append_assoc]
  show (segments (directory.toList ++ '/' :: path.toList)).map String.ofList = _
  rw [segments_append_slash, List.map_append]
  rfl

/-- A path put after another continues its route. -/
theorem lexical_join {path : String} (h : isAbsolute path = false) (directory : String) :
    lexical (join directory path) = (lexical directory).walk (nameList path) := by
  rw [join, h, Bool.false_or]
  by_cases hempty : directory = ""
  · subst hempty
    rw [if_pos (decide_eq_true rfl), lexical, h]
    rfl
  rw [if_neg (by simpa using hempty)]
  by_cases hslash : directory.toList.getLast? = some '/'
  · obtain ⟨before, hbefore⟩ := List.getLast?_eq_some_iff.1 hslash
    have hdirectory : directory = String.ofList before ++ "/" := by
      rw [← String.toList_inj, hbefore, String.toList_append, String.toList_ofList]
      rfl
    have hends := nameList_append_slash (String.ofList before) ""
    rw [String.append_empty, ← hdirectory] at hends
    rw [if_pos hslash, lexical, lexical, isAbsolute_append hempty, hends, hdirectory,
      nameList_append_slash, Route.walk_append, Route.walk_append]
    rfl
  · rw [if_neg hslash, lexical, lexical, String.append_assoc, isAbsolute_append hempty,
      ← String.append_assoc, nameList_append_slash, Route.walk_append]

/-- A path that leads down from where it starts leads down from any directory. -/
theorem within_join {path : String} (h : Descends path) (directory : String) :
    (lexical directory).Within (lexical (join directory path)) := by
  obtain ⟨habsolute, hups, -, hnames⟩ := h
  have hrelative : isAbsolute path = false := by
    rw [← absolute_lexical path, ← habsolute]
    rfl
  have hlexical : lexical path = ⟨false, 0, (lexical path).names⟩ :=
    Route.ext habsolute.symm hups.symm rfl
  have hwalk : (⟨false, 0, []⟩ : Route).walk (nameList path) =
      ⟨false, 0, (lexical path).names⟩ := by
    rw [← hlexical, lexical, hrelative]
    rfl
  have hbelow := Route.walk_below hwalk (lexical directory)
  rw [Route.below_nil] at hbelow
  rw [lexical_join hrelative, hbelow]
  exact Route.within_below _ (Ne.symm hnames)

theorem lexical_of_isPlain {name : String} (h : IsPlain name) :
    lexical name = ⟨false, 0, [name]⟩ := by
  have hplain : name ≠ "" ∧ name ≠ "." ∧ name ≠ ".." := by simpa using h.2
  rw [lexical, isAbsolute_of_noSlash h.1, nameList, segments_of_noSlash h.1, List.map_singleton,
    String.ofList_toList]
  simp [Route.walk, Route.step, Route.start, hplain]

theorem descends_of_isPlain {name : String} (h : IsPlain name) : Descends name := by
  rw [Descends, lexical_of_isPlain h]
  exact Route.within_below (Route.start false) (List.cons_ne_nil _ _)

end Path

/-! ## Following a path in a file tree -/

namespace FileTree

open SlipStack.Path (Route lexical)

variable {tree : FileTree} {place place' : Place} {route : Route} {name path : String}

/-- The route leads to the place from the top. Above the top, the directories are not told apart.
-/
def LeadsTo (route : Route) : Place → Prop
  | .inside location => route = ⟨false, 0, location⟩
  | .above => route.names = [] ∧ (route.absolute ∨ 0 < route.ups)

theorem leadsTo_up (h : LeadsTo route place) : LeadsTo route.up place.up := by
  cases place with
  | above =>
    obtain ⟨absolute, ups, names⟩ := route
    obtain ⟨rfl, habove⟩ := h
    cases absolute with
    | true => exact ⟨rfl, .inl rfl⟩
    | false => exact ⟨rfl, .inr (Nat.succ_pos ups)⟩
  | inside location =>
    subst h
    cases location with
    | nil => exact ⟨rfl, .inr Nat.one_pos⟩
    | cons name location => rfl

/-- A step in the tree goes on as the route does. -/
theorem leadsTo_step (h : LeadsTo route place) (hstep : tree.step place name = .ok place') :
    LeadsTo (route.step name) place' := by
  have hdirectory := directory_of_step hstep
  unfold step at hstep
  simp only [hdirectory] at hstep
  unfold Route.step
  -- The cases are those of a step in the tree: an idle name, one up, one down.
  split at hstep
  · rename_i hidle
    cases hstep
    rwa [if_pos hidle]
  rename_i hnamed
  rw [if_neg hnamed]
  split at hstep
  · rename_i hup
    cases hstep
    rw [if_pos hup]
    exact leadsTo_up h
  rename_i hdown
  rw [if_neg hdown]
  split at hstep
  · cases hstep
  · cases place with
    | above => cases hstep
    | inside location =>
      cases hstep
      subst h
      rfl

/-- If names can be followed in the tree from a place, the route walked along them leads to where
one arrives. -/
theorem leadsTo_walk {names : List String} (h : LeadsTo route place)
    (hwalk : names.foldlM tree.step place = .ok place') : LeadsTo (route.walk names) place' := by
  induction names generalizing route place with
  | nil =>
    cases hwalk
    exact h
  | cons name names ih =>
    rw [List.foldlM_cons] at hwalk
    cases hstep : tree.step place name with
    | error e =>
      rw [hstep] at hwalk
      cases hwalk
    | ok next =>
      rw [hstep] at hwalk
      exact ih (leadsTo_step h hstep) hwalk

/-- A path that leads anywhere leads to where its route says. -/
theorem leadsTo_resolve (h : tree.resolve path = .ok place) : LeadsTo (lexical path) place := by
  rw [resolve] at h
  split at h
  · cases h
  · refine leadsTo_walk ?_ h
    cases Path.isAbsolute path with
    | true => exact ⟨rfl, .inl rfl⟩
    | false => exact (rfl : Route.start false = ⟨false, 0, []⟩)

/-! ## Removing a directory -/

/-- The location is at the place or below it. -/
def Covers : Place → Location → Prop
  | .inside outer, location => outer <+: location
  | .above, _ => True

variable {location outer : Location}

/-- Entries that are kept show what they did. -/
theorem content?_filter {keep : Location × Content → Bool}
    (h : ∀ content, keep (location, content) = true) :
    (⟨tree.entries.filter keep⟩ : FileTree).content? location = tree.content? location := by
  have hkept : (fun entry : Location × Content =>
      decide (keep entry = true ∧ decide (entry.1 = location) = true)) =
        fun entry => decide (entry.1 = location) := by
    funext ⟨other, content⟩
    by_cases hother : other = location
    · simp [hother, h]
    · simp [hother]
  rw [content?, content?, List.find?_filter, hkept]

theorem isPrefixOf_eq_false (h : ¬ outer <+: location) : outer.isPrefixOf location = false :=
  Bool.eq_false_iff.2 fun hstarts => h (List.isPrefixOf_iff_prefix.1 hstarts)

/-- Clearing what is below a location does not change what is elsewhere. -/
theorem content?_clear (h : ¬ outer <+: location) :
    (tree.clear outer).content? location = tree.content? location :=
  content?_filter fun _ => by simp [isPrefixOf_eq_false h]

/-- Dropping a location, with what is below it, does not change what is elsewhere. -/
theorem content?_drop (h : ¬ outer <+: location) :
    (tree.drop outer).content? location = tree.content? location :=
  content?_filter fun _ => by simp [isPrefixOf_eq_false h]

/-- Removing a directory changes nothing but what is there and below, even if it fails. -/
theorem covers_of_removeDirectory
    (h : (tree.removeDirectory path).2.content? location ≠ tree.content? location) :
    ∃ place, tree.resolve path = .ok place ∧ Covers place location := by
  unfold removeDirectory at h
  split at h
  · exact absurd rfl h
  · exact ⟨.above, ‹_›, trivial⟩
  · rename_i outer hpath
    refine ⟨.inside outer, hpath, ?_⟩
    by_contra houtside
    refine h ?_
    have hclear : (tree.clear outer).content? location = tree.content? location :=
      content?_clear houtside
    split
    · rfl
    · rfl
    · dsimp only
      split
      · exact hclear
      · split
        · exact hclear
        · exact (content?_drop houtside).trans hclear

/-- A path does not exist if nothing is where its route leads. -/
theorem exists?_eq_false (hroute : lexical path = ⟨false, 0, outer⟩) (hne : outer ≠ [])
    (hnone : tree.content? outer = none) : tree.exists? path = false := by
  rw [exists?, stat]
  cases hresolve : tree.resolve path with
  | error e => rfl
  | ok place =>
    have hplace := leadsTo_resolve hresolve
    rw [hroute] at hplace
    cases place with
    | above => exact absurd hplace.1 hne
    | inside location =>
      obtain rfl : outer = location := (Route.mk.inj hplace).2.2
      simp [contentAt?, hnone, Except.toOption]

theorem content?_drop_self (hne : location ≠ []) :
    (tree.drop location).content? location = none := by
  rw [content?, if_neg hne, drop, List.find?_filter, Option.map_eq_none_iff, List.find?_eq_none]
  intro entry _
  by_cases hsame : entry.1 = location <;> simp [hsame]

/-- A directory that was removed does not exist. The top and what is above it have no names in
their routes and remain. -/
theorem exists?_removeDirectory (hnames : (lexical path).names ≠ [])
    (h : (tree.removeDirectory path).1 = .ok ()) :
    (tree.removeDirectory path).2.exists? path = false := by
  unfold removeDirectory at h ⊢
  split at h
  · cases h
  · rename_i hresolve
    exact absurd (leadsTo_resolve hresolve).1 hnames
  · rename_i outer hresolve
    have hroute : lexical path = ⟨false, 0, outer⟩ := leadsTo_resolve hresolve
    split at h
    · cases h
    · cases h
    · dsimp only at h ⊢
      split at h
      · rename_i hgone
        rw [if_pos hgone]
        simpa using hgone
      · rename_i hstays
        rw [if_neg hstays]
        split at h
        · cases h
        · rename_i hdots
          rw [hroute] at hnames
          rw [if_neg hdots]
          exact exists?_eq_false hroute hnames (content?_drop_self hnames)

/-- What is at a place to which a route leads, or below, is within all that the route is within. -/
theorem within_of_covers {base : Route} (hbase : base.Within route) (hroute : LeadsTo route place)
    (hplace : Covers place location) : base.Within ⟨false, 0, location⟩ := by
  have hnames := Route.names_ne_nil_of_within hbase
  obtain ⟨habsolute, hups, hstarts, hne⟩ := hbase
  cases place with
  | above => exact absurd hroute.1 hnames
  | inside outer =>
    subst hroute
    refine ⟨habsolute, hups, hstarts.trans hplace, fun hsame => hne ?_⟩
    exact hstarts.eq_of_length_le (hsame ▸ hplace.length_le)

end FileTree

end SlipStack
