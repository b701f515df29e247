import Mathlib.Data.List.Forall2

/-!
# Lists side by side

Lists that are related element by element, and levels that are. What is known of the elements
on one side tells where their partners are (`exists_of_mem_forall₂`, `exists_split_of_forall₂`)
and can be used for them (`forall₂_imp_of_forall`).
-/

namespace SlipStack.Engine

variable {α β : Type}

/-! ## Partners -/

/-- There are partners for all in a list if there is one for each. -/
theorem exists_forall₂ {R : α → β → Prop} {as : List α} :
    (∃ bs, List.Forall₂ R as bs) ↔ ∀ a ∈ as, ∃ b, R a b := by
  induction as with
  | nil => simp
  | cons a as ih =>
    rw [List.forall_mem_cons, ← ih]
    simp only [List.forall₂_cons_left_iff]
    constructor
    · rintro ⟨_, b, bs, hb, hbs, rfl⟩
      exact ⟨⟨b, hb⟩, bs, hbs⟩
    · rintro ⟨⟨b, hb⟩, bs, hbs⟩
      exact ⟨_, b, bs, hb, hbs, rfl⟩

/-- The same for what stands in levels. -/
theorem exists_levels {R : α → β → Prop} {levels : List (List α)} :
    (∃ levels', List.Forall₂ (List.Forall₂ R) levels levels') ↔
      ∀ a ∈ levels.flatten, ∃ b, R a b := by
  simp only [exists_forall₂, List.mem_flatten, forall_exists_index, and_imp]
  exact ⟨fun h a level hlevel ha => h level hlevel a ha, fun h level hlevel a => h a level hlevel⟩

/-- Every member of the first list has its partner in the second. -/
theorem exists_of_mem_forall₂ {R : α → β → Prop} {as : List α} {bs : List β}
    (h : List.Forall₂ R as bs) {a : α} (ha : a ∈ as) : ∃ b ∈ bs, R a b := by
  induction h with
  | nil => cases ha
  | cons hab _ ih =>
    rcases List.mem_cons.1 ha with rfl | ha
    · exact ⟨_, List.mem_cons_self, hab⟩
    · obtain ⟨b, hb, hR⟩ := ih ha
      exact ⟨b, List.mem_cons_of_mem _ hb, hR⟩

theorem exists_of_mem_forall₂_right {R : α → β → Prop} {as : List α} {bs : List β}
    (h : List.Forall₂ R as bs) {b : β} (hb : b ∈ bs) : ∃ a ∈ as, R a b := by
  have hflip : List.Forall₂ (flip R) bs as := List.Forall₂.flip h
  exact exists_of_mem_forall₂ hflip hb

/-- If partners have the same image, so have the lists, each under its own function. -/
theorem map_eq_of_forall₂ {γ : Type} {g : β → γ} {k : α → γ} {as : List α} {bs : List β}
    (h : List.Forall₂ (fun a b => g b = k a) as bs) : bs.map g = as.map k := by
  induction h with
  | nil => rfl
  | cons hab _ ih => rw [List.map_cons, List.map_cons, hab, ih]

/-- Where one side is split at an element, the other side is split at its partner. -/
theorem exists_split_of_forall₂ {R : α → β → Prop} {as : List α} {before after : List β}
    {b : β} (h : List.Forall₂ R as (before ++ b :: after)) :
    ∃ before' a after', as = before' ++ a :: after' ∧ List.Forall₂ R before' before ∧ R a b ∧
      List.Forall₂ R after' after := by
  induction before generalizing as with
  | nil =>
    obtain ⟨a, after', hab, hafter, rfl⟩ := List.forall₂_cons_right_iff.1 h
    exact ⟨[], a, after', rfl, .nil, hab, hafter⟩
  | cons first before ih =>
    obtain ⟨a₁, rest, hfirst, hrest, rfl⟩ := List.forall₂_cons_right_iff.1 h
    obtain ⟨before', a, after', rfl, hbefore, hab, hafter⟩ := ih hrest
    exact ⟨a₁ :: before', a, after', rfl, .cons hfirst hbefore, hab, hafter⟩

/-- Where levels on one side are split at an element, those on the other side are split at its
partner. -/
theorem exists_split_of_levels {R : α → β → Prop} {levels : List (List α)}
    {above below : List (List β)} {before after : List β} {b : β}
    (h : List.Forall₂ (List.Forall₂ R) levels (above ++ (before ++ b :: after) :: below)) :
    ∃ above' before' a after' below', levels = above' ++ (before' ++ a :: after') :: below' ∧
      List.Forall₂ (List.Forall₂ R) above' above ∧ List.Forall₂ R before' before ∧ R a b ∧
      List.Forall₂ R after' after ∧ List.Forall₂ (List.Forall₂ R) below' below := by
  obtain ⟨above', level, below', rfl, habove, hlevel, hbelow⟩ := exists_split_of_forall₂ h
  obtain ⟨before', a, after', rfl, hbefore, hab, hafter⟩ := exists_split_of_forall₂ hlevel
  exact ⟨above', before', a, after', below', rfl, habove, hbefore, hab, hafter, hbelow⟩

/-! ## Other relations -/

/-- What is made in two passes, the second beside the results of the first. -/
theorem forall₂_of_passes {γ : Type} {R : α → β → Prop} {S : α → β → γ → Prop} {as : List α}
    {cs : List γ} :
    (∃ bs, List.Forall₂ R as bs ∧ List.Forall₂ (fun ab c => S ab.1 ab.2 c) (as.zip bs) cs) ↔
      List.Forall₂ (fun a c => ∃ b, R a b ∧ S a b c) as cs := by
  induction as generalizing cs with
  | nil => simp
  | cons a as ih =>
    simp only [List.forall₂_cons_left_iff, ← ih]
    constructor
    · rintro ⟨_, ⟨b, bs, hb, hbs, rfl⟩, hzip⟩
      rw [List.zip_cons_cons, List.forall₂_cons_left_iff] at hzip
      obtain ⟨c, cs, hc, hcs, rfl⟩ := hzip
      exact ⟨c, cs, ⟨b, hb, hc⟩, ⟨bs, hbs, hcs⟩, rfl⟩
    · rintro ⟨c, cs, ⟨b, hb, hc⟩, ⟨bs, hbs, hcs⟩, rfl⟩
      exact ⟨b :: bs, ⟨b, bs, hb, hbs, rfl⟩, .cons hc hcs⟩

theorem forall₂_and_right {R : α → β → Prop} {p : β → Prop} {as : List α} {bs : List β} :
    List.Forall₂ (fun a b => R a b ∧ p b) as bs ↔ List.Forall₂ R as bs ∧ ∀ b ∈ bs, p b := by
  induction as generalizing bs with
  | nil => cases bs <;> simp
  | cons a as ih =>
    cases bs with
    | nil => simp
    | cons b bs =>
      simp only [List.forall₂_cons, ih, List.forall_mem_cons]
      exact and_and_and_comm

/-- Where all of the first list have a property, a relation to the second one may use it. -/
theorem forall₂_imp_of_forall {R S : α → β → Prop} {P : α → Prop} {as : List α}
    {bs : List β} (h : List.Forall₂ R as bs) (hP : ∀ a ∈ as, P a)
    (himp : ∀ a b, P a → R a b → S a b) : List.Forall₂ S as bs := by
  induction h with
  | nil => exact .nil
  | cons hab _ ih =>
    rw [List.forall_mem_cons] at hP
    exact .cons (himp _ _ hP.1 hab) (ih hP.2)

/-- A relation between levels may be weakened with a fact that all elements on the left have. -/
theorem levels_imp_of_forall {R S : α → β → Prop} {P : α → Prop}
    {levels : List (List α)} {levels' : List (List β)}
    (h : List.Forall₂ (List.Forall₂ R) levels levels') (hP : ∀ level ∈ levels, ∀ a ∈ level, P a)
    (himp : ∀ a b, P a → R a b → S a b) : List.Forall₂ (List.Forall₂ S) levels levels' :=
  forall₂_imp_of_forall h hP fun _ _ hlevel hrow => forall₂_imp_of_forall hrow hlevel himp

theorem forall₂_flatten {R : α → β → Prop} {levels : List (List α)}
    {levels' : List (List β)} (h : List.Forall₂ (List.Forall₂ R) levels levels') :
    List.Forall₂ R levels.flatten levels'.flatten := by
  induction h with
  | nil => exact .nil
  | cons hlevel _ ih => exact List.rel_append hlevel ih

end SlipStack.Engine
