import Mathlib.Order.Defs.LinearOrder
import SlipStack.Number.Numeral
import SlipStack.Proofs.Number.Rounding
import SlipStack.Sense.Value

/-!
# How far comparison is an order

Comparing two values the other way round reverses the outcome (`Value.order_swap`). Of three values
in ascending order the first is at most the last, and equal to it if and only if neither step goes
up, for every kind of values. The one exception are two different integers that both equal one
number, because both are rounded to it (`Value.Merged`). There comparison contradicts itself, and
nowhere else (`Value.comparison_consistent`). Up to 2⁵³ there are no such integers
(`Value.not_merged_of_le`), and 2⁵³ + 1 is one of them (`Value.comparison_contradicts_itself`).
-/

namespace SlipStack

open Binary64 (keyOfInt key)

/-! ## Reversal -/

theorem Binary64.order_swap (x y : Binary64) : y.order x = (x.order y).map Ordering.swap := by
  cases x with
  | nan => cases y <;> rfl
  | number =>
    cases y with
    | nan => rfl
    | number => exact congrArg some Std.OrientedCmp.eq_swap

namespace Value

/-- Comparing the other way round gives the opposite, for values of all kinds. -/
theorem order_swap (a b : Value) : b.order a = (a.order b).map Ordering.swap := by
  cases a with
  | bool =>
    cases b with
    | bool => exact congrArg some Std.OrientedCmp.eq_swap
    | int | real | text => rfl
  | int =>
    cases b with
    | int => exact congrArg some Std.OrientedCmp.eq_swap
    | real => exact Binary64.order_swap _ _
    | bool | text => rfl
  | real =>
    cases b with
    | int | real => exact Binary64.order_swap _ _
    | bool | text => rfl
  | text =>
    cases b with
    | text => exact congrArg some Std.OrientedCmp.eq_swap
    | bool | int | real => rfl

/-! ## Three values in ascending order -/

/-- Two different integers both equal the number. -/
def Merges (x : Binary64) (m n : Int) : Prop :=
  m ≠ n ∧ (int m).satisfies .eq (real x) ∧ (int n).satisfies .eq (real x)

/-- Two of the values are different integers, and the third is a number that both equal. -/
def Merged : Value → Value → Value → Prop
  | int m, int n, real x => Merges x m n
  | int m, real x, int n => Merges x m n
  | real x, int m, int n => Merges x m n
  | _, _, _ => False

/-- The comparison of the first with the third value agrees with the two steps between them,
neither of which goes down. -/
def Agrees (a b c : Value) : Prop :=
  a.satisfies .le c ∧ (a.satisfies .eq c ↔ a.satisfies .eq b ∧ b.satisfies .eq c)

theorem holds_le_some (o : Ordering) : Operator.le.holds (some o) = o.isLE := by
  cases o <;> rfl

theorem holds_eq_some (o : Ordering) : Operator.eq.holds (some o) = true ↔ o = .eq := by
  cases o <;> simp [Operator.holds]

section Kinds

/-- In an order, what lies between equals is equal to them. -/
theorem compare_between {α : Type} [Ord α] [Std.TransOrd α] {a b c : α}
    (hab : (compare a b).isLE) (hbc : (compare b c).isLE) :
    (compare a c).isLE ∧ (compare a c = .eq ↔ compare a b = .eq ∧ compare b c = .eq) := by
  refine ⟨Std.TransCmp.isLE_trans hab hbc, fun hac => ?_, fun h => Std.TransCmp.eq_trans h.1 h.2⟩
  have hca : (compare c a).isLE := Ordering.isLE_of_eq_eq (Std.OrientedCmp.eq_symm hac)
  exact ⟨Std.OrientedCmp.isLE_antisymm hab (Std.TransCmp.isLE_trans hbc hca),
    Std.OrientedCmp.isLE_antisymm hbc (Std.TransCmp.isLE_trans hca hab)⟩

/-- Values agree if they compare as the elements of an order do. -/
theorem agrees_of_compare {α : Type} [Ord α] [Std.TransOrd α] {a b c : Value} {x y z : α}
    (hxy : a.order b = some (compare x y)) (hyz : b.order c = some (compare y z))
    (hxz : a.order c = some (compare x z)) (hab : a.satisfies .le b)
    (hbc : b.satisfies .le c) : Agrees a b c := by
  simp only [Agrees, satisfies, hxy, hyz, hxz, holds_le_some, holds_eq_some] at *
  exact compare_between hab hbc

end Kinds

section Numbers

variable {m n : Int} {s : Bool} {rank : Nat} {hrank : rank ≤ 2047 * 2 ^ 52}

/-- An integer and a float are compared by their places among the floats, the integer after it was
rounded to one. -/
theorem order_int_number :
    (int n).order (real (.number s rank hrank)) = some (compare (keyOfInt n) (key s rank)) := by
  simp only [order, Binary64.ofInt_eq_number]
  rfl

theorem order_number_int :
    (real (.number s rank hrank)).order (int n) = some (compare (key s rank) (keyOfInt n)) := by
  simp only [order, Binary64.ofInt_eq_number]
  rfl

/-- What comparison says of two integers and a number, in terms of their keys. -/
theorem int_le_number : (int n).satisfies .le (real (.number s rank hrank)) ↔
    keyOfInt n ≤ key s rank := by
  rw [satisfies, order_int_number, holds_le_some, Int.isLE_compare]

theorem number_le_int : (real (.number s rank hrank)).satisfies .le (int n) ↔
    key s rank ≤ keyOfInt n := by
  rw [satisfies, order_number_int, holds_le_some, Int.isLE_compare]

/-- An integer equals a float exactly if it is rounded to it. -/
theorem int_eq_number : (int n).satisfies .eq (real (.number s rank hrank)) ↔
    keyOfInt n = key s rank := by
  rw [satisfies, order_int_number, holds_eq_some, Int.compare_eq_eq]

theorem number_eq_int : (real (.number s rank hrank)).satisfies .eq (int n) ↔
    key s rank = keyOfInt n := by
  rw [satisfies, order_number_int, holds_eq_some, Int.compare_eq_eq]

theorem int_le_int : (int m).satisfies .le (int n) ↔ m ≤ n := by
  rw [satisfies, order, holds_le_some, Int.isLE_compare]

theorem int_eq_int : (int m).satisfies .eq (int n) ↔ m = n := by
  rw [satisfies, order, holds_eq_some, Int.compare_eq_eq]

/-! In each place that the number may have among two integers, the values agree unless the
integers are different and equal it. -/

/-- Among two integers and a float above them, comparison is transitive but where rounding merges
two different integers into the float. -/
theorem agrees_int_int_number (hmn : (int m).satisfies .le (int n))
    (hn : (int n).satisfies .le (real (.number s rank hrank))) :
    Agrees (int m) (int n) (real (.number s rank hrank)) ↔
      ¬ Merges (.number s rank hrank) m n := by
  have hup := @Binary64.keyOfInt_mono m n
  have hdown := @Binary64.keyOfInt_mono n m
  simp only [Agrees, Merges, int_le_int, int_eq_int, int_le_number, int_eq_number] at *
  omega

theorem agrees_int_number_int (hm : (int m).satisfies .le (real (.number s rank hrank)))
    (hn : (real (.number s rank hrank)).satisfies .le (int n)) :
    Agrees (int m) (real (.number s rank hrank)) (int n) ↔
      ¬ Merges (.number s rank hrank) m n := by
  have hdown := @Binary64.keyOfInt_mono n m
  simp only [Agrees, Merges, int_le_int, int_eq_int, int_le_number, int_eq_number,
    number_le_int, number_eq_int] at *
  omega

theorem agrees_number_int_int (hm : (real (.number s rank hrank)).satisfies .le (int m))
    (hmn : (int m).satisfies .le (int n)) :
    Agrees (real (.number s rank hrank)) (int m) (int n) ↔
      ¬ Merges (.number s rank hrank) m n := by
  have hup := @Binary64.keyOfInt_mono m n
  have hdown := @Binary64.keyOfInt_mono n m
  simp only [Agrees, Merges, int_le_int, int_eq_int, int_eq_number, number_le_int,
    number_eq_int] at *
  omega

end Numbers

-- In the cases that are not listed, one of the two steps compares values that are not comparable.
/-- Values in ascending order agree, except two different integers and a number that both equal. -/
theorem agrees_iff_not_merged : ∀ {a b c : Value}, a.satisfies .le b → b.satisfies .le c →
    (Agrees a b c ↔ ¬ Merged a b c)
  | bool _, bool _, bool _, hab, hbc =>
    iff_of_true (agrees_of_compare rfl rfl rfl hab hbc) not_false
  | text _, text _, text _, hab, hbc =>
    iff_of_true (agrees_of_compare rfl rfl rfl hab hbc) not_false
  | int _, int _, int _, hab, hbc =>
    iff_of_true (agrees_of_compare rfl rfl rfl hab hbc) not_false
  | int _, int _, real (.number ..), hab, hbc => agrees_int_int_number hab hbc
  | int _, real (.number ..), int _, hab, hbc => agrees_int_number_int hab hbc
  | real (.number ..), int _, int _, hab, hbc => agrees_number_int_int hab hbc
  | int _, real (.number ..), real (.number ..), hab, hbc =>
    iff_of_true (agrees_of_compare order_int_number rfl order_int_number hab hbc) not_false
  | real (.number ..), int _, real (.number ..), hab, hbc =>
    iff_of_true (agrees_of_compare order_number_int order_int_number rfl hab hbc) not_false
  | real (.number ..), real (.number ..), int _, hab, hbc =>
    iff_of_true (agrees_of_compare rfl order_number_int order_number_int hab hbc) not_false
  | real (.number ..), real (.number ..), real (.number ..), hab, hbc =>
    iff_of_true (agrees_of_compare rfl rfl rfl hab hbc) not_false

/-! ## Where integers are told apart -/

/-- No two integers up to 2⁵³ equal one number. -/
theorem not_merges_of_le {x : Binary64} {m n : Int} (hm : m.natAbs ≤ 2 ^ 53)
    (hn : n.natAbs ≤ 2 ^ 53) : ¬ Merges x m n := by
  rintro ⟨hne, hmx, hnx⟩
  cases x with
  | nan => cases hmx
  | number =>
    rw [int_eq_number] at hmx hnx
    exact hne (Binary64.keyOfInt_injective hm hn (hmx.trans hnx.symm))

/-- Integers up to 2^53 in size are never merged, since rounding leaves them as they are. -/
theorem not_merged_of_le {a b c : Value}
    (h : ∀ n, int n ∈ [a, b, c] → n.natAbs ≤ 2 ^ 53) : ¬ Merged a b c := by
  intro hmerged
  unfold Merged at hmerged
  split at hmerged
  all_goals first
    | exact not_merges_of_le (h _ (by simp)) (h _ (by simp)) hmerged
    | exact hmerged

/-- Comparison is an order of the values that are comparable, but for the exception. Comparing the
other way round reverses the outcome. If neither of two steps goes down, the comparison over both of
them agrees with the two, unless two different integers and a number that both equal are compared;
and then it does not. Integers up to 2⁵³ never are such integers. -/
theorem comparison_consistent (a b c : Value) :
    b.order a = (a.order b).map Ordering.swap ∧
      (a.satisfies .le b → b.satisfies .le c → (Agrees a b c ↔ ¬ Merged a b c)) ∧
      ((∀ n, int n ∈ [a, b, c] → n.natAbs ≤ 2 ^ 53) → ¬ Merged a b c) :=
  ⟨order_swap a b, agrees_iff_not_merged, not_merged_of_le⟩

/-- The number 2⁵³. -/
def brink : Value :=
  real (Binary64.ofNat (2 ^ 53))

/-- 2⁵³ - 1 is less than the number 2⁵³, which equals the integer 2⁵³. So it is less than that. -/
theorem comparison_consistent_brink :
    (int (2 ^ 53 - 1)).satisfies .le brink ∧ brink.satisfies .le (int (2 ^ 53)) ∧
      Agrees (int (2 ^ 53 - 1)) brink (int (2 ^ 53)) := by
  have hbelow : (int (2 ^ 53 - 1)).satisfies .le brink := by decide +kernel
  have habove : brink.satisfies .le (int (2 ^ 53)) := by decide +kernel
  obtain ⟨-, hagrees, hsmall⟩ := comparison_consistent (int (2 ^ 53 - 1)) brink (int (2 ^ 53))
  refine ⟨hbelow, habove, (hagrees hbelow habove).2 (hsmall fun n hn => ?_)⟩
  have hcases : n = 2 ^ 53 - 1 ∨ n = 2 ^ 53 := by simpa [brink] using hn
  omega

/-- 2⁵³ + 1 equals the number 2⁵³, which equals the integer 2⁵³. Yet of the integers the former is
greater. -/
theorem comparison_contradicts_itself :
    Numeral.fitsInt64 (2 ^ 53 + 1) ∧ (int (2 ^ 53 + 1)).order brink = some .eq ∧
      brink.order (int (2 ^ 53)) = some .eq ∧
      (int (2 ^ 53 + 1)).order (int (2 ^ 53)) = some .gt := by
  decide +kernel

end Value

end SlipStack
