import Mathlib.Data.Nat.Digits.Defs
import Mathlib.Tactic.IntervalCases
import Mathlib.Tactic.Ring
import SlipStack.Proofs.Number.Printed

/-!
# Digits and their place

The value of a digit is its place in the row of all digits (`digit`), and that of a digit string is
the sum of its digits, each times the power of the base that its place has (`positional`). The
readers of digits compute exactly this, and read nothing else (`digitsValue?_eq_some`).
-/

namespace SlipStack.Numeral

open Text

/-- The digits of base sixteen, in lower case. -/
def lowerDigits : List Char := "0123456789abcdef".toList

/-- The digits of base sixteen, in upper case. -/
def upperDigits : List Char := "0123456789ABCDEF".toList

/-- The place of a character in the row of digits. A character that is no digit comes after all of
them, so the digits of a base are the characters whose place is below the base. -/
def digit (c : Char) : Nat :=
  min (lowerDigits.idxOf c) (upperDigits.idxOf c)

/-- The value of digits in a base, the most significant one first. -/
def positional (base : Nat) (digits : List Char) : Nat :=
  Nat.ofDigits base (digits.reverse.map digit)

/-! ## Digits -/

theorem mem_digits_of_digitValue? {c : Char} {d : Nat} (h : digitValue? c = some d) :
    c ∈ lowerDigits ++ upperDigits := by
  have hchar : c = Char.ofNat c.toNat := (Char.ofNat_toNat c).symm
  rw [hchar]
  simp only [digitValue?, isAsciiDigit, Bool.and_eq_true, decide_eq_true_eq] at h
  split at h
  · rename_i hbounds
    have lower : 48 ≤ c.toNat := hbounds.1
    have upper : c.toNat ≤ 57 := hbounds.2
    interval_cases c.toNat <;> decide
  split at h
  · rename_i hbounds
    have lower : 97 ≤ c.toNat := hbounds.1
    have upper : c.toNat ≤ 102 := hbounds.2
    interval_cases c.toNat <;> decide
  split at h
  · rename_i hbounds
    have lower : 65 ≤ c.toNat := hbounds.1
    have upper : c.toNat ≤ 70 := hbounds.2
    interval_cases c.toNat <;> decide
  · cases h

theorem digit_of_notMem {c : Char} (h : c ∉ lowerDigits ++ upperDigits) : digit c = 16 := by
  rw [List.mem_append, not_or] at h
  rw [digit, List.idxOf_eq_length h.1, List.idxOf_eq_length h.2]
  rfl

/-- The value of a digit is its place in the digits, up to fifteen. Other characters have none. -/
theorem digitValue?_eq_some {c : Char} {d : Nat} :
    digitValue? c = some d ↔ digit c = d ∧ d < 16 := by
  by_cases hc : c ∈ lowerDigits ++ upperDigits
  · have hall : (lowerDigits ++ upperDigits).all
        (fun c => digitValue? c = some (digit c) ∧ digit c < 16) = true := by decide
    obtain ⟨hvalue, hlt⟩ := of_decide_eq_true (List.all_eq_true.1 hall c hc)
    rw [hvalue, Option.some_inj]
    constructor
    · rintro rfl
      exact ⟨rfl, hlt⟩
    · exact fun h => h.1
  · constructor
    · exact fun h => absurd (mem_digits_of_digitValue? h) hc
    · rintro ⟨rfl, hlt⟩
      rw [digit_of_notMem hc] at hlt
      exact absurd hlt (by decide)

theorem isAsciiDigit_iff {c : Char} : isAsciiDigit c = true ↔ digit c < 10 := by
  constructor
  · intro h
    obtain ⟨hvalue, hlt⟩ := digitValue?_of_isAsciiDigit h
    rw [(digitValue?_eq_some.1 hvalue).1]
    exact hlt
  · intro h
    have hmem : c ∈ lowerDigits ++ upperDigits := by
      by_contra hc
      rw [digit_of_notMem hc] at h
      exact absurd h (by decide)
    have hall : (lowerDigits ++ upperDigits).all
        (fun c => digit c < 10 → isAsciiDigit c = true) = true := by decide
    exact of_decide_eq_true (List.all_eq_true.1 hall c hmem) h

/-! ## Digit strings -/

/-- The first of the digits counts by the power of the base that has as many digits behind it. -/
theorem positional_cons (base : Nat) (c : Char) (cs : List Char) :
    positional base (c :: cs) = digit c * base ^ cs.length + positional base cs := by
  rw [positional, List.reverse_cons, List.map_append, Nat.ofDigits_append, List.map_singleton,
    Nat.ofDigits_singleton, List.length_map, List.length_reverse, positional]
  ring

/-- A reader of digits goes on from the value that it has read. -/
theorem digitsValueFrom?_eq_some {base value n : Nat} {digits : List Char} (hbase : base ≤ 16) :
    digitsValueFrom? base value digits = some n ↔
      (∀ c ∈ digits, digit c < base) ∧
        n = value * base ^ digits.length + positional base digits := by
  -- Each digit moves the value that was read before it up by one place.
  induction digits generalizing value with
  | nil => simp [digitsValueFrom?, positional, eq_comm]
  | cons c cs ih =>
    rw [digitsValueFrom?, positional_cons, List.forall_mem_cons]
    cases hc : digitValue? c with
    | none =>
      have hlarge : ¬ digit c < base := fun hlt => by
        rw [digitValue?_eq_some.2 ⟨rfl, by omega⟩] at hc
        cases hc
      simp [hlarge]
    | some d =>
      obtain ⟨rfl, -⟩ := digitValue?_eq_some.1 hc
      by_cases hlt : digit c < base
      · simp only [hlt, if_true, ih, true_and, List.length_cons]
        ring_nf
      · simp [hlt]

/-- Digits are read if there are some and all are of the base, and then as their value. -/
theorem digitsValue?_eq_some {base n : Nat} {digits : List Char} (hbase : base ≤ 16) :
    digitsValue? base digits = some n ↔
      digits ≠ [] ∧ (∀ c ∈ digits, digit c < base) ∧ n = positional base digits := by
  cases digits with
  | nil => simp [digitsValue?]
  | cons c cs =>
    have hread : digitsValue? base (c :: cs) = digitsValueFrom? base 0 (c :: cs) := rfl
    rw [hread, digitsValueFrom?_eq_some hbase, Nat.zero_mul, Nat.zero_add]
    simp

/-! ## Printed digits -/

/-- The decimal digits of a number have, read by position, that number as their value. -/
theorem digits_toDigits (n : Nat) :
    (∀ c ∈ Nat.toDigits 10 n, digit c < 10) ∧ n = positional 10 (Nat.toDigits 10 n) :=
  ((digitsValue?_eq_some (by decide)).1 (digitsValue?_toDigits n)).2

/-- Only zero is printed with a zero in front. -/
theorem ne_zero_of_toDigits {n : Nat} {c : Char} {cs : List Char} (hn : 0 < n)
    (h : Nat.toDigits 10 n = c :: cs) : c ≠ '0' := by
  -- The first digit of `n` is that of `n / 10`, unless `n` has only one.
  induction n using Nat.strongRecOn generalizing cs with
  | ind n ih =>
    rcases Nat.lt_or_ge n 10 with hlt | hge
    · rw [Nat.toDigits_of_lt_base hlt] at h
      obtain ⟨rfl, -⟩ := List.cons.inj h
      interval_cases n <;> decide
    · rw [Nat.toDigits_of_base_le (by decide) hge] at h
      obtain ⟨d, ds, hfront⟩ := exists_toDigits_cons (n / 10)
      rw [hfront, List.cons_append] at h
      obtain ⟨rfl, -⟩ := List.cons.inj h
      exact ih (n / 10) (Nat.div_lt_self hn (by decide)) (Nat.div_pos hge (by decide)) hfront

/-- A positive number is printed as its digits, without a zero in front. -/
theorem toDigits_of_pos {n : Nat} (hn : 0 < n) :
    ∃ first rest, Nat.toDigits 10 n = first :: rest ∧ first ≠ '0' ∧
      (∀ c ∈ first :: rest, digit c < 10) ∧ n = positional 10 (first :: rest) := by
  obtain ⟨first, rest, h⟩ := exists_toDigits_cons n
  obtain ⟨hdigits, hvalue⟩ := digits_toDigits n
  rw [h] at hdigits hvalue
  exact ⟨first, rest, h, ne_zero_of_toDigits hn h, hdigits, hvalue⟩

end SlipStack.Numeral
