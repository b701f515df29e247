import Mathlib.Data.List.TakeWhile
import SlipStack.Number.Numeral
import SlipStack.Proofs.Number.Exact

/-!
# Reading printed integers

An integer is printed as its decimal digits, with a minus sign in front of them if it is
negative. Both readers of numbers read that back: as an integer (`int64?_toString`), and as
a binary64 number that `toInt64` cuts to an integer again (`survives_toInt64`). The second
trip is not without loss: 2⁵³ + 1 comes back as 2⁵³. It is for what `toInt64` yields.
-/

namespace SlipStack.Numeral

open Text

theorem isAsciiDigit_of_mem_toDigits {n : Nat} {c : Char} (h : c ∈ Nat.toDigits 10 n) :
    isAsciiDigit c = true :=
  Nat.isDigit_of_mem_toDigits (by decide) (by decide) h

theorem digitValue?_of_isAsciiDigit {c : Char} (h : isAsciiDigit c = true) :
    digitValue? c = some (c.toNat - 48) ∧ c.toNat - 48 < 10 := by
  refine ⟨if_pos h, ?_⟩
  simp only [isAsciiDigit, Bool.and_eq_true, decide_eq_true_eq] at h
  have upper : c.toNat ≤ 57 := h.2
  omega

theorem digitsValueFrom?_ten {cs : List Char} (h : ∀ c ∈ cs, isAsciiDigit c = true)
    (value : Nat) : digitsValueFrom? 10 value cs = some (Nat.ofDigitChars 10 cs value) := by
  induction cs generalizing value with
  | nil => rw [digitsValueFrom?, Nat.ofDigitChars_nil]
  | cons c cs ih =>
    obtain ⟨hc, hcs⟩ := List.forall_mem_cons.1 h
    obtain ⟨hvalue, hlt⟩ := digitValue?_of_isAsciiDigit hc
    rw [digitsValueFrom?, hvalue, Nat.ofDigitChars_cons]
    simp only [if_pos hlt]
    rw [ih hcs, Nat.mul_comm]
    rfl

/-- Reading the decimal digits of a number gives the number back. -/
theorem digitsValue?_toDigits (n : Nat) : digitsValue? 10 (Nat.toDigits 10 n) = some n := by
  have h := digitsValueFrom?_ten (fun c => isAsciiDigit_of_mem_toDigits (n := n) (c := c)) 0
  rw [Nat.ofDigitChars_ten_toDigits] at h
  unfold digitsValue?
  split
  · rename_i hnil
    exact absurd hnil Nat.toDigits_ne_nil
  · exact h

/-- The two forms of a printed integer. -/
theorem toString_cases (i : Int) :
    (∃ n : Nat, i = n ∧ (toString i).toList = Nat.toDigits 10 n) ∨
      (∃ n : Nat, i = -(n : Int) ∧ i < 0 ∧ (toString i).toList = '-' :: Nat.toDigits 10 n) := by
  cases i with
  | ofNat n => exact .inl ⟨n, rfl, Nat.toList_repr⟩
  | negSucc n =>
    refine .inr ⟨n + 1, rfl, Int.negSucc_lt_zero n, ?_⟩
    change ("-" ++ (n + 1).repr).toList = _
    rw [String.toList_append, Nat.toList_repr]
    rfl

/-- Printed digits do not start with a sign. -/
theorem not_sign_of_toDigits {n : Nat} {c : Char} {cs : List Char}
    (h : Nat.toDigits 10 n = c :: cs) : c ≠ '-' ∧ c ≠ '+' := by
  have hc : isAsciiDigit c = true := isAsciiDigit_of_mem_toDigits (h ▸ List.mem_cons_self)
  constructor <;> rintro rfl <;> revert hc <;> decide

theorem exists_toDigits_cons (n : Nat) : ∃ c cs, Nat.toDigits 10 n = c :: cs :=
  List.exists_cons_of_ne_nil Nat.toDigits_ne_nil

theorem splitSign_toDigits (n : Nat) :
    splitSign (Nat.toDigits 10 n) = (false, Nat.toDigits 10 n) := by
  obtain ⟨c, cs, h⟩ := exists_toDigits_cons n
  obtain ⟨hminus, hplus⟩ := not_sign_of_toDigits h
  rw [h]
  simp [splitSign, hminus, hplus]

theorem signed?_toDigits (n : Nat) : signed? (Nat.toDigits 10 n) = some (n : Int) := by
  have hvalue := digitsValue?_toDigits n
  obtain ⟨c, cs, h⟩ := exists_toDigits_cons n
  obtain ⟨hminus, hplus⟩ := not_sign_of_toDigits h
  rw [h] at hvalue ⊢
  simp [signed?, hminus, hplus, hvalue]

/-- Reading the decimal text of an integer, sign included, gives the integer back. -/
theorem signed?_toString (i : Int) : signed? (toString i).toList = some i := by
  rcases toString_cases i with ⟨n, rfl, htext⟩ | ⟨n, rfl, -, htext⟩
  · rw [htext, signed?_toDigits]
  · rw [htext, signed?, digitsValue?_toDigits]
    rfl

/-- A printed integer of 64 bits reads back as itself. -/
theorem int64?_toString {i : Int} (h : fitsInt64 i = true) :
    int64? (toString i).toList = some i := by
  rw [int64?, signed?_toString]
  simp [h]

theorem fitsInt64_of_int64? {text : List Char} {i : Int} (h : int64? text = some i) :
    fitsInt64 i = true :=
  (Option.filter_eq_some_iff.1 h).2

theorem takeWhile_toDigits (n : Nat) :
    (Nat.toDigits 10 n).takeWhile isAsciiDigit = Nat.toDigits 10 n :=
  List.takeWhile_eq_self_iff.2 fun _ => isAsciiDigit_of_mem_toDigits

theorem dropWhile_toDigits (n : Nat) : (Nat.toDigits 10 n).dropWhile isAsciiDigit = [] :=
  List.dropWhile_eq_nil_iff.2 fun _ => isAsciiDigit_of_mem_toDigits

/-- Digits behind a sign are a decimal without a fraction or exponent. -/
theorem decimal?_of_splitSign {text : List Char} {negative : Bool} {n : Nat}
    (h : splitSign text = (negative, Nat.toDigits 10 n)) :
    decimal? text = some (Binary64.ofDecimal negative n 0) := by
  simp [decimal?, h, takeWhile_toDigits, dropWhile_toDigits, digitsValue?_toDigits, exponent?]

/-- Read as a decimal number, the text of an integer is that integer with the exponent zero. -/
theorem decimal?_toString (i : Int) :
    decimal? (toString i).toList = some (Binary64.ofDecimal (i < 0) i.natAbs 0) := by
  rcases toString_cases i with ⟨n, rfl, htext⟩ | ⟨n, rfl, hneg, htext⟩
  · have hpos : ¬ ((n : Int) < 0) := by omega
    rw [htext, decimal?_of_splitSign (splitSign_toDigits n), decide_eq_false hpos]
    rfl
  · rw [htext, decimal?_of_splitSign rfl, decide_eq_true hneg, Int.natAbs_neg]
    rfl

/-- The integer survives being printed, read as a binary64 number and cut to 64 bits. -/
def Survives (i : Int) : Prop :=
  (decimal? (toString i).toList).map Binary64.toInt64 = some i

instance (i : Int) : Decidable (Survives i) :=
  inferInstanceAs (Decidable (_ = _))

theorem ofDecimal_zero_exponent (negative : Bool) (n : Nat) :
    Binary64.ofDecimal negative n 0 = Binary64.ofRatio negative n 1 := by
  by_cases hn : n = 0
  · subst hn
    rfl
  · have hsmall : ¬ ((n.log2 : Int) + 1 < -330) := by omega
    simp [Binary64.ofDecimal, hn, hsmall]

/-- Whatever `toInt64` yields survives. -/
theorem survives_toInt64 (x : Binary64) : Survives x.toInt64 := by
  rw [Survives, decimal?_toString, ofDecimal_zero_exponent, Option.map_some, Option.some_inj]
  rcases x.toInt64_cases with h | ⟨n, hexact, hbound, h | ⟨h, hfits⟩⟩
  · rw [h]
    decide +kernel
  · rw [h, Int.natAbs_neg, Int.natAbs_natCast, Binary64.toInt64_ofRatio _ hexact hbound]
    by_cases hn : n = 0
    · subst hn
      decide
    · simp [Nat.pos_of_ne_zero hn]
  · rw [h, Int.natAbs_natCast, Binary64.toInt64_ofRatio _ hexact hbound]
    have hpos : ¬ ((n : Int) < 0) := by omega
    simp [hpos, Int.min_eq_left hfits]

end SlipStack.Numeral
