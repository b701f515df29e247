import SlipStack.Number.Binary64

/-!
# Whole numbers that rounding leaves alone

A whole number of at most 53 significant bits is a binary64 value, so rounding to the
nearest value gives the number itself (`toInt64_ofRatio`). The whole part of a binary64
value is such a number (`whole_isExact`), and `toInt64` yields nothing else, apart from the
greatest integer of 64 bits, to which it clamps (`toInt64_cases`).
-/

namespace SlipStack.Binary64

/-- A whole number of at most 53 significant bits. -/
def IsExact (n : Nat) : Prop :=
  ∃ a k, a < 2 ^ 53 ∧ n = a * 2 ^ k

/-- Numbers below 2^53 have all their digits in the significand and are represented exactly. -/
theorem isExact_of_lt {n : Nat} (h : n < 2 ^ 53) : IsExact n :=
  ⟨n, 0, h, by simp⟩

theorem isExact_two_pow (k : Nat) : IsExact (2 ^ k) :=
  ⟨1, k, by decide, by simp⟩

/-- The significand of an exact number, which has 53 bits. One of the two powers is one. -/
theorem exists_significand {n : Nat} (hn : n ≠ 0) (h : IsExact n) :
    ∃ m, 2 ^ 52 ≤ m ∧ m < 2 ^ 53 ∧ n * 2 ^ (52 - n.log2) = m * 2 ^ (n.log2 - 52) := by
  obtain ⟨a, k, ha, hak⟩ := h
  have hlow : 2 ^ n.log2 ≤ n := Nat.log2_self_le hn
  have hhigh : n < 2 ^ (n.log2 + 1) := Nat.lt_log2_self
  generalize n.log2 = l at *
  -- A short number is filled up with zeros on the right; a long one has zeros to give away there.
  by_cases hl : l ≤ 52
  · refine ⟨n * 2 ^ (52 - l), ?_, ?_, by simp [Nat.sub_eq_zero_of_le hl]⟩
    · calc 2 ^ 52 = 2 ^ l * 2 ^ (52 - l) := by rw [← Nat.pow_add]; congr 1; omega
        _ ≤ n * 2 ^ (52 - l) := Nat.mul_le_mul_right _ hlow
    · calc n * 2 ^ (52 - l) < 2 ^ (l + 1) * 2 ^ (52 - l) :=
            Nat.mul_lt_mul_of_pos_right hhigh (Nat.two_pow_pos _)
        _ = 2 ^ 53 := by rw [← Nat.pow_add]; congr 1; omega
  · have hk : l - 52 ≤ k := by
      refine Nat.le_of_not_lt fun hk => ?_
      have : a * 2 ^ k < 2 ^ l := calc
        a * 2 ^ k < 2 ^ 53 * 2 ^ k := Nat.mul_lt_mul_of_pos_right ha (Nat.two_pow_pos _)
        _ = 2 ^ (53 + k) := (Nat.pow_add ..).symm
        _ ≤ 2 ^ l := Nat.pow_le_pow_right (by decide) (by omega)
      omega
    have hn' : a * 2 ^ (k - (l - 52)) * 2 ^ (l - 52) = n := by
      rw [Nat.mul_assoc, ← Nat.pow_add, Nat.sub_add_cancel hk, hak]
    refine ⟨a * 2 ^ (k - (l - 52)), ?_, ?_, ?_⟩
    · refine Nat.le_of_mul_le_mul_right ?_ (Nat.two_pow_pos (l - 52))
      rw [hn', ← Nat.pow_add, Nat.add_sub_cancel' (by omega : 52 ≤ l)]
      exact hlow
    · refine Nat.lt_of_mul_lt_mul_right (a := 2 ^ (l - 52)) ?_
      rw [hn', ← Nat.pow_add, (by omega : 53 + (l - 52) = l + 1)]
      exact hhigh
    · rw [hn', Nat.sub_eq_zero_of_le (by omega : 52 ≤ l), Nat.pow_zero, Nat.mul_one]

theorem floorLog2_one {n : Nat} (hn : n ≠ 0) : floorLog2 n 1 = n.log2 := by
  have hlow : 2 ^ n.log2 ≤ n := Nat.log2_self_le hn
  have hone : (1 : Nat).log2 = 0 := by decide
  simp [floorLog2, hone, hlow]

/-- Nothing is rounded where the division has no remainder. -/
theorem roundHalfEven_mul (m d : Nat) (hd : 0 < d) : roundHalfEven (m * d) d = m := by
  simp [roundHalfEven, Nat.mul_div_cancel m hd, Nat.ne_of_lt hd]

/-- The rank of a whole number: its binade, and its place there, rounded. -/
theorem roundRatio_one {n : Nat} (hn : n ≠ 0) :
    roundRatio n 1 = min ((n.log2 + 1022) * 2 ^ 52 +
      roundHalfEven (n * 2 ^ (52 - n.log2)) (2 ^ (n.log2 - 52))) infinityRank := by
  have hscale : max (floorLog2 n 1 - 52) (-1074) = (n.log2 : Int) - 52 := by
    rw [floorLog2_one hn]
    omega
  have hup : ((n.log2 : Int) - 52).toNat = n.log2 - 52 := by omega
  have hdown : (-((n.log2 : Int) - 52)).toNat = 52 - n.log2 := by omega
  have hbinade : ((n.log2 : Int) - 52 + 1074).toNat = n.log2 + 1022 := by omega
  simp only [roundRatio, if_neg hn, hscale, hup, hdown, hbinade, Nat.one_mul]

/-- An exact number stands in its binade, so nothing is rounded. -/
theorem roundRatio_of_significand {n m : Nat} (hn : n ≠ 0) (hl : n.log2 ≤ 63)
    (hm : m < 2 ^ 53) (h : n * 2 ^ (52 - n.log2) = m * 2 ^ (n.log2 - 52)) :
    roundRatio n 1 = (n.log2 + 1022) * 2 ^ 52 + m := by
  rw [roundRatio_one hn, h, roundHalfEven_mul _ _ (Nat.two_pow_pos _)]
  refine Nat.min_eq_left ?_
  simp only [infinityRank]
  omega

/-- A rank names, in its upper bits, an exponent, and in its lower bits a significand. Together
they give back the number. -/
theorem ratio_of_significand {l m : Nat} (hlow : 2 ^ 52 ≤ m) (hhigh : m < 2 ^ 53) :
    ratio ((l + 1022) * 2 ^ 52 + m) = (m * 2 ^ (l - 52), 2 ^ (52 - l)) := by
  have hnormal : ¬ (l + 1022) * 2 ^ 52 + m < 2 ^ 52 := by omega
  have hquotient : ((l + 1022) * 2 ^ 52 + m) / 2 ^ 52 = l + 1023 := by omega
  have hplace : 2 ^ 52 + ((l + 1022) * 2 ^ 52 + m) % 2 ^ 52 = m := by omega
  have hup : (((l + 1023 : Nat) : Int) - 1075).toNat = l - 52 := by omega
  have hdown : (-(((l + 1023 : Nat) : Int) - 1075)).toNat = 52 - l := by omega
  simp only [ratio, significand, unit, if_neg hnormal, hquotient, hplace, hup, hdown]

/-- Rounding leaves a whole number of at most 53 significant bits alone. -/
theorem toInt64_ofRatio (negative : Bool) {n : Nat} (hexact : IsExact n) (hn : n ≤ 2 ^ 63) :
    (ofRatio negative n 1).toInt64 = if negative then -(n : Int) else min (n : Int) int64Max := by
  by_cases hzero : n = 0
  · subst hzero
    cases negative <;> decide +kernel
  obtain ⟨m, hlow, hhigh, h⟩ := exists_significand hzero hexact
  have hl : n.log2 ≤ 63 := by
    have := (Nat.log2_lt hzero).2 (Nat.lt_of_le_of_lt hn (by decide : 2 ^ 63 < 2 ^ 64))
    omega
  have hfinite : min ((n.log2 + 1022) * 2 ^ 52 + m) infinityRank =
      (n.log2 + 1022) * 2 ^ 52 + m := by
    simp only [infinityRank]
    omega
  have hdivision : m * 2 ^ (n.log2 - 52) / 2 ^ (52 - n.log2) = n := by
    rw [← h]
    exact Nat.mul_div_cancel n (Nat.two_pow_pos _)
  simp only [ofRatio, ofRank, toInt64, roundRatio_of_significand hzero hl hhigh h, hfinite,
    ratio_of_significand hlow hhigh, hdivision]
  cases negative with
  | false => rfl
  | true =>
    simp only [if_true, int64Min]
    omega

theorem significand_lt (rank : Nat) : significand rank < 2 ^ 53 := by
  unfold significand
  split <;> omega

/-- The whole part of a finite magnitude. -/
theorem whole_isExact (rank : Nat) : IsExact ((ratio rank).1 / (ratio rank).2) := by
  have hs := significand_lt rank
  simp only [ratio]
  generalize significand rank = s at *
  by_cases hunit : 0 ≤ unit rank
  · have hnone : (-unit rank).toNat = 0 := by omega
    exact ⟨s, (unit rank).toNat, hs, by simp [hnone]⟩
  · have hnone : (unit rank).toNat = 0 := by omega
    refine isExact_of_lt ?_
    rw [hnone, Nat.pow_zero, Nat.mul_one]
    exact Nat.lt_of_le_of_lt (Nat.div_le_self _ _) hs

/-- What `toInt64` yields: the greatest integer of 64 bits, or an exact number with a
sign. -/
theorem toInt64_cases (x : Binary64) :
    x.toInt64 = int64Max ∨
      ∃ n : Nat, IsExact n ∧ n ≤ 2 ^ 63 ∧ (x.toInt64 = -(n : Int) ∨
        (x.toInt64 = n ∧ (n : Int) ≤ int64Max)) := by
  cases x with
  | nan => exact .inr ⟨0, isExact_of_lt (by decide), by decide, .inl rfl⟩
  | number negative rank bound =>
    have hexact := whole_isExact rank
    simp only [toInt64]
    generalize (ratio rank).1 / (ratio rank).2 = whole at *
    -- Cutting off at the bounds is symmetric but for the least integer, which is a power of two.
    cases negative with
    | false =>
      by_cases hfits : (whole : Int) ≤ int64Max
      · refine .inr ⟨whole, hexact, ?_, .inr ⟨Int.min_eq_left hfits, hfits⟩⟩
        simp only [int64Max] at hfits
        omega
      · exact .inl (Int.min_eq_right (by omega))
    | true =>
      by_cases hfits : int64Min ≤ -(whole : Int)
      · refine .inr ⟨whole, hexact, ?_, .inl (Int.max_eq_left hfits)⟩
        simp only [int64Min] at hfits
        omega
      · refine .inr ⟨2 ^ 63, isExact_two_pow 63, Nat.le_refl _, .inl ?_⟩
        simp only [if_true, int64Min] at hfits ⊢
        omega

end SlipStack.Binary64
