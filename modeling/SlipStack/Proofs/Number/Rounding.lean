import SlipStack.Proofs.Number.Exact

/-!
# Rounding whole numbers keeps their order

The greater of two integers is not rounded to the lesser value (`keyOfInt_mono`): within a binade
the greater numerator is not rounded to the lesser place, and what is rounded in one binade does not
pass the start of the next one (`le_roundRatio`, `roundRatio_le`). Different integers may be rounded
to one value, but not if they are at most 2⁵³ in size (`keyOfInt_injective`).
-/

namespace SlipStack.Binary64

/-! ## Magnitudes -/

/-- The quotient is rounded up where the remainder is more than a half, or is a half and the
quotient is odd. -/
theorem roundHalfEven_eq (num den : Nat) :
    roundHalfEven num den =
      if den < 2 * (num % den) ∨ 2 * (num % den) = den ∧ num / den % 2 = 1 then num / den + 1
      else num / den := by
  simp [roundHalfEven]

theorem le_roundHalfEven (num den : Nat) : num / den ≤ roundHalfEven num den := by
  rw [roundHalfEven_eq]
  split
  · exact Nat.le_succ _
  · exact Nat.le_refl _

theorem roundHalfEven_le (num den : Nat) : roundHalfEven num den ≤ num / den + 1 := by
  rw [roundHalfEven_eq]
  split
  · exact Nat.le_refl _
  · exact Nat.le_succ _

/-- Rounding to the nearest quotient keeps the order: either both lie between the same two whole
numbers, or the larger quotient is already above. -/
theorem roundHalfEven_mono {num num' : Nat} (den : Nat) (h : num ≤ num') :
    roundHalfEven num den ≤ roundHalfEven num' den := by
  have hquotient : num / den ≤ num' / den := Nat.div_le_div_right h
  rcases Nat.eq_or_lt_of_le hquotient with hsame | hless
  · -- Within one quotient, the greater remainder is rounded up if the lesser one is.
    have hremainder : num % den ≤ num' % den := by
      have hnum := Nat.div_add_mod num den
      have hnum' := Nat.div_add_mod num' den
      rw [← hsame] at hnum'
      omega
    by_cases hup : den < 2 * (num % den) ∨ 2 * (num % den) = den ∧ num / den % 2 = 1
    · have hup' : den < 2 * (num' % den) ∨ 2 * (num' % den) = den ∧ num' / den % 2 = 1 := by
        rw [← hsame]
        omega
      rw [roundHalfEven_eq, roundHalfEven_eq, if_pos hup, if_pos hup']
      exact Nat.succ_le_succ hquotient
    · rw [roundHalfEven_eq num, if_neg hup]
      exact Nat.le_trans hquotient (le_roundHalfEven num' den)
  · calc roundHalfEven num den ≤ num / den + 1 := roundHalfEven_le num den
      _ ≤ num' / den := hless
      _ ≤ roundHalfEven num' den := le_roundHalfEven num' den

theorem two_pow_mul_congr {a b c d : Nat} (h : a + b = c + d) :
    2 ^ a * 2 ^ b = 2 ^ c * 2 ^ d := by
  rw [← Nat.pow_add, ← Nat.pow_add, h]

section Binade

variable {n : Nat} (hn : n ≠ 0)
include hn

/-- A place in a binade, as a quotient, is between those of two powers of two. -/
theorem place_bounds :
    2 ^ 52 * 2 ^ (n.log2 - 52) ≤ n * 2 ^ (52 - n.log2) ∧
      n * 2 ^ (52 - n.log2) ≤ 2 ^ 53 * 2 ^ (n.log2 - 52) := by
  have hlow : 2 ^ n.log2 ≤ n := Nat.log2_self_le hn
  have hhigh : n < 2 ^ (n.log2 + 1) := Nat.lt_log2_self
  generalize n.log2 = l at *
  constructor
  · calc 2 ^ 52 * 2 ^ (l - 52) = 2 ^ l * 2 ^ (52 - l) := two_pow_mul_congr (by omega)
      _ ≤ n * 2 ^ (52 - l) := Nat.mul_le_mul_right _ hlow
  · calc n * 2 ^ (52 - l) ≤ 2 ^ (l + 1) * 2 ^ (52 - l) :=
          Nat.mul_le_mul_right _ (Nat.le_of_lt hhigh)
      _ = 2 ^ 53 * 2 ^ (l - 52) := two_pow_mul_congr (by omega)

/-- The rank of a rounded number is at least that of the power of two at or below it. -/
theorem le_roundRatio : min ((n.log2 + 1023) * 2 ^ 52) infinityRank ≤ roundRatio n 1 := by
  have hplace := roundHalfEven_mono (2 ^ (n.log2 - 52)) (place_bounds hn).1
  rw [roundHalfEven_mul _ _ (Nat.two_pow_pos _)] at hplace
  rw [roundRatio_one hn]
  omega

/-- The rank of a rounded number is at most that of the next power of two, which is reached when a
carry goes all the way up. -/
theorem roundRatio_le : roundRatio n 1 ≤ min ((n.log2 + 1024) * 2 ^ 52) infinityRank := by
  have hplace := roundHalfEven_mono (2 ^ (n.log2 - 52)) (place_bounds hn).2
  rw [roundHalfEven_mul _ _ (Nat.two_pow_pos _)] at hplace
  rw [roundRatio_one hn]
  omega

end Binade

/-- Rounding of whole numbers keeps their order. Numbers of different length are separated by the
powers of two between them. -/
theorem roundRatio_mono {m n : Nat} (h : m ≤ n) : roundRatio m 1 ≤ roundRatio n 1 := by
  by_cases hm : m = 0
  · subst hm
    exact Nat.zero_le _
  have hn : n ≠ 0 := by omega
  have hlog : m.log2 ≤ n.log2 := (Nat.le_log2 hn).2 (Nat.le_trans (Nat.log2_self_le hm) h)
  rcases Nat.eq_or_lt_of_le hlog with hsame | hless
  · have hplace := roundHalfEven_mono (2 ^ (n.log2 - 52))
      (Nat.mul_le_mul_right (2 ^ (52 - n.log2)) h)
    rw [roundRatio_one hm, roundRatio_one hn, hsame]
    omega
  · have hbelow := roundRatio_le hm
    have habove := le_roundRatio hn
    have hbinade : (m.log2 + 1024) * 2 ^ 52 ≤ (n.log2 + 1023) * 2 ^ 52 :=
      Nat.mul_le_mul_right _ (by omega)
    omega

/-! ## Integers -/

/-- The rank of a whole number is that of a value. -/
theorem roundRatio_le_infinityRank (n : Nat) : roundRatio n 1 ≤ infinityRank := by
  by_cases hn : n = 0
  · subst hn
    exact Nat.zero_le _
  · rw [roundRatio_one hn]
    exact Nat.min_le_right _ _

theorem ofInt_eq_number (n : Int) :
    ofInt n = .number (n < 0) (roundRatio n.natAbs 1) (roundRatio_le_infinityRank _) := by
  have hfinite := Nat.min_eq_left (roundRatio_le_infinityRank n.natAbs)
  simp only [ofInt, ofRatio, ofRank, hfinite]

/-- The key of the value nearest to an integer. -/
def keyOfInt (n : Int) : Int :=
  key (n < 0) (roundRatio n.natAbs 1)

/-- Integers keep their order, though not always their difference, when they are turned into
floats. -/
theorem keyOfInt_mono {m n : Int} (h : m ≤ n) : keyOfInt m ≤ keyOfInt n := by
  simp only [keyOfInt, key, decide_eq_true_eq]
  split <;> split
  · have := roundRatio_mono (by omega : n.natAbs ≤ m.natAbs)
    omega
  · omega
  · omega
  · have := roundRatio_mono (by omega : m.natAbs ≤ n.natAbs)
    omega

/-- Only zero is rounded to rank zero, so integers of one key are rounded to one value. -/
theorem ofInt_eq_of_key {m n : Int} (h : keyOfInt m = keyOfInt n) : ofInt m = ofInt n := by
  have hpositive (k : Int) (hk : k < 0) : 0 < roundRatio k.natAbs 1 := by
    have hlow := le_roundRatio (by omega : k.natAbs ≠ 0)
    simp only [infinityRank] at hlow
    omega
  have hm := hpositive m
  have hn := hpositive n
  simp only [keyOfInt, key, decide_eq_true_eq] at h
  have hrank : roundRatio m.natAbs 1 = roundRatio n.natAbs 1 := by
    split at h <;> split at h <;> omega
  have hsign : m < 0 ↔ n < 0 := by
    split at h <;> split at h <;> omega
  simp only [ofInt_eq_number, hrank, hsign]

/-- Numbers up to 2^53 are represented exactly, the bound itself being a power of two. -/
theorem isExact_of_le {n : Nat} (h : n ≤ 2 ^ 53) : IsExact n := by
  rcases Nat.eq_or_lt_of_le h with rfl | hlt
  · exact isExact_two_pow 53
  · exact isExact_of_lt hlt

/-- An integer up to 2^53 in size comes back from the float that it was turned into. -/
theorem toInt64_ofInt {n : Int} (h : n.natAbs ≤ 2 ^ 53) : (ofInt n).toInt64 = n := by
  rw [ofInt, toInt64_ofRatio _ (isExact_of_le h) (by omega)]
  simp only [int64Max, decide_eq_true_eq]
  split <;> omega

/-- Different integers up to 2⁵³ are rounded to different values. -/
theorem keyOfInt_injective {m n : Int} (hm : m.natAbs ≤ 2 ^ 53) (hn : n.natAbs ≤ 2 ^ 53)
    (h : keyOfInt m = keyOfInt n) : m = n := by
  rw [← toInt64_ofInt hm, ← toInt64_ofInt hn, ofInt_eq_of_key h]

end SlipStack.Binary64
