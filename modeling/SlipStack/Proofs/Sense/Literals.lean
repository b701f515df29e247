import SlipStack.Proofs.Lap.Words
import SlipStack.Proofs.Number.Positional
import SlipStack.Sense.Literal

/-!
# Integer literals

`Spells` lists the forms of an integer literal with the integer that each stands for: zero, decimal
digits with or without a sign, octal digits behind a zero, hexadecimal digits behind `0x`. The
reader of literals knows exactly these (`integer?_eq_some`), and a literal gets exactly the value
that it spells (`integer_literals_exact`).
-/

namespace SlipStack

open Numeral Text

namespace Literal

/-- The integer literals without a suffix, each with the integer that it stands for. -/
inductive Spells : List Char → Int → Prop where
  | zero : Spells ['0'] 0
  /-- Decimal digits, the first of which is no zero. -/
  | decimal {first : Char} {rest : List Char} (hfirst : first ≠ '0')
      (hdigits : ∀ c ∈ first :: rest, digit c < 10) :
      Spells (first :: rest) (positional 10 (first :: rest))
  | negative {first : Char} {rest : List Char} (hfirst : first ≠ '0')
      (hdigits : ∀ c ∈ first :: rest, digit c < 10) :
      Spells ('-' :: first :: rest) (-(positional 10 (first :: rest) : Int))
  | octal {digits : List Char} (hne : digits ≠ []) (hdigits : ∀ c ∈ digits, digit c < 8) :
      Spells ('0' :: digits) (positional 8 digits)
  | hexadecimal {x : Char} {digits : List Char} (hx : x = 'x' ∨ x = 'X') (hne : digits ≠ [])
      (hdigits : ∀ c ∈ digits, digit c < 16) :
      Spells ('0' :: x :: digits) (positional 16 digits)

/-! ## Reading integers -/

/-- The first digit of a decimal integer. -/
theorem startsDecimal_iff {c : Char} :
    ('1' ≤ c && c ≤ '9') = true ↔ c ≠ '0' ∧ digit c < 10 := by
  have hzero : c ≠ '0' ↔ c.toNat ≠ 48 := not_congr Char.toNat_inj.symm
  have hone : '1' ≤ c ↔ 49 ≤ c.toNat := Iff.rfl
  have hfirst : '0' ≤ c ↔ 48 ≤ c.toNat := Iff.rfl
  have hlast : c ≤ '9' ↔ c.toNat ≤ 57 := Iff.rfl
  rw [← isAsciiDigit_iff, hzero]
  simp only [isAsciiDigit, Bool.and_eq_true, decide_eq_true_eq, hone, hfirst, hlast]
  omega

theorem decimal?_eq_some {cs : List Char} {n : Nat} :
    decimal? cs = some n ↔ ∃ first rest, cs = first :: rest ∧ first ≠ '0' ∧
      (∀ c ∈ first :: rest, digit c < 10) ∧ n = positional 10 (first :: rest) := by
  cases cs with
  | nil => simp [decimal?]
  | cons first rest =>
    have hdigits : rest.all isAsciiDigit = true ↔ ∀ c ∈ rest, digit c < 10 := by
      simp only [List.all_eq_true, isAsciiDigit_iff]
    rw [decimal?, Option.ite_none_right_eq_some, Bool.and_eq_true, startsDecimal_iff, hdigits,
      digitsValue?_eq_some (by decide)]
    constructor
    · rintro ⟨⟨⟨hfirst, -⟩, -⟩, -, hall, hn⟩
      exact ⟨first, rest, rfl, hfirst, hall, hn⟩
    · rintro ⟨_, _, ⟨rfl, rfl⟩, hfirst, hall, hn⟩
      obtain ⟨hdigit, hrest⟩ := List.forall_mem_cons.1 hall
      exact ⟨⟨⟨hfirst, hdigit⟩, hrest⟩, List.cons_ne_nil _ _, hall, hn⟩

theorem ne_of_digit {c d : Char} {base : Nat} (hc : digit c < base) (hd : base ≤ digit d) :
    c ≠ d := by
  rintro rfl
  omega

/-- A literal that starts with a zero and a further digit is read in base eight. -/
theorem integer?_octal {c : Char} {cs : List Char} (hc : digit c < 8) :
    integer? ('0' :: c :: cs) = (digitsValue? 8 (c :: cs)).map Int.ofNat := by
  have hx : c ≠ 'x' := ne_of_digit hc (by decide)
  have hX : c ≠ 'X' := ne_of_digit hc (by decide)
  simp [integer?, hx, hX]

/-- A literal that starts with another digit is read in base ten. -/
theorem integer?_decimal {c : Char} {cs : List Char} (hfirst : c ≠ '0') (hc : digit c < 10) :
    integer? (c :: cs) = (decimal? (c :: cs)).map Int.ofNat := by
  have hminus : c ≠ '-' := ne_of_digit hc (by decide)
  simp [integer?, hfirst, hminus]

/-- The reader knows these integers and no others. -/
theorem integer?_eq_some {cs : List Char} {n : Int} : integer? cs = some n ↔ Spells cs n := by
  constructor
  · intro h
    unfold integer? at h
    -- The forms of the reader are those of `Spells`, with `x` and `X` apart.
    split at h
    · obtain rfl := Option.some.inj h
      exact .zero
    · obtain ⟨value, hvalue, rfl⟩ := Option.map_eq_some_iff.1 h
      obtain ⟨hne, hdigits, rfl⟩ := (digitsValue?_eq_some (by decide)).1 hvalue
      exact .hexadecimal (.inl rfl) hne hdigits
    · obtain ⟨value, hvalue, rfl⟩ := Option.map_eq_some_iff.1 h
      obtain ⟨hne, hdigits, rfl⟩ := (digitsValue?_eq_some (by decide)).1 hvalue
      exact .hexadecimal (.inr rfl) hne hdigits
    · obtain ⟨value, hvalue, rfl⟩ := Option.map_eq_some_iff.1 h
      obtain ⟨hne, hdigits, rfl⟩ := (digitsValue?_eq_some (by decide)).1 hvalue
      exact .octal hne hdigits
    · obtain ⟨value, hvalue, rfl⟩ := Option.map_eq_some_iff.1 h
      obtain ⟨size, hsize, hcast⟩ := Option.bind_eq_some_iff.1 hvalue
      obtain rfl := Option.some.inj hcast
      obtain ⟨first, rest, rfl, hfirst, hdigits, rfl⟩ := decimal?_eq_some.1 hsize
      exact .negative hfirst hdigits
    · obtain ⟨value, hvalue, rfl⟩ := Option.map_eq_some_iff.1 h
      obtain ⟨first, rest, rfl, hfirst, hdigits, rfl⟩ := decimal?_eq_some.1 hvalue
      exact .decimal hfirst hdigits
  · intro h
    cases h with
    | zero => rfl
    | decimal hfirst hdigits =>
      rw [integer?_decimal hfirst (hdigits _ List.mem_cons_self),
        decimal?_eq_some.2 ⟨_, _, rfl, hfirst, hdigits, rfl⟩]
      rfl
    | negative hfirst hdigits =>
      rw [integer?, decimal?_eq_some.2 ⟨_, _, rfl, hfirst, hdigits, rfl⟩]
      rfl
    | octal hne hdigits =>
      obtain ⟨c, cs, rfl⟩ := List.exists_cons_of_ne_nil hne
      rw [integer?_octal (hdigits c List.mem_cons_self),
        (digitsValue?_eq_some (by decide)).2 ⟨hne, hdigits, rfl⟩]
      rfl
    | hexadecimal hx hne hdigits =>
      have hvalue := (digitsValue?_eq_some (by decide)).2 ⟨hne, hdigits, rfl⟩
      rcases hx with rfl | rfl
      · rw [integer?, hvalue]
        rfl
      · rw [integer?, hvalue]
        rfl

/-- Printed integers are spelt that way. -/
theorem spells_toString (n : Int) : Spells (toString n).toList n := by
  rcases toString_cases n with ⟨size, rfl, htext⟩ | ⟨size, rfl, hneg, htext⟩
  · rw [htext]
    rcases Nat.eq_zero_or_pos size with rfl | hpos
    · exact .zero
    · obtain ⟨first, rest, h, hfirst, hdigits, hsize⟩ := toDigits_of_pos hpos
      rw [h, hsize]
      exact .decimal hfirst hdigits
  · have hpos : 0 < size := by omega
    obtain ⟨first, rest, h, hfirst, hdigits, hsize⟩ := toDigits_of_pos hpos
    rw [htext, h, hsize]
    exact .negative hfirst hdigits

/-! ## The characters of integers -/

/-- Signs, digits and the letters of the bases. -/
theorem Spells.chars {cs : List Char} {n : Int} (h : Spells cs n) :
    ∀ c ∈ cs, c = '-' ∨ c = 'x' ∨ c = 'X' ∨ digit c < 16 := by
  have digits {ds : List Char} {base : Nat} (hbase : base ≤ 16) (hds : ∀ c ∈ ds, digit c < base) :
      ∀ c ∈ ds, c = '-' ∨ c = 'x' ∨ c = 'X' ∨ digit c < 16 :=
    fun c hc => .inr (.inr (.inr ((hds c hc).trans_le hbase)))
  have hzero : digit '0' < 16 := by decide
  cases h with
  | zero => simp [hzero]
  | decimal _ hdigits => exact digits (by decide) hdigits
  | negative _ hdigits =>
    exact List.forall_mem_cons.2 ⟨.inl rfl, digits (by decide) hdigits⟩
  | octal _ hdigits =>
    exact List.forall_mem_cons.2 ⟨.inr (.inr (.inr hzero)), digits (by decide) hdigits⟩
  | hexadecimal hx _ hdigits =>
    refine List.forall_mem_cons.2 ⟨.inr (.inr (.inr hzero)), List.forall_mem_cons.2 ⟨?_, ?_⟩⟩
    · rcases hx with rfl | rfl
      · exact .inr (.inl rfl)
      · exact .inr (.inr (.inl rfl))
    · exact digits le_rfl hdigits

theorem Spells.startsNumber {cs : List Char} {n : Int} (h : Spells cs n) (rest : List Char) :
    Lap.Word.startsNumber (cs ++ rest) = true := by
  cases h with
  | decimal hfirst hdigits =>
    have hdigit := isAsciiDigit_iff.2 (hdigits _ List.mem_cons_self)
    rw [List.cons_append, Lap.Word.startsNumber, hdigit, Bool.or_true]
  | zero | negative | octal | hexadecimal => rfl

/-- The suffixes that an integer may have. -/
def suffixes : List (List Char) := [[], ['l'], ['L']]

theorem withoutSuffix_of_notMem {cs : List Char} (hsmall : 'l' ∉ cs) (hcapital : 'L' ∉ cs) :
    withoutSuffix cs = cs := by
  have hlast (c : Char) (hc : c ∉ cs) : cs.getLast? ≠ some c :=
    fun hlast => hc (List.mem_of_getLast? hlast)
  simp [withoutSuffix, hlast 'l' hsmall, hlast 'L' hcapital]

/-- The suffix of a spelled integer is what is removed before it is read; digits never end in it.
-/
theorem withoutSuffix_append {cs suffix : List Char} {n : Int} (h : Spells cs n)
    (hsuffix : suffix ∈ suffixes) : withoutSuffix (cs ++ suffix) = cs := by
  simp only [suffixes, List.mem_cons, List.not_mem_nil, or_false] at hsuffix
  rcases hsuffix with rfl | rfl | rfl
  · rw [List.append_nil]
    exact withoutSuffix_of_notMem (fun hmem => absurd (h.chars 'l' hmem) (by decide))
      fun hmem => absurd (h.chars 'L' hmem) (by decide)
  · simp [withoutSuffix]
  · simp [withoutSuffix]

theorem notMem_append {cs suffix : List Char} {n : Int} (h : Spells cs n)
    (hsuffix : suffix ∈ suffixes) : '.' ∉ cs ++ suffix := by
  have hpoint : ∀ suffix ∈ suffixes, '.' ∉ suffix := by decide
  rw [List.mem_append, not_or]
  exact ⟨fun hmem => absurd (h.chars '.' hmem) (by decide), hpoint suffix hsuffix⟩

/-! ## Fractions -/

theorem mem_of_isFloat {word : List Char} (h : Lap.Word.isFloat word = true) : '.' ∈ word := by
  have hunsigned : '.' ∈ Lap.Word.unsigned word := by
    unfold Lap.Word.isFloat Lap.Word.isUnsignedFloat at h
    split at h
    · rename_i rest hrest
      have hmem : '.' ∈ (Lap.Word.unsigned word).dropWhile isDecimalDigit := by
        rw [hrest]
        exact List.mem_cons_self
      exact (List.dropWhile_suffix _).subset hmem
    · cases h
  unfold Lap.Word.unsigned at hunsigned
  split at hunsigned
  · exact List.mem_cons_of_mem _ hunsigned
  · exact hunsigned

/-! ## Literals -/

/-- A literal that is an integer in range has that integer as its value; integers come before all
else. -/
theorem ofLiteral_int {text : String} {n : Int}
    (hinteger : integer? (withoutSuffix text.toList) = some n) (hfits : fitsInt64 n = true) :
    Value.ofLiteral text = .int n := by
  have hvalue : (integer? (withoutSuffix text.toList)).filter fitsInt64 = some n :=
    Option.filter_eq_some_iff.2 ⟨hinteger, hfits⟩
  simp only [Value.ofLiteral, hvalue]

/-- A literal that is no integer but a float has that float as its value. -/
theorem ofLiteral_real {text : String} {x : Binary64}
    (hinteger : integer? (withoutSuffix text.toList) = none) (hreal : real? text.toList = some x) :
    Value.ofLiteral text = .real x := by
  simp [Value.ofLiteral, hinteger, hreal]

/-- A text that starts like a number is neither a truth value nor quoted. -/
theorem ofLiteral_text {text : String}
    (hinteger : (integer? (withoutSuffix text.toList)).filter fitsInt64 = none)
    (hreal : real? text.toList = none) (hstart : Lap.Word.startsNumber text.toList = true) :
    Value.ofLiteral text = .text text := by
  have hne (word : String) (hword : Lap.Word.startsNumber word.toList = false) : text ≠ word := by
    rintro rfl
    rw [hword] at hstart
    cases hstart
  have hquote : withoutQuote text.toList = text.toList := by
    unfold withoutQuote
    split
    · rename_i rest htext
      rw [htext] at hstart
      cases hstart
    · rfl
  simp [Value.ofLiteral, hinteger, hreal, hquote, hne "true" (by decide), hne "True" (by decide),
    hne "false" (by decide), hne "False" (by decide)]

theorem fitsInt64_iff {n : Int} : fitsInt64 n = true ↔ -2 ^ 63 ≤ n ∧ n < 2 ^ 63 := by
  rw [fitsInt64, Bool.and_eq_true, decide_eq_true_iff, decide_eq_true_iff, Binary64.int64Min,
    Binary64.int64Max, Int.le_sub_one_iff]

/-- An integer with its suffix, whether or not 64 bits hold it. -/
theorem ofLiteral_spells {cs suffix : List Char} {n : Int} (h : Spells cs n)
    (hsuffix : suffix ∈ suffixes) :
    Value.ofLiteral (String.ofList (cs ++ suffix)) =
      if -2 ^ 63 ≤ n ∧ n < 2 ^ 63 then .int n else .text (String.ofList (cs ++ suffix)) := by
  have hinteger : integer? (withoutSuffix (String.ofList (cs ++ suffix)).toList) = some n := by
    rw [String.toList_ofList, withoutSuffix_append h hsuffix, integer?_eq_some.2 h]
  split
  · rename_i hbounds
    exact ofLiteral_int hinteger (fitsInt64_iff.2 hbounds)
  · rename_i hbounds
    have hlarge : fitsInt64 n = false := Bool.eq_false_iff.2 fun hfits =>
      hbounds (fitsInt64_iff.1 hfits)
    refine ofLiteral_text ?_ ?_ ?_
    · rw [hinteger, Option.filter_some, if_neg (by rw [hlarge]; decide)]
    · -- No integer has the point that a fraction has.
      rw [String.toList_ofList, real?, if_neg]
      exact fun hfloat => notMem_append h hsuffix (mem_of_isFloat hfloat)
    · rw [String.toList_ofList]
      exact h.startsNumber suffix

/-- A literal that spells an integer in range has exactly that integer as its value, in each of
the three bases. -/
theorem ofLiteral_of_spells {text : String} {n : Int} (h : Spells text.toList n)
    (hbounds : -2 ^ 63 ≤ n ∧ n < 2 ^ 63) : Value.ofLiteral text = .int n := by
  have hvalue := @ofLiteral_spells _ [] n h List.mem_cons_self
  rwa [List.append_nil, String.ofList_toList, if_pos hbounds] at hvalue

/-- An integer literal, in base ten, eight or sixteen and with or without the suffix, has exactly
the value that it spells if 64 bits hold that, and is a text otherwise, unchanged. In particular a
printed integer of 64 bits is read as itself. -/
theorem integer_literals_exact :
    (∀ (cs suffix : List Char) (n : Int), Spells cs n → suffix ∈ suffixes →
      Value.ofLiteral (String.ofList (cs ++ suffix)) =
        if -2 ^ 63 ≤ n ∧ n < 2 ^ 63 then .int n else .text (String.ofList (cs ++ suffix))) ∧
    ∀ n : Int, -2 ^ 63 ≤ n → n < 2 ^ 63 → Value.ofLiteral (toString n) = .int n := by
  exact ⟨fun cs suffix n => ofLiteral_spells, fun n hmin hmax =>
    ofLiteral_of_spells (spells_toString n) ⟨hmin, hmax⟩⟩

/-- The greatest integer in base sixteen, behind it the next one in base ten, and the least one. -/
theorem integer_literals_exact_extremes :
    Spells "0x7fffffffffffffff".toList (2 ^ 63 - 1) ∧
      Value.ofLiteral "0x7fffffffffffffffL" = .int (2 ^ 63 - 1) ∧
      Spells "9223372036854775808".toList (2 ^ 63) ∧
      Value.ofLiteral "9223372036854775808" = .text "9223372036854775808" ∧
      Value.ofLiteral (toString (-2 ^ 63 : Int)) = .int (-2 ^ 63) := by
  have hhex : Spells "0x7fffffffffffffff".toList (2 ^ 63 - 1) := integer?_eq_some.1 (by decide)
  have hten : Spells "9223372036854775808".toList (2 ^ 63) := integer?_eq_some.1 (by decide)
  obtain ⟨hspelt, hprinted⟩ := integer_literals_exact
  have hfits := hspelt _ ['L'] _ hhex (by decide)
  have hlarge := hspelt _ [] _ hten (by decide)
  rw [if_pos (by decide)] at hfits
  rw [if_neg (by decide)] at hlarge
  exact ⟨hhex, hfits, hten, hlarge, hprinted _ (by decide) (by decide)⟩

end Literal

end SlipStack
