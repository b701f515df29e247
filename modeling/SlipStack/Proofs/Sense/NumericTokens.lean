import SlipStack.Engine.Trigger
import SlipStack.Proofs.Lap.Lexemes
import SlipStack.Proofs.Sense.Literals

/-!
# Numbers in checks

What the lexer takes for a number and what literals take for one are said in two places. Every
fraction in ASCII digits is a literal (`exists_decimal?`), and so is every whole number, save one
with a zero in front that is no octal number (`Unspelt`). That one is a text, which no number
equals; all others are numbers (`numeric_tokens_are_numbers`).
-/

namespace SlipStack

open Numeral Text Lap Lap.Word

namespace Literal

/-- The whole numbers that are no literals: they start with a zero that has a minus sign in front of
it, or a digit above seven behind it. -/
inductive Unspelt : List Char → Prop where
  | negative {digits : List Char} (hdigits : ∀ c ∈ digits, digit c < 10) :
      Unspelt ('-' :: '0' :: digits)
  | decimal {digits : List Char} (hdigits : ∀ c ∈ digits, digit c < 10)
      (hlarge : ∃ c ∈ digits, 8 ≤ digit c) : Unspelt ('0' :: digits)

/-! ## Whole numbers -/

/-- A word that the lexer takes for an integer is digits, with a sign perhaps. -/
theorem digits_of_isInt {word : List Char} (h : isInt word = true) :
    unsigned word ≠ [] ∧ ∀ c ∈ unsigned word, digit c < 10 := by
  simp only [isInt, Bool.and_eq_true, Bool.not_eq_true', List.isEmpty_eq_false_iff,
    List.all_eq_true, isAsciiDigit_iff] at h
  exact h

/-- A whole number either is a literal or has a zero in front. -/
theorem spells_or_unspelt {word : List Char} (h : isInt word = true) :
    (∃ n, Spells word n) ∨ Unspelt word := by
  have hword := digits_of_isInt h
  unfold unsigned at hword
  split at hword
  · obtain ⟨hne, hdigits⟩ := hword
    obtain ⟨first, rest, rfl⟩ := List.exists_cons_of_ne_nil hne
    by_cases hfirst : first = '0'
    · subst hfirst
      exact .inr (.negative (List.forall_mem_cons.1 hdigits).2)
    · exact .inl ⟨_, .negative hfirst hdigits⟩
  · obtain ⟨hne, hdigits⟩ := hword
    obtain ⟨first, rest, rfl⟩ := List.exists_cons_of_ne_nil hne
    by_cases hfirst : first = '0'
    · subst hfirst
      have hrest := (List.forall_mem_cons.1 hdigits).2
      -- A leading zero asks for base eight, in which eight and nine are no digits.
      by_cases hlarge : ∃ c ∈ rest, 8 ≤ digit c
      · exact .inr (.decimal hrest hlarge)
      · have hsmall : ∀ c ∈ rest, digit c < 8 := fun c hc =>
          Nat.lt_of_not_le fun hle => hlarge ⟨c, hc, hle⟩
        by_cases hnil : rest = []
        · subst hnil
          exact .inl ⟨_, .zero⟩
        · exact .inl ⟨_, .octal hnil hsmall⟩
    · exact .inl ⟨_, .decimal hfirst hdigits⟩

/-- Words such as `-0` and `08`, which the lexer takes for integers, spell no integer as a
literal. -/
theorem Unspelt.not_spells {word : List Char} (h : Unspelt word) (n : Int) : ¬ Spells word n := by
  intro hn
  cases h with
  | negative _ =>
    cases hn with
    | decimal hfirst hdigits => exact absurd (hdigits '-' List.mem_cons_self) (by decide)
    | negative hfirst _ => exact hfirst rfl
  | decimal hdigits hlarge =>
    obtain ⟨c, hc, hle⟩ := hlarge
    cases hn with
    | zero => cases hc
    | decimal hfirst _ => exact hfirst rfl
    | octal _ hsmall => exact absurd (hsmall c hc) (Nat.not_lt.2 hle)
    | hexadecimal hx _ _ =>
      have hdigit := hdigits _ List.mem_cons_self
      rcases hx with rfl | rfl
      · exact absurd hdigit (by decide)
      · exact absurd hdigit (by decide)

theorem Unspelt.chars {word : List Char} (h : Unspelt word) :
    ∀ c ∈ word, c = '-' ∨ digit c < 10 := by
  have hzero : digit '0' < 10 := by decide
  cases h with
  | negative hdigits =>
    exact List.forall_mem_cons.2 ⟨.inl rfl, List.forall_mem_cons.2
      ⟨.inr hzero, fun c hc => .inr (hdigits c hc)⟩⟩
  | decimal hdigits _ =>
    exact List.forall_mem_cons.2 ⟨.inr hzero, fun c hc => .inr (hdigits c hc)⟩

theorem Unspelt.startsNumber {word : List Char} (h : Unspelt word) :
    Lap.Word.startsNumber word = true := by
  cases h with
  | negative | decimal => rfl

/-- A word of that kind is taken for a text, since it is no float either. -/
theorem ofLiteral_unspelt {text : String} (h : Unspelt text.toList) :
    Value.ofLiteral text = .text text := by
  have hnotMem {c : Char} (hc : ¬ (c = '-' ∨ digit c < 10)) : c ∉ text.toList :=
    fun hmem => hc (h.chars c hmem)
  refine ofLiteral_text ?_ ?_ h.startsNumber
  · rw [withoutSuffix_of_notMem (hnotMem (by decide)) (hnotMem (by decide))]
    rw [Option.eq_none_iff_forall_ne_some.2 fun n hn => h.not_spells n (integer?_eq_some.1 hn),
      Option.filter_none]
  · rw [real?, if_neg]
    exact fun hfloat => hnotMem (by decide) (mem_of_isFloat hfloat)

/-! ## Fractions -/

/-- No digits other than the ASCII ones. -/
def AsciiDigits (cs : List Char) : Prop :=
  ∀ c ∈ cs, isDecimalDigit c = true → isAsciiDigit c = true

instance (cs : List Char) : Decidable (AsciiDigits cs) :=
  List.decidableBAll (fun c => isDecimalDigit c = true → isAsciiDigit c = true) cs

theorem AsciiDigits.of_subset {cs ds : List Char} (h : AsciiDigits cs) (hds : ds ⊆ cs) :
    AsciiDigits ds := fun c hc => h c (hds hc)

/-- Either way of telling digits stops at the same place. -/
theorem AsciiDigits.span {cs : List Char} (h : AsciiDigits cs) :
    cs.takeWhile isAsciiDigit = cs.takeWhile isDecimalDigit ∧
      cs.dropWhile isAsciiDigit = cs.dropWhile isDecimalDigit := by
  induction cs with
  | nil => exact ⟨rfl, rfl⟩
  | cons c cs ih =>
    obtain ⟨htake, hdrop⟩ := ih (h.of_subset (List.subset_cons_self c cs))
    have hc : isAsciiDigit c = isDecimalDigit c :=
      Bool.eq_iff_iff.2 ⟨isDecimalDigit_of_isAsciiDigit, h c List.mem_cons_self⟩
    simp only [List.takeWhile_cons, List.dropWhile_cons, hc, htake, hdrop, and_self]

theorem exists_digitsValue? {cs : List Char} (hne : cs ≠ [])
    (hdigits : ∀ c ∈ cs, isAsciiDigit c = true) : ∃ n, digitsValue? 10 cs = some n :=
  ⟨_, (digitsValue?_eq_some (by decide)).2
    ⟨hne, fun c hc => isAsciiDigit_iff.1 (hdigits c hc), rfl⟩⟩

/-- Digits, with a sign perhaps, always have a value. -/
theorem exists_signed? {cs : List Char} (hne : (splitSign cs).2 ≠ [])
    (hdigits : ∀ c ∈ (splitSign cs).2, isAsciiDigit c = true) : ∃ n, signed? cs = some n := by
  obtain ⟨size, hsize⟩ := exists_digitsValue? hne hdigits
  unfold splitSign at hsize
  unfold signed?
  split at hsize
  · exact ⟨-size, by simp [hsize]⟩
  · exact ⟨size, by simp [hsize]⟩
  · exact ⟨size, by simp [hsize]⟩

theorem isExponent_cons (e : Char) (rest : List Char) :
    isExponent (e :: rest) = ((e = 'e' || e = 'E') && !(splitSign rest).2.isEmpty &&
      (splitSign rest).2.all isDecimalDigit) := by
  cases rest with
  | nil => rfl
  | cons c cs =>
    by_cases hplus : c = '+'
    · subst hplus
      rfl
    · by_cases hminus : c = '-'
      · subst hminus
        rfl
      · simp [isExponent, splitSign, hplus, hminus]

theorem splitSign_subset (cs : List Char) : (splitSign cs).2 ⊆ cs := by
  unfold splitSign
  split
  · exact List.subset_cons_self _ _
  · exact List.subset_cons_self _ _
  · exact List.Subset.refl _

/-- What the lexer takes for an exponent is one. -/
theorem exists_exponent? {cs : List Char} (h : isExponent cs = true) (hascii : AsciiDigits cs) :
    ∃ e, exponent? cs = some e := by
  cases cs with
  | nil => exact ⟨0, rfl⟩
  | cons e rest =>
    rw [isExponent_cons, Bool.and_eq_true, Bool.and_eq_true] at h
    obtain ⟨⟨he, hne⟩, hdigits⟩ := h
    rw [exponent?, if_pos he]
    refine exists_signed? (by simpa using hne) fun c hc => ?_
    exact hascii c (List.mem_cons_of_mem _ (splitSign_subset rest hc))
      (List.all_eq_true.1 hdigits c hc)

/-- The parts of a fraction without its sign. -/
theorem parts_of_isUnsignedFloat {word : List Char} (h : isUnsignedFloat word = true) :
    ∃ rest, word.dropWhile isDecimalDigit = '.' :: rest ∧
      word.takeWhile isDecimalDigit ++ rest.takeWhile isDecimalDigit ≠ [] ∧
      isExponent (rest.dropWhile isDecimalDigit) = true := by
  unfold isUnsignedFloat at h
  split at h
  · rename_i rest hrest
    rw [Bool.and_eq_true, Bool.not_eq_true', Bool.and_eq_false_iff, List.isEmpty_eq_false_iff,
      List.isEmpty_eq_false_iff] at h
    obtain ⟨hne, hexponent⟩ := h
    refine ⟨rest, hrest, fun hnil => ?_, hexponent⟩
    obtain ⟨hwhole, hfraction⟩ := List.append_eq_nil_iff.1 hnil
    rcases hne with hne | hne
    · exact hne hwhole
    · exact hne hfraction
  · cases h

theorem splitSign_of_isFloat {word : List Char} (h : isFloat word = true) :
    ∃ negative, splitSign word = (negative, unsigned word) := by
  unfold splitSign
  split
  · exact ⟨true, rfl⟩
  · -- A plus sign is neither a digit nor the point.
    cases h
  · rename_i hminus hplus
    refine ⟨false, ?_⟩
    unfold unsigned
    split
    · exact absurd rfl (hminus _)
    · rfl

/-- What the lexer takes for a fraction is one, if its digits are ASCII. -/
theorem exists_decimal? {word : List Char} (h : isFloat word = true) (hascii : AsciiDigits word) :
    ∃ x, Numeral.decimal? word = some x := by
  obtain ⟨negative, hsign⟩ := splitSign_of_isFloat h
  obtain ⟨rest, hrest, hne, hexponent⟩ := parts_of_isUnsignedFloat h
  have hunsigned : AsciiDigits (unsigned word) := by
    have hsubset := splitSign_subset word
    rw [hsign] at hsubset
    exact hascii.of_subset hsubset
  have hafter : AsciiDigits rest := hunsigned.of_subset fun c hc =>
    (List.dropWhile_suffix isDecimalDigit).subset (hrest ▸ List.mem_cons_of_mem _ hc)
  have hdigits : ∀ c ∈ (unsigned word).takeWhile isDecimalDigit ++ rest.takeWhile isDecimalDigit,
      isAsciiDigit c = true := fun c hc => by
    rcases List.mem_append.1 hc with hc | hc
    · exact hunsigned c (List.takeWhile_subset _ hc) (List.mem_takeWhile_imp hc)
    · exact hafter c (List.takeWhile_subset _ hc) (List.mem_takeWhile_imp hc)
  obtain ⟨size, hsize⟩ := exists_digitsValue? hne hdigits
  obtain ⟨e, he⟩ := exists_exponent? hexponent
    (hafter.of_subset (List.dropWhile_suffix isDecimalDigit).subset)
  obtain ⟨htake, hdrop⟩ := hunsigned.span
  obtain ⟨htakeRest, hdropRest⟩ := hafter.span
  simp only [Numeral.decimal?, hsign, htake, hdrop, hrest, htakeRest, hdropRest, hsize, he]
  exact ⟨_, rfl⟩

theorem mem_withoutSuffix {c : Char} {cs : List Char} (hmem : c ∈ cs) (hsmall : c ≠ 'l')
    (hcapital : c ≠ 'L') : c ∈ withoutSuffix cs := by
  have hdrop {last : Char} (hlast : cs.getLast? = some last) (hne : c ≠ last) :
      c ∈ cs.dropLast := by
    rw [← List.dropLast_append_getLast? last hlast, List.mem_append, List.mem_singleton] at hmem
    exact hmem.resolve_right hne
  unfold withoutSuffix
  split
  · rename_i hlast
    rw [Bool.or_eq_true, decide_eq_true_eq, decide_eq_true_eq] at hlast
    rcases hlast with hlast | hlast
    · exact hdrop hlast hsmall
    · exact hdrop hlast hcapital
  · exact hmem

/-- A word that the lexer takes for a float has the float that is read from it as its value. -/
theorem ofLiteral_fraction {text : String} {x : Binary64} (hfloat : isFloat text.toList = true)
    (hx : Numeral.decimal? text.toList = some x) : Value.ofLiteral text = .real x := by
  refine ofLiteral_real (Option.eq_none_iff_forall_ne_some.2 fun n hn => ?_) ?_
  · -- No integer has a point.
    have hpoint := mem_withoutSuffix (mem_of_isFloat hfloat) (by decide) (by decide)
    exact absurd ((integer?_eq_some.1 hn).chars '.' hpoint) (by decide)
  · rw [real?, if_pos hfloat, hx]

/-! ## Numeric tokens -/

theorem number_of_kindOf? {word : List Char} {kind : Kind} (h : kindOf? word = some kind) :
    (kind = .int → isInt word = true) ∧ (kind = .float → isFloat word = true) := by
  rcases kindOf?_cases h with h | ⟨-, rfl⟩ | ⟨h, rfl⟩ | ⟨h, rfl⟩ | ⟨-, rfl⟩ | ⟨-, rfl⟩
  · have hall : ∀ kind ∈ (exactWords ++ foldedWords).map Prod.snd,
        kind ≠ .int ∧ kind ≠ .float := by decide
    obtain ⟨hint, hfloat⟩ := hall kind (kind_of_reserved? h)
    exact ⟨fun heq => absurd heq hint, fun heq => absurd heq hfloat⟩
  all_goals simp [*]

/-- A number among the tokens of a text is classified as such by its characters alone. -/
theorem kindOf?_of_mem_tokenize {source : String} {token : Token}
    (hmem : token ∈ (tokenize source).1) (hkind : token.kind = .int ∨ token.kind = .float) :
    kindOf? token.text.toList = some token.kind := by
  have hlexeme : token.lexeme ∈ lexemesOf source.toList := by
    rw [← lexemes_tokenize]
    exact List.mem_map_of_mem hmem
  have hgenuine := genuine_of_mem_lexemesOf hlexeme
  obtain ⟨kind, text, line⟩ := token
  rcases hkind with rfl | rfl
  · exact hgenuine
  · exact hgenuine

/-- A check with a value compares with the literal, by default for equality. -/
theorem ofText_compare {text : String} (hne : text ≠ "") :
    Engine.Test.ofText (some text) none = .compare .eq (Value.ofLiteral text) ∧
      ∀ spelling operator, Operator.ofText? spelling = some operator →
        Engine.Test.ofText (some text) (some spelling) =
          .compare operator (Value.ofLiteral text) := by
  constructor
  · simp [Engine.Test.ofText, hne]
  · intro spelling operator hoperator
    simp [Engine.Test.ofText, hne, hoperator]

/-- A numeric token in ASCII digits is a number in a check, if 64 bits hold the integer that it
spells: a fraction is the number nearest to it, and a whole number the integer that it spells. The
exception is a whole number with a zero in front that spells no integer. The check compares with
that as with a text. -/
theorem numeric_tokens_are_numbers {source : String} {token : Token}
    (hmem : token ∈ (tokenize source).1) (hkind : token.kind = .int ∨ token.kind = .float)
    (hascii : AsciiDigits token.text.toList)
    (hfits : ∀ n, Spells token.text.toList n → -2 ^ 63 ≤ n ∧ n < 2 ^ 63) :
    (token.kind = .float → ∃ x, Numeral.decimal? token.text.toList = some x ∧
        Value.ofLiteral token.text = .real x) ∧
      (token.kind = .int → ¬ Unspelt token.text.toList →
        ∃ n, Spells token.text.toList n ∧ Value.ofLiteral token.text = .int n) ∧
      (Unspelt token.text.toList → Value.ofLiteral token.text = .text token.text) ∧
      Engine.Test.ofText (some token.text) none = .compare .eq (Value.ofLiteral token.text) ∧
      ∀ spelling operator, Operator.ofText? spelling = some operator →
        Engine.Test.ofText (some token.text) (some spelling) =
          .compare operator (Value.ofLiteral token.text) := by
  have hkindOf := kindOf?_of_mem_tokenize hmem hkind
  obtain ⟨hint, hfloat⟩ := number_of_kindOf? hkindOf
  refine ⟨fun h => ?_, fun h hspelt => ?_, ofLiteral_unspelt, ofText_compare ?_⟩
  · obtain ⟨x, hx⟩ := exists_decimal? (hfloat h) hascii
    exact ⟨x, hx, ofLiteral_fraction (hfloat h) hx⟩
  · obtain ⟨n, hn⟩ := (spells_or_unspelt (hint h)).resolve_right hspelt
    exact ⟨n, hn, ofLiteral_of_spells hn (hfits n hn)⟩
  · exact fun hempty => ne_nil_of_kindOf? hkindOf (String.toList_eq_nil_iff.2 hempty)

/-- A depth is checked against an octal number and against a negative zero. -/
def depthText : String := "(depth 017 <) (depth -0 ==)"

/-- The octal number is fifteen in its check. -/
theorem numeric_tokens_are_numbers_octal :
    ⟨.int, "017", 1⟩ ∈ (tokenize depthText).1 ∧ AsciiDigits "017".toList ∧
      Value.ofLiteral "017" = .int 15 ∧
      Engine.Test.ofText (some "017") (some "<") = .compare .lt (.int 15) := by
  have hmem : ⟨.int, "017", 1⟩ ∈ (tokenize depthText).1 := by decide +kernel
  have hascii : AsciiDigits "017".toList := by decide
  have hunique (n : Int) (hn : Spells "017".toList n) : 15 = n :=
    Option.some.inj (integer?_eq_some.2 hn)
  have hspelt : Spells "017".toList 15 := integer?_eq_some.1 (by decide)
  obtain ⟨-, hint, -, -, hcheck⟩ := numeric_tokens_are_numbers hmem (.inl rfl) hascii
    fun n hn => hunique n hn ▸ by decide
  obtain ⟨n, hn, hvalue⟩ := hint rfl fun h => h.not_spells 15 hspelt
  obtain rfl := hunique n hn
  refine ⟨hmem, hascii, hvalue, ?_⟩
  rw [hcheck "<" .lt (by decide), hvalue]

/-- A negative zero is a numeric token whose value is zero, but no literal: a check compares with it
as with a text, and the number zero is not equal to it. -/
theorem negative_zero_is_text :
    ⟨.int, "-0", 1⟩ ∈ (tokenize depthText).1 ∧ AsciiDigits "-0".toList ∧
      int64? "-0".toList = some 0 ∧ Value.ofLiteral "-0" = .text "-0" ∧
      (Engine.Test.ofText (some "-0") (some "==")).passes (.int 0) = false :=
  ⟨by decide +kernel, by decide, by decide, by decide, by decide⟩

end Literal

end SlipStack
