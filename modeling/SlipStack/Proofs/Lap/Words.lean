import SlipStack.Lap.Lexer
import SlipStack.Proofs.Number.Printed

/-!
# Which words there are

Every word that has a kind is a non-empty run of word characters: it holds no separator, no
double quote and nothing that opens a line comment (`isWordChar_of_kindOf?`). So a word in a
text is found again as it stands, whatever surrounds it, as long as a separator follows.

`kindOf?_cases` lists the classes of words, and `reserved?_cases` looks reserved words up in
two tables. A word whose first character is no letter is not reserved, so a printed integer
is a whole number (`kindOf?_toString`).
-/

namespace SlipStack.Lap.Word

open Text

/-! ## Reserved words -/

/-- The words that are reserved letter for letter. -/
def exactWords : List (String × Kind) :=
  [("AP", .actionPattern), ("C", .competence), ("DC", .dc), ("RDC", .rdc), ("SDC", .sdc),
    ("SRDC", .srdc), ("nil", .nil)]

/-- The words that are reserved in either case of letters. -/
def foldedWords : List (String × Kind) :=
  [("drives", .drives), ("elements", .elements), ("trigger", .trigger), ("goal", .goal),
    ("hours", .hours), ("minutes", .minutes), ("seconds", .seconds), ("hz", .hz), ("pm", .pm),
    ("none", .noUnit), ("documentation", .documentation)]

/-- The kind of the first entry that matches, or else what follows the table. -/
def lookUp (matches? : String → Bool) (table : List (String × Kind)) (next : Option Kind) :
    Option Kind :=
  table.foldr (fun entry next => if matches? entry.1 then some entry.2 else next) next

theorem lookUp_eq_some {matches? : String → Bool} {table : List (String × Kind)}
    {next : Option Kind} {kind : Kind} (h : lookUp matches? table next = some kind) :
    (∃ text, (text, kind) ∈ table ∧ matches? text = true) ∨ next = some kind := by
  induction table with
  | nil => exact .inr h
  | cons entry table ih =>
    change (if matches? entry.1 then some entry.2 else lookUp matches? table next) = _ at h
    by_cases hentry : matches? entry.1 = true
    · rw [if_pos hentry, Option.some_inj] at h
      exact .inl ⟨entry.1, by simp [← h], hentry⟩
    · rw [if_neg hentry] at h
      rcases ih h with ⟨text, hmem, htext⟩ | hnext
      · exact .inl ⟨text, List.mem_cons_of_mem _ hmem, htext⟩
      · exact .inr hnext

theorem reserved?_eq_lookUp (word : List Char) :
    reserved? word =
      lookUp (isExactly · word) exactWords (lookUp (isFolded · word) foldedWords none) := rfl

theorem reserved?_cases {word : List Char} {kind : Kind} (h : reserved? word = some kind) :
    (∃ text, (text, kind) ∈ exactWords ∧ word = text.toList) ∨
      ∃ text, (text, kind) ∈ foldedWords ∧ word.map fold = text.toList := by
  rw [reserved?_eq_lookUp] at h
  rcases lookUp_eq_some h with ⟨text, hmem, htext⟩ | h
  · exact .inl ⟨text, hmem, of_decide_eq_true htext⟩
  rcases lookUp_eq_some h with ⟨text, hmem, htext⟩ | h
  · exact .inr ⟨text, hmem, of_decide_eq_true htext⟩
  · cases h

theorem kind_of_reserved? {word : List Char} {kind : Kind} (h : reserved? word = some kind) :
    kind ∈ (exactWords ++ foldedWords).map Prod.snd := by
  rw [List.map_append, List.mem_append]
  rcases reserved?_cases h with ⟨text, hmem, -⟩ | ⟨text, hmem, -⟩
  · exact .inl (List.mem_map_of_mem hmem)
  · exact .inr (List.mem_map_of_mem hmem)

/-! ## Classes of words -/

theorem kindOf?_cases {word : List Char} {kind : Kind} (h : kindOf? word = some kind) :
    reserved? word = some kind ∨ (isOperator word = true ∧ kind = .predicate) ∨
      (isFloat word = true ∧ kind = .float) ∨ (isInt word = true ∧ kind = .int) ∨
      (isName word = true ∧ kind = .name) ∨ (isQuotedName word = true ∧ kind = .string) := by
  unfold kindOf? at h
  cases hreserved : reserved? word with
  | some k =>
    rw [hreserved] at h
    exact .inl h
  | none =>
    rw [hreserved] at h
    simp only at h
    split at h
    · simp_all
    split at h
    · simp_all
    split at h
    · simp_all
    split at h
    · simp_all
    split at h
    · simp_all
    · cases h

/-- No word is a parenthesis or a quoted text. -/
theorem kindOf?_notMem {word : List Char} {kind : Kind} (h : kindOf? word = some kind) :
    kind ∉ [Kind.leftParen, .rightParen, .comment] := by
  rcases kindOf?_cases h with h | ⟨-, rfl⟩ | ⟨-, rfl⟩ | ⟨-, rfl⟩ | ⟨-, rfl⟩ | ⟨-, rfl⟩
  · have hall : ∀ kind ∈ (exactWords ++ foldedWords).map Prod.snd,
        kind ∉ [Kind.leftParen, .rightParen, .comment] := by decide
    exact hall kind (kind_of_reserved? h)
  all_goals decide

/-- The drive collection tags stand for themselves. -/
theorem tag_of_kindOf? {text : String} {kind : Kind} (h : kindOf? text.toList = some kind)
    (htag : kind.isCollectionTag = true) : text ∈ ["DC", "RDC", "SDC", "SRDC"] := by
  rcases kindOf?_cases h with h | ⟨-, rfl⟩ | ⟨-, rfl⟩ | ⟨-, rfl⟩ | ⟨-, rfl⟩ | ⟨-, rfl⟩
  · rcases reserved?_cases h with ⟨word, hmem, hword⟩ | ⟨word, hmem, -⟩
    · have hall : ∀ entry ∈ exactWords, entry.2.isCollectionTag = true →
          entry.1 ∈ ["DC", "RDC", "SDC", "SRDC"] := by decide
      rw [String.toList_inj.1 hword]
      exact hall _ hmem htag
    · have hall : ∀ entry ∈ foldedWords, entry.2.isCollectionTag = false := by decide
      exact absurd htag (Bool.eq_false_iff.1 (hall _ hmem))
  all_goals cases htag

theorem kindOf?_of_tag {text : String} (h : text ∈ ["DC", "RDC", "SDC", "SRDC"]) :
    ∃ kind ∈ [Kind.dc, .rdc, .sdc, .srdc], kindOf? text.toList = some kind := by
  simp only [List.mem_cons, List.not_mem_nil, or_false] at h
  rcases h with rfl | rfl | rfl | rfl
  · exact ⟨.dc, by decide, by decide⟩
  · exact ⟨.rdc, by decide, by decide⟩
  · exact ⟨.sdc, by decide, by decide⟩
  · exact ⟨.srdc, by decide, by decide⟩

/-! ## Characters of words -/

/-- The characters that no word holds: separators, the double quote and the openers of line
comments. -/
def specials : List Char := [' ', '(', ')', '\n', '\r', '\t', '"', '#', ';']

/-- Whether the character may stand in a word. -/
def isWordChar (c : Char) : Bool :=
  c ∉ specials

theorem isWordChar_of {p : Char → Bool} (hp : specials.all (!p ·) = true) {c : Char}
    (hc : p c = true) : isWordChar c = true := by
  refine decide_eq_true fun hmem => ?_
  have := List.all_eq_true.1 hp c hmem
  simp [hc] at this

theorem isWordChar_of_isLetter {c : Char} (h : isLetter c = true) : isWordChar c = true :=
  isWordChar_of (by decide) h

theorem isWordChar_of_isDecimalDigit {c : Char} (h : isDecimalDigit c = true) :
    isWordChar c = true :=
  isWordChar_of (by decide) h

theorem not_isSeparator {c : Char} (h : isWordChar c = true) : isSeparator c = false := by
  have hmem : c ∉ specials := of_decide_eq_true h
  simp only [specials, List.mem_cons, List.not_mem_nil, or_false, not_or] at hmem
  simp [isSeparator, hmem]

theorem not_opensLineComment {c : Char} (h : isWordChar c = true) :
    opensLineComment c = false := by
  have hmem : c ∉ specials := of_decide_eq_true h
  simp only [specials, List.mem_cons, List.not_mem_nil, or_false, not_or] at hmem
  simp [opensLineComment, hmem]

theorem ne_quote {c : Char} (h : isWordChar c = true) : c ≠ '"' := by
  rintro rfl
  revert h
  decide

theorem all_isWordChar_of_reserved? {word : List Char} {kind : Kind}
    (h : reserved? word = some kind) : word.all isWordChar = true := by
  rcases reserved?_cases h with ⟨text, hmem, rfl⟩ | ⟨text, hmem, hfold⟩
  · have hall : ∀ entry ∈ exactWords, entry.1.toList.all isWordChar = true := by decide
    exact hall _ hmem
  · -- What folds to a small letter is a letter.
    have hall : ∀ entry ∈ foldedWords,
        (entry.1.toList.all fun c => 97 ≤ c.toNat && c.toNat ≤ 122) = true := by decide
    refine List.all_eq_true.2 fun c hc => isWordChar_of_isLetter ?_
    have hsmall := List.all_eq_true.1 (hall _ hmem) (fold c) (hfold ▸ List.mem_map_of_mem hc)
    simp only [isLetter, Bool.and_eq_true, decide_eq_true_eq] at hsmall ⊢
    exact hsmall

theorem all_isWordChar_of_isOperator {word : List Char} (h : isOperator word = true) :
    word.all isWordChar = true := by
  simp only [isOperator, List.any_cons, List.any_nil, Bool.or_false, Bool.or_eq_true,
    isExactly, decide_eq_true_eq] at h
  rcases h with rfl | rfl | rfl | rfl | rfl | rfl | rfl <;> decide

theorem all_isWordChar_of_unsigned {word : List Char}
    (h : (unsigned word).all isWordChar = true) : word.all isWordChar = true := by
  unfold unsigned at h
  split at h
  · rw [List.all_cons, h]
    decide
  · exact h

theorem all_isWordChar_of_isExponent {word : List Char} (h : isExponent word = true) :
    word.all isWordChar = true := by
  have digits {cs : List Char} (h : cs.all isDecimalDigit = true) :
      cs.all isWordChar = true :=
    List.all_eq_true.2 fun c hc => isWordChar_of_isDecimalDigit (List.all_eq_true.1 h c hc)
  cases word with
  | nil => rfl
  | cons e rest =>
    simp only [isExponent, Bool.and_eq_true, Bool.or_eq_true, decide_eq_true_eq] at h
    obtain ⟨⟨he, -⟩, hdigits⟩ := h
    have he : isWordChar e = true := by
      rcases he with rfl | rfl <;> decide
    rw [List.all_cons, he, Bool.true_and]
    split at hdigits
    · rw [List.all_cons, digits hdigits]
      decide
    · rw [List.all_cons, digits hdigits]
      decide
    · exact digits hdigits

theorem all_isWordChar_takeWhile (word : List Char) :
    (word.takeWhile isDecimalDigit).all isWordChar = true :=
  List.all_eq_true.2 fun c hc =>
    isWordChar_of_isDecimalDigit (List.all_eq_true.1 List.all_takeWhile c hc)

theorem all_isWordChar_of_isFloat {word : List Char} (h : isFloat word = true) :
    word.all isWordChar = true := by
  refine all_isWordChar_of_unsigned ?_
  rw [isFloat] at h
  generalize unsigned word = word at *
  unfold isUnsignedFloat at h
  split at h
  · rename_i rest hrest
    simp only [Bool.and_eq_true] at h
    rw [← List.takeWhile_append_dropWhile (p := isDecimalDigit) (l := word), hrest,
      ← List.takeWhile_append_dropWhile (p := isDecimalDigit) (l := rest)]
    simp only [List.all_append, List.all_cons, all_isWordChar_takeWhile,
      all_isWordChar_of_isExponent h.2]
    decide
  · cases h

theorem all_isWordChar_of_isInt {word : List Char} (h : isInt word = true) :
    word.all isWordChar = true := by
  refine all_isWordChar_of_unsigned (List.all_eq_true.2 fun c hc => ?_)
  simp only [isInt, Bool.and_eq_true] at h
  exact isWordChar_of_isDecimalDigit
    (isDecimalDigit_of_isAsciiDigit (List.all_eq_true.1 h.2 c hc))

theorem all_isWordChar_of_isName {word : List Char} (h : isName word = true) :
    word.all isWordChar = true := by
  cases word with
  | nil => cases h
  | cons c rest =>
    simp only [isName, Bool.and_eq_true] at h
    rw [List.all_cons, isWordChar_of_isLetter h.1, Bool.true_and]
    refine List.all_eq_true.2 fun d hd => ?_
    exact isWordChar_of (by decide) (List.all_eq_true.1 h.2 d hd)

theorem all_isWordChar_of_isQuotedName {word : List Char} (h : isQuotedName word = true) :
    word.all isWordChar = true := by
  unfold isQuotedName at h
  split at h
  · rw [List.all_cons, all_isWordChar_of_isName h]
    decide
  · cases h

theorem isWordChar_of_kindOf? {word : List Char} {kind : Kind} (h : kindOf? word = some kind) :
    word.all isWordChar = true := by
  rcases kindOf?_cases h with h | ⟨h, -⟩ | ⟨h, -⟩ | ⟨h, -⟩ | ⟨h, -⟩ | ⟨h, -⟩
  · exact all_isWordChar_of_reserved? h
  · exact all_isWordChar_of_isOperator h
  · exact all_isWordChar_of_isFloat h
  · exact all_isWordChar_of_isInt h
  · exact all_isWordChar_of_isName h
  · exact all_isWordChar_of_isQuotedName h

theorem ne_nil_of_kindOf? {word : List Char} {kind : Kind} (h : kindOf? word = some kind) :
    word ≠ [] := by
  rintro rfl
  revert h
  simp [show kindOf? [] = none by decide]

/-! ## Printed integers -/

theorem unsigned_toDigits (n : Nat) : unsigned (Nat.toDigits 10 n) = Nat.toDigits 10 n := by
  obtain ⟨c, cs, h⟩ := Numeral.exists_toDigits_cons n
  obtain ⟨hminus, -⟩ := Numeral.not_sign_of_toDigits h
  rw [h]
  simp [unsigned, hminus]

/-- A printed integer is digits behind a possible sign. -/
theorem unsigned_toString (i : Int) :
    ∃ n : Nat, unsigned (toString i).toList = Nat.toDigits 10 n := by
  rcases Numeral.toString_cases i with ⟨n, -, htext⟩ | ⟨n, -, -, htext⟩
  · exact ⟨n, by rw [htext, unsigned_toDigits]⟩
  · exact ⟨n, by rw [htext, unsigned]⟩

/-- Whether the word starts with a minus sign or a digit. -/
def startsNumber : List Char → Bool
  | [] => false
  | c :: _ => c = '-' || isAsciiDigit c

theorem startsNumber_toString (i : Int) : startsNumber (toString i).toList = true := by
  rcases Numeral.toString_cases i with ⟨n, -, htext⟩ | ⟨n, -, -, htext⟩
  · obtain ⟨c, cs, h⟩ := Numeral.exists_toDigits_cons n
    have hc : isAsciiDigit c = true :=
      Numeral.isAsciiDigit_of_mem_toDigits (h ▸ List.mem_cons_self)
    rw [htext, h, startsNumber, hc, Bool.or_true]
  · rw [htext]
    rfl

theorem fold_of_startsNumber {c : Char} {rest : List Char}
    (h : startsNumber (c :: rest) = true) : fold c = c := by
  have hlow : c.toNat ≤ 57 := by
    simp only [startsNumber, isAsciiDigit, Bool.or_eq_true, Bool.and_eq_true,
      decide_eq_true_eq] at h
    rcases h with rfl | h
    · decide
    · exact h.2
  have hcapital : ¬ 'A' ≤ c := fun h => by
    have : 65 ≤ c.toNat := h
    omega
  simp only [fold, hcapital, decide_false, Bool.false_and, Bool.false_eq_true, if_false]
  split
  · subst c
    revert hlow
    decide
  split
  · subst c
    revert hlow
    decide
  · rfl

theorem reserved?_of_startsNumber {word : List Char} (h : startsNumber word = true) :
    reserved? word = none := by
  cases hreserved : reserved? word with
  | none => rfl
  | some kind =>
    rcases reserved?_cases hreserved with ⟨text, hmem, rfl⟩ | ⟨text, hmem, hfold⟩
    · have hall : ∀ entry ∈ exactWords, startsNumber entry.1.toList = false := by decide
      exact absurd h (Bool.eq_false_iff.1 (hall _ hmem))
    · have hall : ∀ entry ∈ foldedWords, startsNumber entry.1.toList = false := by decide
      refine absurd ?_ (Bool.eq_false_iff.1 (hall _ hmem))
      rw [← hfold]
      cases word with
      | nil => cases h
      | cons c rest =>
        rw [List.map_cons, fold_of_startsNumber h]
        exact h

theorem not_isOperator_of_startsNumber {word : List Char} (h : startsNumber word = true) :
    isOperator word = false := by
  refine Bool.eq_false_iff.2 fun hoperator => ?_
  simp only [isOperator, List.any_cons, List.any_nil, Bool.or_false, Bool.or_eq_true,
    isExactly, decide_eq_true_eq] at hoperator
  rcases hoperator with rfl | rfl | rfl | rfl | rfl | rfl | rfl <;> revert h <;> decide

theorem not_isFloat_toString (i : Int) : isFloat (toString i).toList = false := by
  obtain ⟨n, hn⟩ := unsigned_toString i
  have hdigits : (Nat.toDigits 10 n).dropWhile isDecimalDigit = [] :=
    List.dropWhile_eq_nil_iff.2 fun _ hc =>
      isDecimalDigit_of_isAsciiDigit (Numeral.isAsciiDigit_of_mem_toDigits hc)
  rw [isFloat, hn, isUnsignedFloat, hdigits]

theorem isInt_toString (i : Int) : isInt (toString i).toList = true := by
  obtain ⟨n, hn⟩ := unsigned_toString i
  have hall : (Nat.toDigits 10 n).all isAsciiDigit = true :=
    List.all_eq_true.2 fun c => Numeral.isAsciiDigit_of_mem_toDigits
  rw [isInt, hn, hall, Bool.and_true]
  simp [Nat.toDigits_ne_nil]

/-- A printed integer is a whole number. -/
theorem kindOf?_toString (i : Int) : kindOf? (toString i).toList = some .int := by
  have hstart := startsNumber_toString i
  rw [kindOf?, reserved?_of_startsNumber hstart]
  simp only [not_isOperator_of_startsNumber hstart, not_isFloat_toString, isInt_toString,
    Bool.false_eq_true, if_false, if_true]

end SlipStack.Lap.Word
