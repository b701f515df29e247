import SlipStack.Proofs.Lap.Lexemes

/-!
# Nothing is lost in lexing

A source without its line comments is its lines, each cut where a comment opens (`cutLines`). It
is also the row of its pieces, and what a lexer reports of it are the tokens and the illegal
characters among them (`Lossless`). The lines that are reported are lines of the source: no line
end is cut away, so up to any place there are as many of them with the comments as without
(`Reads.count`).
-/

namespace SlipStack.Lap

/-! ## Line comments -/

/-- The text of a line in front of its comment. -/
def cutLine (line : List Char) : List Char :=
  line.takeWhile (!opensLineComment ·)

/-- The text with each of its lines cut in front of its comment. -/
def cutLines (cs : List Char) : List Char :=
  ['\n'].intercalate ((cs.splitOn '\n').map cutLine)

/-- The text behind a comment goes on with the next line. -/
theorem stripComments_of_splitOn {cs line : List Char} {lines : List (List Char)}
    (h : cs.splitOn '\n' = line :: lines) :
    stripComments cs = ['\n'].intercalate (cutLine line :: lines.map cutLine) ∧
      stripRestOfLine cs = ['\n'].intercalate ([] :: lines.map cutLine) := by
  induction cs generalizing line lines with
  | nil =>
    obtain ⟨rfl, rfl⟩ := List.cons.inj h
    exact ⟨rfl, rfl⟩
  | cons c cs ih =>
    obtain ⟨next, others, hcs⟩ := List.exists_cons_of_ne_nil (List.splitOn_ne_nil '\n' cs)
    obtain ⟨hstrip, hrest⟩ := ih hcs
    -- A line end closes the line; any other character stands in front of the first line.
    rw [List.splitOn_cons_eq_if_modifyHead, hcs] at h
    by_cases hend : c = '\n'
    · subst hend
      rw [if_pos (by decide)] at h
      obtain ⟨rfl, rfl⟩ := List.cons.inj h
      have hline : stripComments ('\n' :: cs) =
          ['\n'].intercalate ([] :: (next :: others).map cutLine) := by
        rw [stripComments_cons (by decide), hstrip]
        simp [List.intercalate_cons_cons]
      refine ⟨hline, ?_⟩
      rw [stripRestOfLine, if_pos rfl, ← hline, stripComments_cons (by decide)]
    · rw [if_neg (by simpa using hend)] at h
      obtain ⟨rfl, rfl⟩ := List.cons.inj h
      constructor
      · rw [stripComments, cutLine, List.takeWhile_cons]
        cases hc : opensLineComment c
        · simpa [cutLine] using hstrip
        · simpa using hrest
      · rw [stripRestOfLine, if_neg hend, hrest]

/-- Removing comments is cutting each line at its first comment sign, which leaves the line
breaks. -/
theorem stripComments_eq_cutLines (cs : List Char) : stripComments cs = cutLines cs := by
  obtain ⟨line, lines, hcs⟩ := List.exists_cons_of_ne_nil (List.splitOn_ne_nil '\n' cs)
  rw [cutLines, hcs]
  exact (stripComments_of_splitOn hcs).1

/-- Removing comments removes no line break, so lines can be counted in what is left. -/
theorem count_stripComments (cs : List Char) :
    (stripComments cs).count '\n' = cs.count '\n' ∧
      (stripRestOfLine cs).count '\n' = cs.count '\n' := by
  induction cs with
  | nil => exact ⟨rfl, rfl⟩
  | cons c cs ih =>
    obtain ⟨hstrip, hrest⟩ := ih
    constructor
    · rw [stripComments]
      split
      · rename_i hc
        have hne : c ≠ '\n' := by
          intro heq
          subst heq
          cases hc
        rw [hrest, List.count_cons_of_ne hne]
      · rw [List.count_cons, List.count_cons, hstrip]
    · rw [stripRestOfLine]
      split
      · rw [List.count_cons, List.count_cons, hstrip]
      · rename_i hne
        rw [hrest, List.count_cons_of_ne hne]

/-! ## Places in the source -/

/-- This much has been read of the source, comments and all, when the text in front of a place is
this one. -/
structure Reads (source read passed : List Char) : Prop where
  start : read <+: source
  passed : cutLines read = passed

theorem Reads.count {source read passed : List Char} (h : Reads source read passed) :
    read.count '\n' = passed.count '\n' := by
  rw [← h.passed, ← stripComments_eq_cutLines, (count_stripComments read).1]

/-- What is in front of a place without comments was read from the source up to there. -/
theorem exists_start {source passed rest : List Char} :
    (stripComments source = passed ++ rest →
        ∃ read, read <+: source ∧ stripComments read = passed) ∧
      (stripRestOfLine source = passed ++ rest →
        ∃ read, read <+: source ∧ stripRestOfLine read = passed) := by
  induction source generalizing passed with
  | nil =>
    constructor
    all_goals
      intro h
      have hnil : passed = [] := (List.append_eq_nil_iff.1 h.symm).1
      exact ⟨[], List.nil_prefix, hnil.symm⟩
  | cons c source ih =>
    have hgrow : ∀ {read : List Char}, read <+: source → c :: read <+: c :: source :=
      fun hread => List.cons_prefix_cons.2 ⟨rfl, hread⟩
    -- A character that stays, be it in front of a comment or at its end.
    have hkept : c :: stripComments source = passed ++ rest →
        passed = [] ∨ ∃ read, read <+: source ∧ passed = c :: stripComments read := by
      intro h
      cases passed with
      | nil => exact .inl rfl
      | cons d passed =>
        obtain ⟨rfl, hrest⟩ := List.cons.inj h
        obtain ⟨read, hread, rfl⟩ := ih.1 hrest
        exact .inr ⟨read, hread, rfl⟩
    constructor
    · intro h
      rw [stripComments] at h
      split at h
      · rename_i hc
        obtain ⟨read, hread, rfl⟩ := ih.2 h
        exact ⟨c :: read, hgrow hread, by rw [stripComments, if_pos hc]⟩
      · rename_i hc
        obtain rfl | ⟨read, hread, rfl⟩ := hkept h
        · exact ⟨[], List.nil_prefix, rfl⟩
        · exact ⟨c :: read, hgrow hread, by rw [stripComments, if_neg hc]⟩
    · intro h
      rw [stripRestOfLine] at h
      split at h
      · rename_i hc
        obtain rfl | ⟨read, hread, rfl⟩ := hkept h
        · exact ⟨[], List.nil_prefix, rfl⟩
        · exact ⟨c :: read, hgrow hread, by rw [stripRestOfLine, if_pos hc]⟩
      · rename_i hc
        obtain ⟨read, hread, rfl⟩ := ih.2 h
        exact ⟨c :: read, hgrow hread, by rw [stripRestOfLine, if_neg hc]⟩

/-! ## Lexing -/

/-- The tokens and the errors are the pieces of the source, all of them, in order, and on the
lines on which they stand. -/
structure Lossless (source : List Char) (tokens : List Token) (errors : List LexError)
    (pieces : List Piece) : Prop where
  text : pieces.flatMap Piece.chars = cutLines source
  lexemes : lexemes tokens = pieces.filterMap Piece.lexeme?
  illegal : errors.map (·.char) = pieces.filterMap Piece.illegal?
  fits : ∀ before piece after, pieces = before ++ piece :: after →
    piece.Fits (after.flatMap Piece.chars)
  reads : ∀ before after, pieces = before ++ after →
    ∃ read, Reads source read (before.flatMap Piece.chars)
  /-- A token has the line on which it ends. -/
  token_line : ∀ before kind chars after read, pieces = before ++ .token kind chars :: after →
    Reads source read (before.flatMap Piece.chars ++ chars) →
    ∃ earlier later,
      tokens = earlier ++ ⟨kind, String.ofList chars, 1 + read.count '\n'⟩ :: later ∧
        Lap.lexemes earlier = before.filterMap Piece.lexeme?
  error_line : ∀ before c after read, pieces = before ++ .illegal c :: after →
    Reads source read (before.flatMap Piece.chars) →
    ∃ earlier later, errors = earlier ++ ⟨1 + read.count '\n', c⟩ :: later ∧
      earlier.map (·.char) = before.filterMap Piece.illegal?

/-- The pieces of a text account for all of it, with tokens, gaps and illegal characters in their
order and on their lines. -/
theorem lossless (source : String) :
    Lossless source.toList (tokenize source).1 (tokenize source).2
      (Piece.pieces (stripComments source.toList)) where
  text := by rw [Piece.chars_pieces, stripComments_eq_cutLines]
  lexemes := lexemes_tokenize source
  illegal := chars_tokenize source
  fits := (Piece.pieces_eq_iff.1 rfl).2
  reads := by
    intro before after hpieces
    have htext := Piece.chars_pieces (stripComments source.toList)
    rw [hpieces, List.flatMap_append] at htext
    obtain ⟨read, hstart, hpassed⟩ := exists_start.1 htext.symm
    exact ⟨read, hstart, (stripComments_eq_cutLines read).symm.trans hpassed⟩
  token_line := by
    intro before kind chars after read hpieces hreads
    have hcount := hreads.count
    rw [List.count_append] at hcount
    rw [tokenize_eq, hpieces, hcount, ← Nat.add_assoc]
    exact ⟨_, _, Piece.reports_append 1 before _, Piece.lexemes_reports 1 before⟩
  error_line := by
    intro before c after read hpieces hreads
    rw [tokenize_eq, hpieces, hreads.count]
    exact ⟨_, _, Piece.reports_append 1 before _, Piece.chars_reports 1 before⟩

/-- Lexing comes to the end of every source and loses nothing of it. -/
theorem tokenize_lossless (source : String) :
    (∃ pieces, Lossless source.toList (tokenize source).1 (tokenize source).2 pieces) ∧
      (cutLines source.toList).count '\n' = source.toList.count '\n' ∧
      (Lexer.ofSource source).all.2.rest = [] ∧
      (Lexer.ofSource source).all.2.line = 1 + source.toList.count '\n' := by
  refine ⟨⟨_, lossless source⟩, ?_, ?_, ?_⟩
  · rw [← stripComments_eq_cutLines, (count_stripComments _).1]
  · rw [Lexer.ofSource, Lexer.all_eq]
  · rw [Lexer.ofSource, Lexer.all_eq, (count_stripComments _).1]

/-- The quoted text runs over a line end, so it ends on the line of the character behind it. -/
example :
    tokenize "go ;to\n\"a ?\n(\" ?up" =
      ([⟨.name, "go", 1⟩, ⟨.comment, "\"a ?\n(\"", 3⟩, ⟨.name, "up", 3⟩], [⟨3, '?'⟩]) := by
  decide +kernel

end SlipStack.Lap
