import SlipStack.Proofs.Lap.Grammar
import SlipStack.Proofs.Lap.Pieces

/-!
# The lexemes of a text

`lexemesOf` gives the lexemes of a text at once, without a lexer and without lines. Its
equations take a text apart from the front: white space has no lexeme, a parenthesis is one,
and so is a word in front of a separator, or a quoted text. The rest of the text is always
lexed for itself.

The other direction is `genuine_of_mem_lexemesOf`: the text of a lexeme is of its kind.
-/

namespace SlipStack.Lap

/-! ## From tokens and from pieces -/

/-- The lexeme of a piece of text, unless the piece is passed over. -/
def Piece.lexeme? : Piece → Option Lexeme
  | .token kind chars => some ⟨kind, String.ofList chars⟩
  | _ => none

/-- The character of a piece of text that is illegal. -/
def Piece.illegal? : Piece → Option Char
  | .illegal c => some c
  | _ => none

theorem Piece.lexemes_reports (line : Nat) (pieces : List Piece) :
    lexemes (reports token? line pieces) = pieces.filterMap lexeme? := by
  refine map_reports ?_ line pieces
  intro line piece
  cases piece <;> rfl

theorem Piece.chars_reports (line : Nat) (pieces : List Piece) :
    (reports error? line pieces).map (·.char) = pieces.filterMap illegal? := by
  refine map_reports ?_ line pieces
  intro line piece
  cases piece <;> rfl

/-- The lexemes of a text. -/
def lexemesOf (cs : List Char) : List Lexeme :=
  (Piece.pieces (stripComments cs)).filterMap Piece.lexeme?

/-- The lexemes of a text, which tokens are without their lines, can be read off the text alone.
-/
theorem lexemes_tokenize (source : String) :
    lexemes (tokenize source).1 = lexemesOf source.toList := by
  rw [tokenize_eq]
  exact Piece.lexemes_reports 1 _

theorem chars_tokenize (source : String) :
    (tokenize source).2.map (·.char) =
      (Piece.pieces (stripComments source.toList)).filterMap Piece.illegal? := by
  rw [tokenize_eq]
  exact Piece.chars_reports 1 _

/-! ## Taking a text apart -/

/-- The lexemes of a text are that of its first piece, if it is a token, and those of the rest.
All computations with canonical text go by this. -/
theorem lexemesOf_of_cut? {cs rest : List Char} {piece : Piece}
    (h : Piece.cut? (stripComments cs) = some (piece, stripComments rest)) :
    lexemesOf cs = piece.lexeme?.toList ++ lexemesOf rest := by
  rw [lexemesOf, Piece.pieces_of_cut? h]
  cases piece <;> rfl

theorem lexemesOf_nil : lexemesOf [] = [] := by
  rw [lexemesOf, stripComments, Piece.pieces_of_cut?_none rfl, List.filterMap_nil]

theorem stripComments_cons {c : Char} (hc : opensLineComment c = false) (rest : List Char) :
    stripComments (c :: rest) = c :: stripComments rest := by
  rw [stripComments, hc]
  rfl

/-- Text that opens no comment stays as it is, and what follows it is treated as if it stood
alone. -/
theorem stripComments_append {cs : List Char} (h : ∀ c ∈ cs, opensLineComment c = false)
    (rest : List Char) : stripComments (cs ++ rest) = cs ++ stripComments rest := by
  induction cs with
  | nil => rfl
  | cons c cs ih =>
    obtain ⟨hc, hcs⟩ := List.forall_mem_cons.1 h
    rw [List.cons_append, stripComments_cons hc, ih hcs, List.cons_append]

theorem not_opensLineComment_of_isSeparator {c : Char} (hc : isSeparator c = true) :
    opensLineComment c = false := by
  simp only [isSeparator, Bool.or_eq_true, decide_eq_true_eq] at hc
  rcases hc with ((((rfl | rfl) | rfl) | rfl) | rfl) | rfl <;> decide

theorem lexemesOf_separator {c : Char} (hc : isSeparator c = true) (rest : List Char) :
    lexemesOf (c :: rest) = (Piece.ofSeparator c).lexeme?.toList ++ lexemesOf rest := by
  refine lexemesOf_of_cut? ?_
  rw [stripComments_cons (not_opensLineComment_of_isSeparator hc), Piece.cut?_separator hc]

@[simp]
theorem lexemesOf_space (rest : List Char) : lexemesOf (' ' :: rest) = lexemesOf rest :=
  lexemesOf_separator rfl rest

@[simp]
theorem lexemesOf_newline (rest : List Char) : lexemesOf ('\n' :: rest) = lexemesOf rest :=
  lexemesOf_separator rfl rest

@[simp]
theorem lexemesOf_leftParen (rest : List Char) :
    lexemesOf ('(' :: rest) = ⟨.leftParen, "("⟩ :: lexemesOf rest :=
  lexemesOf_separator rfl rest

@[simp]
theorem lexemesOf_rightParen (rest : List Char) :
    lexemesOf (')' :: rest) = ⟨.rightParen, ")"⟩ :: lexemesOf rest :=
  lexemesOf_separator rfl rest

theorem breaks_stripComments {rest : List Char} (h : Breaks rest = true) :
    Breaks (stripComments rest) = true := by
  cases rest with
  | nil => rfl
  | cons c rest =>
    rw [stripComments_cons (not_opensLineComment_of_isSeparator h)]
    exact h

/-- A word in front of a separator. -/
theorem lexemesOf_word {word rest : List Char} {kind : Kind}
    (h : Word.kindOf? word = some kind) (hrest : Breaks rest = true) :
    lexemesOf (word ++ rest) = ⟨kind, String.ofList word⟩ :: lexemesOf rest := by
  have hchars := List.all_eq_true.1 (Word.isWordChar_of_kindOf? h)
  change _ = (Piece.token kind word).lexeme?.toList ++ _
  refine lexemesOf_of_cut? ?_
  rw [stripComments_append fun c hc => Word.not_opensLineComment (hchars c hc),
    Piece.cut?_word h (breaks_stripComments hrest)]

/-- Whether the character may stand between double quotes. -/
def isTextChar (c : Char) : Bool :=
  c ≠ '"' && !opensLineComment c

/-- A quoted text. -/
theorem lexemesOf_quoted {inner : List Char} (h : ∀ c ∈ inner, isTextChar c = true)
    (rest : List Char) :
    lexemesOf ('"' :: inner ++ '"' :: rest) =
      ⟨.comment, String.ofList ('"' :: inner ++ ['"'])⟩ :: lexemesOf rest := by
  simp only [isTextChar, Bool.and_eq_true, decide_eq_true_eq, Bool.not_eq_true'] at h
  have hinner : '"' ∉ inner := fun hmem => (h _ hmem).1 rfl
  change _ = (Piece.token .comment ('"' :: inner ++ ['"'])).lexeme?.toList ++ _
  refine lexemesOf_of_cut? ?_
  have hquote : opensLineComment '"' = false := by decide
  rw [List.cons_append, stripComments_cons hquote, stripComments_append fun c hc => (h c hc).2,
    stripComments_cons hquote]
  refine Piece.cut?_eq_some.2 ⟨?_, inner, rfl, hinner⟩
  simp [Piece.chars]

/-! ## What lexemes there are -/

/-- The text of the lexeme is of its kind. -/
def Lexeme.Genuine (l : Lexeme) : Prop :=
  match l.kind with
  | .leftParen => l.text = "("
  | .rightParen => l.text = ")"
  | .comment => ∃ inner : List Char, l.text = String.ofList ('"' :: inner ++ ['"']) ∧
      ∀ c ∈ inner, isTextChar c = true
  | kind => Word.kindOf? l.text.toList = some kind

theorem not_opensLineComment_stripComments (cs : List Char) :
    (∀ c ∈ stripComments cs, opensLineComment c = false) ∧
      ∀ c ∈ stripRestOfLine cs, opensLineComment c = false := by
  induction cs with
  | nil => simp [stripComments, stripRestOfLine]
  | cons c cs ih =>
    constructor
    · rw [stripComments]
      split
      · exact ih.2
      · rename_i hc
        exact List.forall_mem_cons.2 ⟨Bool.eq_false_iff.2 hc, ih.1⟩
    · rw [stripRestOfLine]
      split
      · rename_i hc
        subst hc
        exact List.forall_mem_cons.2 ⟨by decide, ih.1⟩
      · exact ih.2

theorem genuine_of_fits {kind : Kind} {chars rest : List Char}
    (h : (Piece.token kind chars).Fits rest) (hchars : ∀ c ∈ chars, opensLineComment c = false) :
    Lexeme.Genuine ⟨kind, String.ofList chars⟩ := by
  cases kind with
  | leftParen | rightParen => exact congrArg String.ofList h
  | comment =>
    obtain ⟨inner, rfl, hinner⟩ := h
    refine ⟨inner, rfl, fun c hc => ?_⟩
    have hne : c ≠ '"' := fun heq => hinner (heq ▸ hc)
    simp [isTextChar, hne, hchars c (by simp [hc])]
  | _ => exact (congrArg Word.kindOf? String.toList_ofList).trans h.1

/-- Every lexeme of a text is genuine: it is classified as what it is, and no comment starts in
it. -/
theorem genuine_of_mem_lexemesOf {cs : List Char} {l : Lexeme} (h : l ∈ lexemesOf cs) :
    l.Genuine := by
  obtain ⟨piece, hpiece, hl⟩ := List.mem_filterMap.1 h
  cases piece with
  | blank | illegal => cases hl
  | token kind chars =>
    obtain rfl := Option.some.inj hl
    obtain ⟨before, after, hsplit⟩ := List.append_of_mem hpiece
    refine genuine_of_fits (Piece.fits_of_pieces_eq hsplit) fun c hc => ?_
    refine (not_opensLineComment_stripComments cs).1 c ?_
    rw [← Piece.chars_pieces (stripComments cs)]
    exact List.mem_flatMap_of_mem hpiece hc

end SlipStack.Lap
