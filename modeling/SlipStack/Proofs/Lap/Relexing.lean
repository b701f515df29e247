import SlipStack.Proofs.Lap.Lexemes

/-!
# Lexing the texts of tokens again

The text of a lexeme, alone or in front of a separator, is a piece of the lexeme's kind
(`Lexeme.Genuine.fits`), whatever stood around it before. So lexemes that are written with a
blank between each two are cut into just these lexemes and blanks (`pieces_joined`).
-/

namespace SlipStack.Lap

/-- The piece of text that a lexeme is. -/
def Lexeme.piece (l : Lexeme) : Piece :=
  .token l.kind l.text.toList

@[simp]
theorem Lexeme.lexeme?_piece (l : Lexeme) : l.piece.lexeme? = some l := by
  simp [piece, Piece.lexeme?]

/-- A genuine lexeme fits whatever starts with a break, as a blank does. -/
theorem Lexeme.Genuine.fits {l : Lexeme} (h : l.Genuine) {rest : List Char}
    (hrest : Breaks rest = true) : l.piece.Fits rest := by
  obtain ⟨kind, text⟩ := l
  cases kind with
  | leftParen | rightParen => exact congrArg String.toList h
  | comment =>
    obtain ⟨inner, htext, hinner⟩ := h
    refine ⟨inner, ?_, fun hquote => absurd (hinner _ hquote) (by decide)⟩
    exact (congrArg String.toList htext).trans String.toList_ofList
  | _ => exact Piece.fits_word h hrest

/-- No text of a lexeme opens a line comment. -/
theorem Lexeme.Genuine.not_opensLineComment {l : Lexeme} (h : l.Genuine) :
    ∀ c ∈ l.text.toList, opensLineComment c = false := by
  obtain ⟨kind, text⟩ := l
  cases kind with
  | leftParen | rightParen =>
    obtain rfl : text = _ := h
    exact List.forall_mem_singleton.2 rfl
  | comment =>
    obtain ⟨inner, htext, hinner⟩ := h
    obtain rfl : text = _ := htext
    simp only [String.toList_ofList, List.mem_append, List.mem_cons, List.not_mem_nil, or_false]
    intro c hc
    obtain (rfl | hc) | rfl := hc
    · rfl
    · have hplain := hinner c hc
      simp only [isTextChar, Bool.and_eq_true, Bool.not_eq_true'] at hplain
      exact hplain.2
    · rfl
  | _ =>
    intro c hc
    exact Word.not_opensLineComment (List.all_eq_true.1 (Word.isWordChar_of_kindOf? h) c hc)

/-- The texts of the lexemes with a blank between each two. -/
def joined (ls : List Lexeme) : List Char :=
  [' '].intercalate (ls.map (·.text.toList))

theorem joined_cons_cons (l l' : Lexeme) (ls : List Lexeme) :
    joined (l :: l' :: ls) = l.text.toList ++ ' ' :: joined (l' :: ls) := by
  simp [joined, List.intercalate_cons_cons]

variable {ls : List Lexeme}

/-- Genuine lexemes joined by blanks contain no comment. -/
theorem stripComments_joined (h : ∀ l ∈ ls, l.Genuine) : stripComments (joined ls) = joined ls := by
  induction ls with
  | nil => rfl
  | cons l ls ih =>
    obtain ⟨hl, hls⟩ := List.forall_mem_cons.1 h
    cases ls with
    | nil => simpa [joined, stripComments] using stripComments_append hl.not_opensLineComment []
    | cons l' ls =>
      rw [joined_cons_cons, stripComments_append hl.not_opensLineComment,
        stripComments_cons (by decide), ih hls]

/-- Genuine lexemes joined by blanks are cut where they were joined. -/
theorem pieces_joined (h : ∀ l ∈ ls, l.Genuine) :
    Piece.pieces (joined ls) = (ls.map Lexeme.piece).intersperse (.blank ' ') := by
  induction ls with
  | nil => exact Piece.pieces_of_cut?_none rfl
  | cons l ls ih =>
    obtain ⟨hl, hls⟩ := List.forall_mem_cons.1 h
    cases ls with
    | nil =>
      have hfirst : l.piece.Fits [] := hl.fits rfl
      have hnil : Piece.pieces [] = [] := Piece.pieces_of_cut?_none rfl
      simpa [hnil, joined, Lexeme.piece, Piece.chars] using Piece.pieces_of_fits hfirst
    | cons l' ls =>
      have hblank : (Piece.blank ' ').Fits (joined (l' :: ls)) := by simp [Piece.Fits]
      -- A word ends at the blank; the other lexemes do not look at it.
      have hfirst : l.piece.Fits (' ' :: joined (l' :: ls)) := hl.fits rfl
      calc Piece.pieces (joined (l :: l' :: ls))
          = Piece.pieces (l.piece.chars ++ ' ' :: joined (l' :: ls)) :=
          congrArg Piece.pieces (joined_cons_cons l l' ls)
        _ = l.piece :: Piece.pieces ((Piece.blank ' ').chars ++ joined (l' :: ls)) :=
          Piece.pieces_of_fits hfirst
        _ = l.piece :: .blank ' ' :: Piece.pieces (joined (l' :: ls)) := by
          rw [Piece.pieces_of_fits hblank]
        _ = ((l :: l' :: ls).map Lexeme.piece).intersperse (.blank ' ') := by rw [ih hls]; rfl

theorem filterMap_intersperse {α β : Type} {f : α → Option β} {separator : α}
    (h : f separator = none) (as : List α) :
    (as.intersperse separator).filterMap f = as.filterMap f := by
  induction as with
  | nil => rfl
  | cons a as ih =>
    cases as with
    | nil => rfl
    | cons b as =>
      rw [List.intersperse_cons_cons, List.filterMap_cons, List.filterMap_cons_none h, ih]
      rfl

/-- What is lexed once is lexed again just so from the texts of its tokens, and nothing in these
texts is illegal. -/
theorem relexing_stable (source : String) :
    let tokens := (tokenize source).1
    let again := tokenize (" ".intercalate (tokens.map (·.text)))
    again.2 = [] ∧ lexemes again.1 = lexemes tokens := by
  intro tokens again
  have hgenuine : ∀ l ∈ lexemes tokens, l.Genuine := by
    intro l hl
    rw [lexemes_tokenize] at hl
    exact genuine_of_mem_lexemesOf hl
  have htext : (" ".intercalate (tokens.map (·.text))).toList = joined (lexemes tokens) := by
    simp [joined, lexemes, Token.lexeme, Function.comp_def]
  have hpieces := pieces_joined hgenuine
  constructor
  · have hnone : again.2.map (·.char) = [] := by
      rw [chars_tokenize, htext, stripComments_joined hgenuine, hpieces,
        filterMap_intersperse rfl]
      simp [Lexeme.piece, Piece.illegal?]
    exact List.map_eq_nil_iff.1 hnone
  · rw [lexemes_tokenize, lexemesOf, htext, stripComments_joined hgenuine, hpieces,
      filterMap_intersperse rfl]
    simp

end SlipStack.Lap
