import SlipStack.Lap.Word

/-!
# Lexing plan text

Line comments, from `#` or `;` to the end of the line, are removed first, wherever they
stand. What is left is cut into pieces, one after the other (`Piece.cut?`):

1. a text in double quotes with no quote inside, which may run over several lines;
2. a separator: a blank, a tab, a line end or a parenthesis;
3. the run of characters up to the next separator, if all of it is a word
   (`Word.kindOf?`); otherwise its first character alone, which is illegal.

The pieces of a text joined together are the text (`Piece.chars_pieces`): nothing is lost.
A `Lexer` hands out the tokens among the pieces one at a time. It counts lines and collects
the illegal characters that it has passed.
-/

namespace SlipStack.Lap

/-- Whether the character is one that ends a word. -/
def isSeparator (c : Char) : Bool :=
  c = ' ' || c = '(' || c = ')' || c = '\n' || c = '\r' || c = '\t'

/-- Whether the character is the start of a line comment. -/
def opensLineComment (c : Char) : Bool :=
  c = '#' || c = ';'

mutual

/-- The text without its line comments; the line ends stay. -/
def stripComments : List Char → List Char
  | [] => []
  | c :: rest => if opensLineComment c then stripRestOfLine rest else c :: stripComments rest

/-- The text from the next line end on, without its line comments. -/
def stripRestOfLine : List Char → List Char
  | [] => []
  | c :: rest => if c = '\n' then c :: stripComments rest else stripRestOfLine rest

end

/-- A stretch of plan text. -/
inductive Piece where
  | token (kind : Kind) (chars : List Char)
  /-- A separator that is no token. -/
  | blank (char : Char)
  /-- A character at which no piece starts. -/
  | illegal (char : Char)
  deriving DecidableEq, Repr

namespace Piece

/-- The characters of a piece. -/
def chars : Piece → List Char
  | .token _ chars => chars
  | .blank c => [c]
  | .illegal c => [c]

/-- A text in double quotes at the start of the characters, and what follows it. -/
def quoted? : List Char → Option (List Char × List Char)
  | '"' :: rest =>
    match rest.dropWhile (· ≠ '"') with
    | '"' :: after => some ('"' :: rest.takeWhile (· ≠ '"') ++ ['"'], after)
    | _ => none
  | _ => none

/-- The first piece of a text that starts with a separator. -/
def ofSeparator (c : Char) : Piece :=
  if c = '(' then .token .leftParen [c]
  else if c = ')' then .token .rightParen [c]
  else .blank c

/-- The first piece of a text, and what follows it. -/
def cut? : List Char → Option (Piece × List Char)
  | [] => none
  | c :: rest =>
    match quoted? (c :: rest) with
    | some (chars, after) => some (.token .comment chars, after)
    | none =>
      if isSeparator c then some (ofSeparator c, rest)
      else
        let word := c :: rest.takeWhile (!isSeparator ·)
        match Word.kindOf? word with
        | some kind => some (.token kind word, rest.dropWhile (!isSeparator ·))
        | none => some (.illegal c, rest)

theorem chars_quoted? {cs chars rest : List Char} (h : quoted? cs = some (chars, rest)) :
    chars ++ rest = cs ∧ chars ≠ [] := by
  unfold quoted? at h
  split at h
  · rename_i tail
    split at h
    · rename_i after heq
      simp only [Option.some.injEq, Prod.mk.injEq] at h
      obtain ⟨rfl, rfl⟩ := h
      refine ⟨?_, by simp⟩
      have split := List.takeWhile_append_dropWhile (p := fun c => decide (c ≠ '"')) (l := tail)
      rw [heq] at split
      simpa [List.append_assoc] using split
    · simp at h
  · simp at h

@[simp]
theorem chars_ofSeparator (c : Char) : (ofSeparator c).chars = [c] := by
  unfold ofSeparator
  split
  · rfl
  · split <;> rfl

/-- Cutting loses nothing. -/
theorem chars_cut? {cs rest : List Char} {piece : Piece} (h : cut? cs = some (piece, rest)) :
    piece.chars ++ rest = cs ∧ piece.chars ≠ [] := by
  cases cs with
  | nil => simp [cut?] at h
  | cons c tail =>
    simp only [cut?] at h
    split at h
    · rename_i heq
      simp only [Option.some.injEq, Prod.mk.injEq] at h
      obtain ⟨rfl, rfl⟩ := h
      exact chars_quoted? heq
    · split at h
      · simp only [Option.some.injEq, Prod.mk.injEq] at h
        obtain ⟨rfl, rfl⟩ := h
        simp
      · split at h <;>
        · simp only [Option.some.injEq, Prod.mk.injEq] at h
          obtain ⟨rfl, rfl⟩ := h
          simp [chars]

theorem length_cut? {cs rest : List Char} {piece : Piece} (h : cut? cs = some (piece, rest)) :
    rest.length < cs.length := by
  obtain ⟨rfl, ne⟩ := chars_cut? h
  have := List.length_pos_iff.2 ne
  simp only [List.length_append]
  omega

theorem cut?_cons_ne_none (c : Char) (rest : List Char) : cut? (c :: rest) ≠ none := by
  simp only [cut?]
  split
  · simp
  · split
    · simp
    · split <;> simp

/-- All pieces of a text, in order. -/
def pieces (cs : List Char) : List Piece :=
  match _h : cut? cs with
  | none => []
  | some (piece, rest) => piece :: pieces rest
termination_by cs.length
decreasing_by exact length_cut? _h

theorem chars_pieces (cs : List Char) : (pieces cs).flatMap chars = cs := by
  fun_induction pieces cs with
  | case1 cs h =>
    cases cs with
    | nil => rfl
    | cons c rest => exact absurd h (cut?_cons_ne_none c rest)
  | case2 cs piece rest h ih =>
    rw [List.flatMap_cons, ih]
    exact (chars_cut? h).1

end Piece

/-- An illegal character and the line on which it stands. -/
structure LexError where
  line : Nat
  char : Char
  deriving DecidableEq, Repr

/-- The report of an illegal character. -/
def LexError.message (e : LexError) : String :=
  "Line " ++ toString e.line ++ ": illegal character '" ++ e.char.toString ++ "'"

/-- A position in a text. -/
structure Lexer where
  /-- What is still to be read, without line comments. -/
  rest : List Char
  /-- The line reached, counted from one. -/
  line : Nat
  /-- The illegal characters passed so far, latest first. -/
  passed : List LexError
  deriving Repr

namespace Lexer

/-- The start of a text. -/
def ofSource (source : String) : Lexer :=
  ⟨stripComments source.toList, 1, []⟩

/-- The illegal characters passed so far, in order. -/
def errors (lexer : Lexer) : List LexError :=
  lexer.passed.reverse

/-- The next token, if there is one, and the position behind it. Separators and illegal
characters in front of it are passed. -/
def next (lexer : Lexer) : Option Token × Lexer :=
  match _h : Piece.cut? lexer.rest with
  | none => (none, lexer)
  | some (.token kind chars, rest) =>
    -- A quoted comment ends on a later line if it holds line ends.
    let line := lexer.line + chars.count '\n'
    (some ⟨kind, String.ofList chars, line⟩, ⟨rest, line, lexer.passed⟩)
  | some (.blank c, rest) =>
    next ⟨rest, if c = '\n' then lexer.line + 1 else lexer.line, lexer.passed⟩
  | some (.illegal c, rest) =>
    next ⟨rest, lexer.line, ⟨lexer.line, c⟩ :: lexer.passed⟩
termination_by lexer.rest.length
decreasing_by all_goals exact Piece.length_cut? _h

theorem length_next {lexer after : Lexer} {token : Token}
    (h : lexer.next = (some token, after)) : after.rest.length < lexer.rest.length := by
  fun_induction next lexer with
  | case1 => simp at h
  | case2 lexer kind chars rest heq line =>
    simp only [Prod.mk.injEq] at h
    rw [← h.2]
    exact Piece.length_cut? heq
  | case3 lexer c rest heq ih => exact Nat.lt_trans (ih h) (Piece.length_cut? heq)
  | case4 lexer c rest heq ih => exact Nat.lt_trans (ih h) (Piece.length_cut? heq)

/-- All tokens that are left, and the position behind the last character. -/
def all (lexer : Lexer) : List Token × Lexer :=
  match _h : lexer.next with
  | (none, after) => ([], after)
  | (some token, after) =>
    let (tokens, done) := after.all
    (token :: tokens, done)
termination_by lexer.rest.length
decreasing_by exact length_next _h

/-- Passes tokens up to and including the first of the given kind. -/
def skipTo (kind : Kind) (lexer : Lexer) : Option Token × Lexer :=
  match _h : lexer.next with
  | (none, after) => (none, after)
  | (some token, after) =>
    if token.kind = kind then (some token, after) else skipTo kind after
termination_by lexer.rest.length
decreasing_by exact length_next _h

end Lexer

/-- The tokens and the illegal characters of a text. -/
def tokenize (source : String) : List Token × List LexError :=
  let (tokens, done) := (Lexer.ofSource source).all
  (tokens, done.errors)

end SlipStack.Lap
