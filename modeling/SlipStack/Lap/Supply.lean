import SlipStack.Lap.Lexer

/-!
# Token supplies

The parser takes its tokens from a `Supply`, one after the other, and never looks further than
the first that is left. For a text that is a `Cursor`, which has read this token, the lookahead,
and nothing behind it. A list of tokens is a supply as well.
-/

namespace SlipStack.Lap

/-- What tokens can be taken from. -/
class Supply (σ : Type) where
  /-- The next token, if there is one. -/
  head? : σ → Option Token
  /-- The supply without its next token. -/
  tail : σ → σ
  /-- A bound on the number of tokens that are left. -/
  size : σ → Nat
  size_tail_le (supply : σ) : size (tail supply) ≤ size supply
  size_tail_lt {supply : σ} {token : Token} (h : head? supply = some token) :
    size (tail supply) < size supply

instance : Supply (List Token) where
  head? := List.head?
  tail := List.tail
  size := List.length
  size_tail_le tokens := by simp
  size_tail_lt {tokens token} h := by
    cases tokens with
    | nil => cases h
    | cons => simp

namespace Supply

@[simp]
theorem head?_nil : head? ([] : List Token) = none := rfl

@[simp]
theorem head?_cons (token : Token) (rest : List Token) : head? (token :: rest) = some token := rfl

@[simp]
theorem tail_cons (token : Token) (rest : List Token) : tail (token :: rest) = rest := rfl

@[simp]
theorem size_list (tokens : List Token) : size tokens = tokens.length := rfl

theorem eq_cons_of_head? {tokens : List Token} {token : Token} (h : head? tokens = some token) :
    ∃ rest, tokens = token :: rest := by
  cases tokens with
  | nil => cases h
  | cons first rest =>
    cases h
    exact ⟨rest, rfl⟩

end Supply

namespace Lexer

theorem length_next_le (lexer : Lexer) : lexer.next.2.rest.length ≤ lexer.rest.length := by
  fun_induction next lexer with
  | case1 => exact Nat.le_refl _
  | case2 lexer kind chars rest heq line => exact Nat.le_of_lt (Piece.length_cut? heq)
  | case3 lexer c rest heq ih => exact Nat.le_trans ih (Nat.le_of_lt (Piece.length_cut? heq))
  | case4 lexer c rest heq ih => exact Nat.le_trans ih (Nat.le_of_lt (Piece.length_cut? heq))

end Lexer

/-- A place in a text with the token that is next there. -/
structure Cursor where
  /-- The lookahead; there is none behind the last token. -/
  ahead : Option Token
  /-- The lexer behind the lookahead. -/
  lexer : Lexer
  deriving Repr

namespace Cursor

/-- Reads the lookahead. -/
def pull (lexer : Lexer) : Cursor :=
  let (ahead, lexer) := lexer.next
  ⟨ahead, lexer⟩

/-- The cursor at the first token of a text. -/
def ofSource (source : String) : Cursor :=
  pull (.ofSource source)

/-- The cursor at the token behind the lookahead. -/
def tail (cursor : Cursor) : Cursor :=
  match cursor.ahead with
  | none => cursor
  | some _ => pull cursor.lexer

/-- The characters that are left, and the lookahead. -/
def size (cursor : Cursor) : Nat :=
  match cursor.ahead with
  | none => cursor.lexer.rest.length
  | some _ => cursor.lexer.rest.length + 1

section Ahead

variable {cursor : Cursor} {token : Token}

theorem tail_of_ahead (h : cursor.ahead = some token) : cursor.tail = pull cursor.lexer := by
  rw [tail, h]

theorem tail_of_end (h : cursor.ahead = none) : cursor.tail = cursor := by
  rw [tail, h]

theorem size_of_ahead (h : cursor.ahead = some token) :
    cursor.size = cursor.lexer.rest.length + 1 := by
  rw [size, h]

end Ahead

theorem size_pull_le (lexer : Lexer) : (pull lexer).size ≤ lexer.rest.length := by
  have hle := lexer.length_next_le
  rw [pull]
  rcases hnext : lexer.next with ⟨ahead, after⟩
  rw [hnext] at hle
  cases ahead with
  | none => exact hle
  | some token => exact Lexer.length_next hnext

theorem size_tail_lt {cursor : Cursor} {token : Token} (h : cursor.ahead = some token) :
    cursor.tail.size < cursor.size := by
  rw [tail_of_ahead h, size_of_ahead h]
  exact Nat.lt_succ_of_le (size_pull_le _)

theorem size_tail_le (cursor : Cursor) : cursor.tail.size ≤ cursor.size := by
  cases h : cursor.ahead with
  | none => exact Nat.le_of_eq (congrArg size (tail_of_end h))
  | some token => exact Nat.le_of_lt (size_tail_lt h)

instance : Supply Cursor where
  head? := ahead
  tail := tail
  size := size
  size_tail_le := size_tail_le
  size_tail_lt := size_tail_lt

end Cursor

end SlipStack.Lap
