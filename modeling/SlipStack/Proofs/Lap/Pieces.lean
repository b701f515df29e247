import Mathlib.Data.List.Basic
import SlipStack.Proofs.Lap.Words

/-!
# The pieces of a text

Whether a stretch of text is a piece depends on the stretch and on what follows it
(`Piece.Fits`). This is all that there is to cutting: a piece that fits is cut off
(`cut?_eq_some`), so the pieces of a text are the one row of stretches in which each of them
fits in front of those behind it (`pieces_eq_iff`).

A lexer passes over the pieces of its text one after the other (`Lexer.all_eq`). Each piece
starts on the line that the pieces before it have reached (`Piece.reports`): a token is
reported with the line on which it ends, an illegal character with the line on which it
stands.
-/

namespace SlipStack.Lap

/-- A text of which nothing is left, or whose first character is a separator: where a word
ends. -/
def Breaks : List Char → Bool
  | [] => true
  | c :: _ => isSeparator c

/-- A word that ends at a break is found by going on to the next separator. -/
theorem takeWhile_of_breaks {word rest : List Char}
    (hword : ∀ c ∈ word, isSeparator c = false) (hrest : Breaks rest = true) :
    (word ++ rest).takeWhile (!isSeparator ·) = word ∧
      (word ++ rest).dropWhile (!isSeparator ·) = rest := by
  have hnone : rest.takeWhile (!isSeparator ·) = [] ∧ rest.dropWhile (!isSeparator ·) = rest := by
    cases rest with
    | nil => exact ⟨rfl, rfl⟩
    | cons c rest => simp [show isSeparator c = true from hrest]
  have hall : ∀ c ∈ word, (!isSeparator c) = true := fun c hc => by rw [hword c hc, Bool.not_false]
  rw [List.takeWhile_append_of_pos hall, List.dropWhile_append_of_pos hall, hnone.1, hnone.2,
    List.append_nil]
  exact ⟨rfl, rfl⟩

theorem breaks_dropWhile (cs : List Char) :
    Breaks (cs.dropWhile (!isSeparator ·)) = true := by
  have hhead := List.head?_dropWhile_not (!isSeparator ·) cs
  cases hdrop : cs.dropWhile (!isSeparator ·) with
  | nil => rfl
  | cons c rest =>
    rw [hdrop] at hhead
    simpa [Breaks] using hhead

namespace Piece

variable {cs rest word : List Char} {piece : Piece} {kind : Kind} {c : Char}

/-! ## Quoted texts -/

/-- A quoted text ends at the next quote, whatever comes behind. -/
theorem quoted?_append {inner : List Char} (h : '"' ∉ inner) (rest : List Char) :
    quoted? ('"' :: inner ++ '"' :: rest) = some ('"' :: inner ++ ['"'], rest) := by
  have hall : ∀ c ∈ inner, decide (c ≠ '"') = true := by
    intro c hc
    exact decide_eq_true fun heq => h (heq ▸ hc)
  simp only [quoted?, List.cons_append]
  rw [List.takeWhile_append_of_pos hall, List.dropWhile_append_of_pos hall]
  simp

theorem quoted?_eq_some {chars after : List Char} (h : quoted? cs = some (chars, after)) :
    ∃ inner : List Char, chars = '"' :: inner ++ ['"'] ∧ '"' ∉ inner := by
  unfold quoted? at h
  split at h
  · rename_i rest
    split at h
    · obtain ⟨rfl, rfl⟩ := Prod.mk.inj (Option.some.inj h)
      refine ⟨_, rfl, fun hc => ?_⟩
      have hne := List.all_eq_true.1 List.all_takeWhile _ hc
      exact of_decide_eq_true hne rfl
    · cases h
  · cases h

/-- A quoted text starts at a quote that is closed. -/
theorem quoted?_eq_none : quoted? (c :: rest) = none ↔ ¬ (c = '"' ∧ '"' ∈ rest) := by
  constructor
  · intro hnone hclosed
    obtain ⟨rfl, hmem⟩ := hclosed
    obtain ⟨inner, after, rfl, hinner⟩ := List.eq_append_cons_of_mem hmem
    have hsome := quoted?_append hinner after
    rw [List.cons_append, hnone] at hsome
    cases hsome
  · intro hopen
    rw [Option.eq_none_iff_forall_ne_some]
    intro result hsome
    obtain ⟨chars, after⟩ := result
    obtain ⟨inner, rfl, -⟩ := quoted?_eq_some hsome
    have htext := (chars_quoted? hsome).1
    simp only [List.cons_append, List.cons.injEq] at htext
    obtain ⟨rfl, rfl⟩ := htext
    exact hopen ⟨rfl, by simp⟩

/-! ## Pieces that fit -/

/-- The text is a piece if it goes on like that. -/
def Fits : Piece → List Char → Prop
  | .token .leftParen chars, _ => chars = ['(']
  | .token .rightParen chars, _ => chars = [')']
  | .token .comment chars, _ => ∃ inner : List Char, chars = '"' :: inner ++ ['"'] ∧ '"' ∉ inner
  | .token kind chars, rest =>
    Word.kindOf? chars = some kind ∧ (∀ c ∈ chars, isSeparator c = false) ∧ Breaks rest = true
  | .blank c, _ => c ∈ [' ', '\t', '\r', '\n']
  | .illegal c, rest =>
    ¬ (c = '"' ∧ '"' ∈ rest) ∧ isSeparator c = false ∧
      Word.kindOf? (c :: rest.takeWhile (!isSeparator ·)) = none

theorem fits_word (h : Word.kindOf? word = some kind) (hrest : Breaks rest = true) :
    (token kind word).Fits rest := by
  have hkind := Word.kindOf?_notMem h
  have hchars : ∀ c ∈ word, isSeparator c = false := fun c hc =>
    Word.not_isSeparator (List.all_eq_true.1 (Word.isWordChar_of_kindOf? h) c hc)
  cases kind <;> first | exact ⟨h, hchars, hrest⟩ | exact absurd hkind (by decide)

theorem fits_separator (h : isSeparator c = true) (rest : List Char) :
    (ofSeparator c).Fits rest := by
  simp only [isSeparator, Bool.or_eq_true, decide_eq_true_eq] at h
  rcases h with ((((rfl | rfl) | rfl) | rfl) | rfl) | rfl <;> simp [ofSeparator, Fits]

/-- A piece that was cut off a text fits what is left: it would be cut off there again. -/
theorem fits_of_cut? (h : cut? cs = some (piece, rest)) : piece.Fits rest := by
  cases cs with
  | nil => cases h
  | cons c cs =>
    rw [cut?] at h
    -- The cases are tried in the order of the lexer: quotes, separators, words, and else one
    -- illegal character.
    cases hquoted : quoted? (c :: cs) with
    | some result =>
      rw [hquoted] at h
      obtain ⟨rfl, rfl⟩ := Prod.mk.inj (Option.some.inj h)
      exact quoted?_eq_some hquoted
    | none =>
      rw [hquoted] at h
      simp only at h
      split at h
      · rename_i hseparator
        obtain ⟨rfl, rfl⟩ := Prod.mk.inj (Option.some.inj h)
        exact fits_separator hseparator _
      · rename_i hseparator
        split at h
        · rename_i hkind
          obtain ⟨rfl, rfl⟩ := Prod.mk.inj (Option.some.inj h)
          exact fits_word hkind (breaks_dropWhile cs)
        · rename_i hkind
          obtain ⟨rfl, rfl⟩ := Prod.mk.inj (Option.some.inj h)
          exact ⟨quoted?_eq_none.1 hquoted, Bool.eq_false_iff.2 hseparator, hkind⟩

theorem cut?_separator (h : isSeparator c = true) (rest : List Char) :
    cut? (c :: rest) = some (ofSeparator c, rest) := by
  have hquote : c ≠ '"' := by
    intro heq
    subst heq
    cases h
  rw [cut?, quoted?_eq_none.2 fun hclosed => hquote hclosed.1]
  simp only [h, if_true]

theorem cut?_word (h : Word.kindOf? word = some kind) (hrest : Breaks rest = true) :
    cut? (word ++ rest) = some (.token kind word, rest) := by
  have hchars := List.all_eq_true.1 (Word.isWordChar_of_kindOf? h)
  obtain ⟨c, cs, rfl⟩ := List.exists_cons_of_ne_nil (Word.ne_nil_of_kindOf? h)
  obtain ⟨hc, hcs⟩ := List.forall_mem_cons.1 hchars
  have hends := takeWhile_of_breaks (fun d hd => Word.not_isSeparator (hcs d hd)) hrest
  rw [List.cons_append, cut?, quoted?_eq_none.2 fun hclosed => Word.ne_quote hc hclosed.1]
  simp only [Word.not_isSeparator hc, Bool.false_eq_true, if_false, hends.1, hends.2, h]

/-- A piece that fits what follows it is cut off again as it is. With the converse this makes
cutting and joining inverse to each other. -/
theorem cut?_of_fits (h : piece.Fits rest) : cut? (piece.chars ++ rest) = some (piece, rest) := by
  unfold Fits at h
  split at h
  · subst h
    exact cut?_separator rfl rest
  · subst h
    exact cut?_separator rfl rest
  · obtain ⟨inner, rfl, hinner⟩ := h
    have hquoted := quoted?_append hinner rest
    rw [List.cons_append] at hquoted
    simp [chars, cut?, hquoted]
  · exact cut?_word h.1 h.2.2
  · simp only [List.mem_cons, List.not_mem_nil, or_false] at h
    rcases h with rfl | rfl | rfl | rfl <;> exact cut?_separator rfl _
  · obtain ⟨hquoted, hseparator, hkind⟩ := h
    simp only [chars, List.singleton_append, cut?, quoted?_eq_none.2 hquoted, hseparator, hkind,
      Bool.false_eq_true, if_false]

/-- What is cut off is the piece that fits. -/
theorem cut?_eq_some :
    cut? cs = some (piece, rest) ↔ piece.chars ++ rest = cs ∧ piece.Fits rest := by
  constructor
  · intro h
    exact ⟨(chars_cut? h).1, fits_of_cut? h⟩
  · intro h
    obtain ⟨rfl, hfits⟩ := h
    exact cut?_of_fits hfits

/-! ## One piece after the other -/

theorem pieces_of_cut? (h : cut? cs = some (piece, rest)) : pieces cs = piece :: pieces rest := by
  rw [pieces]
  split
  · rename_i hnone
    rw [h] at hnone
    cases hnone
  · rename_i hsome
    rw [h] at hsome
    obtain ⟨rfl, rfl⟩ := Prod.mk.inj (Option.some.inj hsome)
    rfl

theorem pieces_of_cut?_none (h : cut? cs = none) : pieces cs = [] := by
  rw [pieces]
  split
  · rfl
  · rename_i hsome
    rw [h] at hsome
    cases hsome

theorem pieces_of_fits (h : piece.Fits rest) :
    pieces (piece.chars ++ rest) = piece :: pieces rest :=
  pieces_of_cut? (cut?_of_fits h)

theorem cut?_of_pieces_eq {after : List Piece} (h : pieces cs = piece :: after) :
    ∃ rest, cut? cs = some (piece, rest) ∧ pieces rest = after := by
  cases hcut : cut? cs with
  | none => simp [pieces_of_cut?_none hcut] at h
  | some result =>
    obtain ⟨first, rest⟩ := result
    rw [pieces_of_cut? hcut] at h
    obtain ⟨rfl, rfl⟩ := List.cons.inj h
    exact ⟨rest, rfl, rfl⟩

/-- Each piece of a text fits in front of those behind it. -/
theorem fits_of_pieces_eq {before after : List Piece}
    (h : pieces cs = before ++ piece :: after) : piece.Fits (after.flatMap chars) := by
  induction before generalizing cs with
  | nil =>
    obtain ⟨rest, hcut, rfl⟩ := cut?_of_pieces_eq h
    rw [chars_pieces]
    exact fits_of_cut? hcut
  | cons first before ih =>
    obtain ⟨rest, -, hrest⟩ := cut?_of_pieces_eq h
    exact ih hrest

/-- Pieces of which each fits what follows are found again when the text is cut. -/
theorem pieces_of_forall_fits {ps : List Piece}
    (h : ∀ before piece after, ps = before ++ piece :: after → piece.Fits (after.flatMap chars)) :
    pieces (ps.flatMap chars) = ps := by
  induction ps with
  | nil => exact pieces_of_cut?_none rfl
  | cons first ps ih =>
    have hrest : pieces (ps.flatMap chars) = ps := by
      refine ih ?_
      intro before piece after hps
      exact h (first :: before) piece after (congrArg (first :: ·) hps)
    rw [List.flatMap_cons, pieces_of_fits (h [] first ps rfl), hrest]

/-- There is one way to take a text for a row of pieces that fit, and this is how it is cut. -/
theorem pieces_eq_iff {ps : List Piece} :
    pieces cs = ps ↔ ps.flatMap chars = cs ∧
      ∀ before piece after, ps = before ++ piece :: after → piece.Fits (after.flatMap chars) := by
  constructor
  · intro hpieces
    subst hpieces
    exact ⟨chars_pieces cs, fun before piece after hsplit => fits_of_pieces_eq hsplit⟩
  · intro h
    obtain ⟨rfl, hfits⟩ := h
    exact pieces_of_forall_fits hfits

/-! ## Reports -/

/-- The token of a piece that starts on the line. -/
def token? (line : Nat) : Piece → Option Token
  | .token kind chars => some ⟨kind, String.ofList chars, line + chars.count '\n'⟩
  | _ => none

/-- The error of a piece that starts on the line. -/
def error? (line : Nat) : Piece → Option LexError
  | .illegal c => some ⟨line, c⟩
  | _ => none

variable {α β : Type} {report? : Nat → Piece → Option α}

/-- What is reported of pieces that start on the line. -/
def reports (report? : Nat → Piece → Option α) (line : Nat) : List Piece → List α
  | [] => []
  | piece :: pieces =>
    (report? line piece).toList ++ reports report? (line + piece.chars.count '\n') pieces

/-- Reports of pieces come with lines counted on from those before. -/
theorem reports_append (line : Nat) (before after : List Piece) :
    reports report? line (before ++ after) =
      reports report? line before ++
        reports report? (line + (before.flatMap chars).count '\n') after := by
  induction before generalizing line with
  | nil => rfl
  | cons piece before ih =>
    rw [List.cons_append, reports, ih, reports, List.append_assoc, List.flatMap_cons,
      List.count_append, Nat.add_assoc]

/-- What does not depend on the line can be told from the pieces alone. -/
theorem map_reports {f : α → β} {g : Piece → Option β}
    (h : ∀ line piece, (report? line piece).map f = g piece) (line : Nat) (pieces : List Piece) :
    (reports report? line pieces).map f = pieces.filterMap g := by
  induction pieces generalizing line with
  | nil => rfl
  | cons piece pieces ih =>
    rw [reports, List.map_append, ih, List.filterMap_cons, ← h line piece]
    cases report? line piece <;> rfl

end Piece

/-! ## Lexers -/

namespace Lexer

open Piece

variable {lexer : Lexer} {rest : List Char}

theorem next_of_cut?_none (h : cut? lexer.rest = none) : lexer.next = (none, lexer) := by
  rw [next]
  split <;> simp_all

theorem next_of_token {kind : Kind} {chars : List Char}
    (h : cut? lexer.rest = some (.token kind chars, rest)) :
    lexer.next =
      (some ⟨kind, String.ofList chars, lexer.line + chars.count '\n'⟩,
        ⟨rest, lexer.line + chars.count '\n', lexer.passed⟩) := by
  rw [next]
  split <;> simp_all

theorem next_of_blank {c : Char} (h : cut? lexer.rest = some (.blank c, rest)) :
    lexer.next = next ⟨rest, lexer.line + [c].count '\n', lexer.passed⟩ := by
  have hline : (if c = '\n' then lexer.line + 1 else lexer.line) = lexer.line + [c].count '\n' := by
    rw [List.count_singleton]
    split <;> simp_all
  rw [← hline, next]
  split <;> simp_all

theorem next_of_illegal {c : Char} (h : cut? lexer.rest = some (.illegal c, rest)) :
    lexer.next =
      next ⟨rest, lexer.line + [c].count '\n', ⟨lexer.line, c⟩ :: lexer.passed⟩ := by
  -- A line end is a separator, so it is not illegal.
  have hline : [c].count '\n' = 0 := by
    rw [List.count_eq_zero, List.mem_singleton]
    intro heq
    subst heq
    cases (fits_of_cut? h).2.1
  rw [hline, next]
  split <;> simp_all

/-- All tokens of a lexer are the next one and then all of the lexer after it. -/
theorem all_eq_next (lexer : Lexer) :
    lexer.all =
      match lexer.next with
      | (none, after) => ([], after)
      | (some found, after) => (found :: after.all.1, after.all.2) := by
  rw [all]
  split <;> simp_all

theorem all_of_next_eq {lexer' : Lexer} (h : lexer.next = lexer'.next) :
    lexer.all = lexer'.all := by
  rw [all_eq_next, h, ← all_eq_next]

/-- All pieces are reported, and the lexer comes to the last line. -/
theorem all_eq (cs : List Char) (line : Nat) (passed : List LexError) :
    all ⟨cs, line, passed⟩ =
      (reports token? line (pieces cs),
        ⟨[], line + cs.count '\n', (reports error? line (pieces cs)).reverse ++ passed⟩) := by
  -- On the pieces, since one step of `all` may pass several of them in front of a token.
  induction hpieces : pieces cs generalizing cs line passed with
  | nil =>
    have hnil : cs = [] := by rw [← chars_pieces cs, hpieces, List.flatMap_nil]
    subst hnil
    rw [all_eq_next, next_of_cut?_none rfl]
    rfl
  | cons piece after ih =>
    obtain ⟨rest, hcut, hrest⟩ := cut?_of_pieces_eq hpieces
    have hcount : cs.count '\n' = piece.chars.count '\n' + rest.count '\n' := by
      rw [← (chars_cut? hcut).1, List.count_append]
    rw [hcount, ← Nat.add_assoc]
    cases piece with
    | token kind chars =>
      rw [all_eq_next, next_of_token hcut]
      simp only [ih rest _ _ hrest]
      rfl
    | blank c =>
      rw [all_of_next_eq (next_of_blank hcut), ih rest _ _ hrest]
      rfl
    | illegal c =>
      rw [all_of_next_eq (next_of_illegal hcut), ih rest _ _ hrest]
      simp [reports, error?, token?, chars]

end Lexer

/-- Cutting a text into tokens is cutting what is left of it without comments into pieces, and
reporting them with their lines. -/
theorem tokenize_eq (source : String) :
    tokenize source =
      (Piece.reports Piece.token? 1 (Piece.pieces (stripComments source.toList)),
        Piece.reports Piece.error? 1 (Piece.pieces (stripComments source.toList))) := by
  rw [tokenize, Lexer.ofSource, Lexer.all_eq]
  simp [Lexer.errors]

end SlipStack.Lap
