import SlipStack.Proofs.Lap.Completeness
import SlipStack.Proofs.Lap.Lookahead

/-!
# The parser recognises the grammar

Soundness and completeness together: the parser reads a plan from tokens if and only if the
grammar derives it from all of their lexemes. The lines of the tokens play no part in that,
and no sentence has two meanings.
-/

namespace SlipStack.Lap

open Grammar

/-- The plan that a text holds is the one that the grammar derives from it. -/
theorem parse_eq_ok {source : String} {p : Plan} :
    parse source = .ok p ↔ IsPlan (lexemes (tokenize source).1) p := by
  rw [parse_eq]
  constructor
  · intro h
    cases hread : Parser.plan (tokenize source).1 with
    | error stuck => simp [hread, report] at h
    | ok result =>
      obtain ⟨read, rest⟩ := result
      simp only [hread, report, Except.ok.injEq] at h
      exact h ▸ (Parser.plan_sound hread).2
  · intro h
    rw [Parser.plan_complete h, report]

/-- Any lexemes are those of some tokens. -/
theorem exists_lexemes (ls : List Lexeme) : ∃ ts, lexemes ts = ls :=
  ⟨ls.map fun l => ⟨l.kind, l.text, 1⟩, by simp [lexemes, Token.lexeme, Function.comp_def]⟩

/-- A sentence has one meaning. -/
theorem Grammar.IsPlan.unique {ls : List Lexeme} {p q : Plan} (hp : IsPlan ls p)
    (hq : IsPlan ls q) : p = q := by
  obtain ⟨ts, rfl⟩ := exists_lexemes ls
  have h := (Parser.plan_complete hp).symm.trans (Parser.plan_complete hq)
  exact congrArg Prod.fst (Except.ok.inj h)

/-- Whatever the tokens, the parser reads a plan from them exactly if the grammar derives it
from all of them; and a text holds a plan exactly if the grammar derives it from the tokens
of the text. -/
theorem recognises_exactly_plans :
    (∀ (tokens : List Token) (p : Plan) (rest : List Token),
      Parser.plan tokens = .ok (p, rest) ↔ rest = [] ∧ IsPlan (lexemes tokens) p) ∧
    (∀ (source : String) (p : Plan),
      parse source = .ok p ↔ IsPlan (lexemes (tokenize source).1) p) := by
  refine ⟨fun tokens p rest => ⟨Parser.plan_sound, ?_⟩, fun source p => parse_eq_ok⟩
  rintro ⟨rfl, h⟩
  exact Parser.plan_complete h

end SlipStack.Lap
