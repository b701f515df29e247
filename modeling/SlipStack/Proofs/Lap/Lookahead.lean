import SlipStack.Proofs.Lap.Lines
import SlipStack.Proofs.Lap.Supplies

/-!
# The line of a syntax error

A syntax error has the line that the lexer has reached. The lexer is one token ahead of the parser,
so this is the line of the lookahead, the first token that has not been consumed, also where the
parser complains of a token before it (`error_line_follows_lookahead`).

A parse of a text is a row of moments, from each of which the next one is reached by consuming the
lookahead (`Moment.after`), and what holds of one holds of the next (`Moment.Fits.next`). That the
parser comes through no others is a matter of types: it runs on any supply, so also on one that is
nothing but the number of the moment (`Trail`), and there it does what it does on the text.
-/

namespace SlipStack.Lap

/-! ## One token ahead -/

namespace Lexer

variable {lexer after : Lexer} {token : Token}

theorem next_of_end (h : lexer.next = (none, after)) : after.next = (none, after) := by
  fun_induction next lexer with
  | case1 lexer hcut =>
    obtain ⟨-, rfl⟩ := Prod.mk.inj h
    exact next_of_cut?_none hcut
  | case2 => cases h
  | case3 lexer c rest hcut ih => exact ih h
  | case4 lexer c rest hcut ih => exact ih h

/-- Behind a token the lexer is on the line on which the token ends. -/
theorem line_next (h : lexer.next = (some token, after)) : after.line = token.line := by
  fun_induction next lexer with
  | case1 => cases h
  | case2 lexer kind chars rest hcut line =>
    obtain ⟨htoken, rfl⟩ := Prod.mk.inj h
    obtain rfl := Option.some.inj htoken
    rfl
  | case3 lexer c rest hcut ih => exact ih h
  | case4 lexer c rest hcut ih => exact ih h

/-- Behind the last token the lexer has nothing more to do. -/
theorem all_of_end (h : lexer.next = (none, after)) : after.all = ([], after) := by
  rw [all_eq_next, next_of_end h]

/-- Pulling one token ahead takes it from the front of those that the lexer would give. -/
theorem all_pull (lexer : Lexer) :
    lexer.all =
      ((Cursor.pull lexer).ahead.toList ++ (Cursor.pull lexer).lexer.all.1,
        (Cursor.pull lexer).lexer.all.2) := by
  rw [all_eq_next, Cursor.pull]
  rcases hnext : lexer.next with ⟨ahead, after⟩
  cases ahead with
  | none => simp only [all_of_end hnext, Option.toList_none, List.nil_append]
  | some token => rfl

theorem line_all (source : String) :
    (ofSource source).all.2.line = 1 + source.toList.count '\n' := by
  rw [ofSource, all_eq, (count_stripComments _).1]

end Lexer

/-! ## Moments -/

/-- The line of a token, or the last line of the text where there is none. -/
def lineOf (source : String) : Option Token → Nat
  | some token => token.line
  | none => 1 + source.toList.count '\n'

/-- A moment of a parse. -/
structure Moment where
  /-- The tokens that have been consumed. -/
  read : List Token
  /-- The place behind them. -/
  cursor : Cursor

namespace Moment

/-- The moment when the lookahead has been consumed too. -/
def next (moment : Moment) : Moment :=
  ⟨moment.read ++ moment.cursor.ahead.toList, moment.cursor.tail⟩

/-- The moment of a parse of the text when so many tokens have been consumed. -/
def after (source : String) : Nat → Moment
  | 0 => ⟨[], .ofSource source⟩
  | taken + 1 => (after source taken).next

/-- The tokens that have not been consumed. -/
def left (moment : Moment) : List Token :=
  moment.cursor.ahead.toList ++ moment.cursor.lexer.all.1

/-- The supply is one that a parse of the text comes to: what it has left is what the text has
left, and it knows the line. -/
structure Fits (source : String) (moment : Moment) : Prop where
  /-- What the lexer goes on with behind the lookahead completes the text. -/
  lexed : (Lexer.ofSource source).all =
    (moment.read ++ moment.cursor.ahead.toList ++ moment.cursor.lexer.all.1,
      moment.cursor.lexer.all.2)
  line : ∀ token, moment.cursor.ahead = some token → moment.cursor.lexer.line = token.line
  ended : moment.cursor.ahead = none → moment.cursor.lexer.all = ([], moment.cursor.lexer)

variable {source : String} {moment : Moment}

/-- After tokens have been read, with the next one pulled ahead, the moment fits the text. -/
theorem fits_pull {read : List Token} {lexer : Lexer}
    (h : (Lexer.ofSource source).all = (read ++ lexer.all.1, lexer.all.2)) :
    Fits source ⟨read, .pull lexer⟩ where
  lexed := by
    rw [h, lexer.all_pull, List.append_assoc]
  line token hahead := by
    rcases hnext : lexer.next with ⟨ahead, after⟩
    rw [Cursor.pull, hnext] at hahead ⊢
    obtain rfl : ahead = some token := hahead
    exact Lexer.line_next hnext
  ended hahead := by
    rcases hnext : lexer.next with ⟨ahead, after⟩
    rw [Cursor.pull, hnext] at hahead ⊢
    obtain rfl : ahead = none := hahead
    exact Lexer.all_of_end hnext

theorem next_of_end (h : moment.cursor.ahead = none) : moment.next = moment := by
  rw [next, h, Cursor.tail_of_end h, Option.toList_none, List.append_nil]

/-- The step lemma of the lookahead: reading on by one token keeps what is read and what is left
in step with the text. -/
theorem Fits.next (h : Fits source moment) : Fits source moment.next := by
  cases hahead : moment.cursor.ahead with
  | none =>
    rw [next_of_end hahead]
    exact h
  | some token =>
    rw [Moment.next, Cursor.tail_of_ahead hahead]
    exact fits_pull h.lexed

/-- The run lemma: at every moment of a reading, tokens read and tokens left are those of the
text. -/
theorem fits_after (source : String) (taken : Nat) : Fits source (after source taken) := by
  induction taken with
  | zero => exact fits_pull rfl
  | succ taken ih => exact ih.next

namespace Fits

theorem tokens_eq (h : Fits source moment) :
    (tokenize source).1 = moment.read ++ moment.left := by
  rw [left, ← List.append_assoc]
  exact congrArg Prod.fst h.lexed

/-- The line of the lexer is that of the token ahead, or of the end of the text if there is none.
-/
theorem line_eq (h : Fits source moment) :
    moment.cursor.lexer.line = lineOf source moment.cursor.ahead := by
  cases hahead : moment.cursor.ahead with
  | some token => exact h.line token hahead
  | none =>
    have hlast := congrArg (·.2.line) h.lexed
    simp only [h.ended hahead, Lexer.line_all] at hlast
    exact hlast.symm

theorem head?_left (h : Fits source moment) : moment.left.head? = moment.cursor.ahead := by
  rw [left]
  cases hahead : moment.cursor.ahead with
  | some token => rfl
  | none => rw [h.ended hahead]; rfl

theorem left_next (h : Fits source moment) : moment.next.left = moment.left.tail := by
  cases hahead : moment.cursor.ahead with
  | none =>
    have hnil : moment.left = [] := by rw [left, hahead, h.ended hahead]; rfl
    rw [next_of_end hahead, hnil, List.tail_nil]
  | some token =>
    rw [Moment.next, left, left, hahead, Cursor.tail_of_ahead hahead]
    exact (congrArg Prod.fst (Lexer.all_pull _)).symm

/-- The lookahead is the first token that has not been consumed. -/
theorem ahead_eq (h : Fits source moment) :
    moment.cursor.ahead = (tokenize source).1[moment.read.length]? := by
  rw [h.tokens_eq, List.getElem?_append_right (Nat.le_refl _), Nat.sub_self,
    ← List.head?_eq_getElem?, h.head?_left]

end Fits

end Moment

/-! ## The parser on its moments -/

/-- How far a parse of the text has come. -/
structure Trail (source : String) where
  /-- How often a token has been taken. -/
  taken : Nat

namespace Trail

variable {source : String}

def start (source : String) : Trail source :=
  ⟨0⟩

/-- The moment to which a trail leads. -/
def moment (trail : Trail source) : Moment :=
  .after source trail.taken

theorem fits (trail : Trail source) : trail.moment.Fits source :=
  Moment.fits_after source trail.taken

instance : Supply (Trail source) where
  head? trail := Supply.head? trail.moment.cursor
  tail trail := ⟨trail.taken + 1⟩
  size trail := Supply.size trail.moment.cursor
  size_tail_le trail := Supply.size_tail_le trail.moment.cursor
  size_tail_lt h := Supply.size_tail_lt h

/-- A trail is read as its cursor is: same token ahead, and the same after one is taken. -/
theorem hom_cursor : Supply.Hom fun trail : Trail source => trail.moment.cursor where
  head?_eq _ := rfl
  tail_eq _ := rfl

/-- A trail is read as the list of tokens left is, so the parser on lists and the parser on
cursors do the same. -/
theorem hom_left : Supply.Hom fun trail : Trail source => trail.moment.left where
  head?_eq trail := trail.fits.head?_left
  tail_eq trail := trail.fits.left_next.symm

end Trail

/-- What is told of a run of the parser, where the lines are told by the supplies. -/
def report {σ : Type} (line : σ → Nat) :
    Except (StuckAt σ) (Plan × σ) → Except SyntaxError Plan
  | .ok (plan, _) => .ok plan
  | .error stuck => .error ⟨line stuck.rest, stuck.cause⟩

theorem Parser.Matches.report_eq {σ τ : Type} [Supply σ] [Supply τ] {f : σ → τ} {tokens : σ}
    {r : Except (StuckAt σ) (Plan × σ)} {r' : Except (StuckAt τ) (Plan × τ)}
    (h : Matches f tokens r r') (line : τ → Nat) : report line r' = report (line ∘ f) r := by
  cases h with
  | stuck cause rest => rfl
  | read plan hσ hτ => rfl

theorem parse_eq_cursor (source : String) :
    parse source = report (·.lexer.line) (Parser.plan (Cursor.ofSource source)) := by
  rw [parse]
  cases Parser.plan (Cursor.ofSource source) with
  | ok result => rfl
  | error stuck => rfl

/-- Parsing a text is parsing along a trail, whose moment tells the line that is reported. -/
theorem parse_eq_report (source : String) :
    parse source =
      report (fun trail => trail.moment.cursor.lexer.line) (Parser.plan (Trail.start source)) := by
  rw [parse_eq_cursor]
  exact (Parser.follows_plan Trail.hom_cursor (Trail.start source)).report_eq (·.lexer.line)

/-- For the plan that a text holds only its tokens count, and so they do for an error, but for its
line. -/
theorem parse_eq (source : String) :
    parse source =
      report (fun left => lineOf source left.head?) (Parser.plan (tokenize source).1) := by
  have hstart : (Trail.start source).moment.left = (tokenize source).1 :=
    (Trail.start source).fits.tokens_eq.symm
  have hmatches := Parser.follows_plan Trail.hom_left (Trail.start source)
  rw [hstart] at hmatches
  rw [parse_eq_report, hmatches.report_eq]
  congr
  funext trail
  exact trail.fits.line_eq.trans (congrArg (lineOf source) trail.fits.head?_left.symm)

/-- At every moment of a parse the lexer is on the line of the lookahead and has found, up to the
lookahead, what it finds in the whole text up to there. So where the parser gets stuck, having
consumed some of the tokens, the error has the line of the next of them, and the last line of the
text where there is none. -/
theorem error_line_follows_lookahead (source : String) :
    (∀ trail : Trail source,
      trail.moment.cursor.lexer.line = lineOf source trail.moment.cursor.ahead ∧
        (Lexer.ofSource source).all =
          (trail.moment.read ++ trail.moment.cursor.ahead.toList ++
              trail.moment.cursor.lexer.all.1,
            trail.moment.cursor.lexer.all.2)) ∧
    parse source =
      report (fun trail => trail.moment.cursor.lexer.line) (Parser.plan (Trail.start source)) ∧
    ∀ e, parse source = .error e →
      ∃ (k : Nat) (trail : Trail source), k ≤ (tokenize source).1.length ∧
        Parser.plan (Trail.start source) = .error ⟨e.cause, trail⟩ ∧
        trail.moment.read = (tokenize source).1.take k ∧
        trail.moment.cursor.ahead = (tokenize source).1[k]? ∧
        e.line = lineOf source (tokenize source).1[k]? := by
  refine ⟨fun trail => ⟨trail.fits.line_eq, trail.fits.lexed⟩, parse_eq_report source, ?_⟩
  intro e herror
  rw [parse_eq_report] at herror
  cases hrun : Parser.plan (Trail.start source) with
  | ok result =>
    rw [hrun] at herror
    cases herror
  | error stuck =>
    rw [hrun] at herror
    obtain rfl := Except.error.inj herror
    obtain ⟨cause, trail⟩ := stuck
    have htokens := trail.fits.tokens_eq
    have hahead := trail.fits.ahead_eq
    -- The position is the number of tokens that have been read when the parser is stuck.
    refine ⟨trail.moment.read.length, trail, ?_, rfl, ?_, hahead, ?_⟩
    · rw [htokens, List.length_append]
      exact Nat.le_add_right _ _
    · rw [htokens, List.take_left]
    · rw [← hahead]
      exact trail.fits.line_eq

/-- The count is out of range, but the lexer is behind the line ends after it when it is read. -/
def longRetries : String :=
  "((C c nil (elements ((e go 9223372036854775808 #)\n\n))))"

theorem error_line_follows_lookahead_retries :
    parse longRetries = .error ⟨3, .retriesOutOfRange "9223372036854775808" "e"⟩ ∧
      ∃ (k : Nat) (trail : Trail longRetries), k ≤ (tokenize longRetries).1.length ∧
        trail.moment.read = (tokenize longRetries).1.take k ∧
        3 = lineOf longRetries (tokenize longRetries).1[k]? := by
  have hcause : (match parse longRetries with | .ok _ => none | .error e => some e) =
      some ⟨3, .retriesOutOfRange "9223372036854775808" "e"⟩ := by decide +kernel
  have herror : parse longRetries = .error ⟨3, .retriesOutOfRange "9223372036854775808" "e"⟩ := by
    cases hresult : parse longRetries with
    | ok p => simp [hresult] at hcause
    | error e => simpa [hresult] using hcause
  obtain ⟨k, trail, hk, -, hread, hahead, hline⟩ :=
    (error_line_follows_lookahead longRetries).2.2 _ herror
  exact ⟨herror, k, trail, hk, hread, hline⟩

end SlipStack.Lap
