import CSharpOutline.Proofs.Code.Tokens

/-!
# Recovery at a line break

Only a verbatim string or a block comment goes on over the end of a line. In every other state a
line break brings the lexer back into code with nothing to remember of the line (`step_newline`): an
open literal is given up, a comment is over, and neither a mark nor a slash at the end of the line
reaches into the next one.

One thing is left. The flag that takes the next character of a literal as it is belongs to the lexer
and not to the literal, and a line break does not take it back. Where a literal is cut off right
behind a backslash, the flag waits for the next literal and hides a character of it. So the lexer
goes on as a fresh one exactly if the flag is not set (`Balance.seen_newline_iff`), which is so
wherever no line ends in a backslash (`Lexer.escaping_run`).
-/

namespace CSharpOutline

/-- Whether a literal or comment that is being read goes on over the end of the line. -/
def Mode.spansLines : Mode → Bool
  | .blockComment _ => true
  | .verbatim => true
  | _ => false

def Mode.isLiteral : Mode → Bool
  | .literal _ => true
  | _ => false

namespace Lexer

theorem step_newline {l : Lexer} (h : l.mode.spansLines = false) :
    l.step '\n' = ⟨.code .plain, l.escaping⟩ := by
  obtain ⟨mode, escaping⟩ := l
  cases mode with
  | code t => simp [step, codeStep]
  | lineComment => simp [step]
  | literal quote => simp [step, literalStep]
  | verbatimQuote => simp [step, codeStep]
  | blockComment star => simp [Mode.spansLines] at h
  | verbatim => simp [Mode.spansLines] at h

private theorem escaping_step {l : Lexer} (hl : l.escaping = false) {c : Char}
    (h : (l.step c).escaping = true) : c = '\\' ∧ ∃ q, (l.step c).mode = .literal q := by
  obtain ⟨mode, escaping⟩ := l
  obtain rfl : escaping = false := hl
  cases mode with
  | literal quote =>
    simp only [step, literalStep] at h ⊢
    grind
  | _ => simp [step] at h

private theorem escaping_step_literal {l : Lexer} {q : Char} (hl : l.mode = .literal q)
    (hescaping : l.escaping = true) {c : Char} (hc : c ≠ '\n') : (l.step c).escaping = false := by
  simp [step, hl, literalStep, hescaping, hc]

/-- Whether no regular literal of a text is open at a line break. -/
def closesLiterals (l : Lexer) : Text → Bool
  | [] => true
  | c :: t => !(c == '\n' && l.mode.isLiteral) && (l.step c).closesLiterals t

theorem EscapesInLiteral.run_of_closesLiterals {l : Lexer} (hl : l.EscapesInLiteral) {t : Text}
    (ht : l.closesLiterals t = true) : (l.run t).EscapesInLiteral := by
  induction t generalizing l with
  | nil => exact hl
  | cons c t ih =>
    rw [closesLiterals, Bool.and_eq_true] at ht
    obtain ⟨hbreak, ht⟩ := ht
    refine ih ?_ ht
    by_cases hc : c = '\n'
    · have hmode : ∀ q, l.mode ≠ .literal q := by
        intro q hq
        rw [hc, hq] at hbreak
        exact absurd hbreak (by simp [Mode.isLiteral])
      intro hescaping
      rw [escaping_step_of_ne_literal hmode] at hescaping
      obtain ⟨q, hq⟩ := hl hescaping
      exact absurd hq (hmode q)
    · exact hl.step hc

end Lexer

namespace Text

theorem lines_newline (t : Text) : lines ('\n' :: t) = [] :: t.lines := by
  rw [lines, if_pos rfl]

theorem exists_lines_cons {c : Char} (hc : c ≠ '\n') (t : Text) :
    ∃ first rest, t.lines = first :: rest ∧ lines (c :: t) = (c :: first) :: rest := by
  obtain ⟨first, rest, ht⟩ := List.exists_cons_of_ne_nil (lines_ne_nil t)
  refine ⟨first, rest, ht, ?_⟩
  rw [lines, if_neg hc, ht, List.modifyHead_cons]

/-- No line of a text ends in a backslash. -/
def EndsUnescaped (t : Text) : Prop := ∀ line ∈ t.lines, line.getLast? ≠ some '\\'

theorem EndsUnescaped.of_cons {c : Char} {t : Text} (h : EndsUnescaped (c :: t)) :
    t.EndsUnescaped := by
  by_cases hc : c = '\n'
  · rw [EndsUnescaped, hc, lines_newline, List.forall_mem_cons] at h
    exact h.2
  · obtain ⟨first, rest, ht, hct⟩ := exists_lines_cons hc t
    rw [EndsUnescaped, hct, List.forall_mem_cons] at h
    rw [EndsUnescaped, ht, List.forall_mem_cons]
    refine ⟨fun hlast ↦ h.1 ?_, h.2⟩
    rw [List.getLast?_cons, hlast]
    rfl

private theorem EndsUnescaped.exists_cons {t : Text} (h : EndsUnescaped ('\\' :: t)) :
    ∃ c r, t = c :: r ∧ c ≠ '\n' := by
  have hne : ∀ first rest, t.lines = first :: rest → first ≠ [] := by
    rintro first rest ht rfl
    obtain ⟨first', rest', ht', hlines⟩ := exists_lines_cons (c := '\\') (by decide) t
    obtain ⟨rfl, rfl⟩ := List.cons.inj (ht.symm.trans ht')
    rw [EndsUnescaped, hlines, List.forall_mem_cons] at h
    exact h.1 rfl
  cases t with
  | nil => exact absurd rfl (hne [] [] rfl)
  | cons c r =>
    refine ⟨c, r, rfl, ?_⟩
    rintro rfl
    exact hne [] (lines r) (lines_newline r) rfl

end Text

namespace Lexer

private theorem escaping_run {l : Lexer} (hl : l.escaping = false) {t : Text}
    (ht : t.EndsUnescaped) : (l.run t).escaping = false := by
  -- two characters at a time: what a backslash sets the next character takes back
  induction hn : t.length using Nat.strongRecOn generalizing l t with
  | ind n ih =>
    subst hn
    cases t with
    | nil => exact hl
    | cons c t =>
      rw [run_cons]
      cases hstep : (l.step c).escaping with
      | false => exact ih t.length (by simp) hstep ht.of_cons rfl
      | true =>
        obtain ⟨rfl, q, hq⟩ := escaping_step hl hstep
        obtain ⟨d, r, rfl, hd⟩ := ht.exists_cons
        have hlength : r.length < ('\\' :: d :: r).length := by
          rw [List.length_cons, List.length_cons]
          omega
        rw [run_cons]
        exact ih r.length hlength (escaping_step_literal hq hstep hd) ht.of_cons.of_cons rfl

end Lexer

namespace Balance

/-- What can be seen of a balance that reads a text: for each character whether it is code, and the
depths after it. -/
def seen (b : Balance) (t : Text) : List (Bool × Depths) :=
  (b.trace t).map fun answer ↦ (answer.1, answer.2.depths)

/-- The balance with its depths kept and a fresh lexer. -/
def restart (b : Balance) : Balance := { b with lexer := {} }

theorem step_newline {b : Balance} (h : b.lexer.mode.spansLines = false) :
    b.step '\n' = { b with lexer := ⟨.code .plain, b.lexer.escaping⟩ } := by
  refine ext_of ?_ (depths_step_of_isUncounted (by decide) b) rfl
  rw [step_lexer, Lexer.step_newline h]

private theorem map_fst_seen (b : Balance) (t : Text) :
    (b.seen t).map Prod.fst = b.lexer.readMask t := by
  rw [← map_fst_trace, seen, List.map_map]
  rfl

/-- A literal that starts with the flag set swallows its own closing quote, and so what follows. -/
theorem escaping_eq_false_of_seen {b : Balance} (hmode : b.lexer.mode = .code .plain)
    (h : b.seen "\"\"(".toList = b.restart.seen "\"\"(".toList) : b.lexer.escaping = false := by
  have hmask := congrArg (List.map Prod.fst) h
  rw [map_fst_seen, map_fst_seen] at hmask
  rw [← Bool.not_eq_true]
  intro htrue
  have hlexer : b.lexer = ⟨.code .plain, true⟩ := by
    rw [← hmode, ← htrue]
  have hfresh : b.restart.lexer = {} := rfl
  rw [hlexer, hfresh] at hmask
  exact absurd hmask (by decide)

private theorem seen_step_newline {b : Balance} (hb : b.lexer.mode.spansLines = false) :
    (∀ u, (b.step '\n').seen u = (b.step '\n').restart.seen u) ↔ b.lexer.escaping = false := by
  have hstep := step_newline hb
  constructor
  · intro h
    have hescaping := escaping_eq_false_of_seen (by rw [hstep]) (h _)
    rwa [hstep] at hescaping
  · intro h u
    rw [hstep, h]
    rfl

/-- After a line break that no verbatim string and no block comment spans, a balance goes on as a
fresh one with the same depths exactly if no character is left to be taken as it is. That holds
wherever no line ends in a backslash. -/
theorem seen_newline_iff (countsAngles : Bool) {t : Text}
    (ht : (run { countsAngles } t).lexer.mode.spansLines = false) :
    ((∀ u, ((run { countsAngles } t).step '\n').seen u =
        ((run { countsAngles } t).step '\n').restart.seen u) ↔
      (run { countsAngles } t).lexer.escaping = false) ∧
    (t.EndsUnescaped → (run { countsAngles } t).lexer.escaping = false) := by
  refine ⟨seen_step_newline ht, fun h ↦ ?_⟩
  rw [run_lexer]
  exact Lexer.escaping_run rfl h

theorem seen_newline_iff_openLiteral :
    (run {} "f(\"a\\\"".toList).lexer.mode.spansLines = false ∧
      Text.EndsUnescaped "f(\"a\\\"".toList ∧
      ∀ u, ((run {} "f(\"a\\\"".toList).step '\n').seen u =
        ((run {} "f(\"a\\\"".toList).step '\n').restart.seen u := by
  have hmode : (run {} "f(\"a\\\"".toList).lexer.mode.spansLines = false := by decide
  have hends : Text.EndsUnescaped "f(\"a\\\"".toList := by
    rw [Text.EndsUnescaped]
    decide
  have hrecovers := seen_newline_iff true hmode
  exact ⟨hmode, hends, hrecovers.1.mpr (hrecovers.2 hends)⟩

/-- Where a literal is cut off behind a backslash, the next line is not read as a fresh balance
would read it: a bracket behind an empty literal is lost. -/
theorem seen_newline_ne :
    (run {} "\"\\".toList).lexer.mode.spansLines = false ∧
      ((run {} "\"\\".toList).step '\n').seen "\"\"(".toList =
        [(false, ⟨0, 0, 0⟩), (false, ⟨0, 0, 0⟩), (false, ⟨0, 0, 0⟩)] ∧
      ((run {} "\"\\".toList).step '\n').restart.seen "\"\"(".toList =
        [(false, ⟨0, 0, 0⟩), (false, ⟨0, 0, 0⟩), (true, ⟨0, 1, 0⟩)] := by
  decide

end Balance

end CSharpOutline
