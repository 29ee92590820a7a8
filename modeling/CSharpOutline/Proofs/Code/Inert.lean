import CSharpOutline.Code.Balance
import CSharpOutline.Code.Comment
import CSharpOutline.Proofs.Text.Visible

/-!
# Characters that the lexer does not look at

Nine characters can change what the lexer reads next: the quotes, the slash and the star, the
marks `@`, `$` and `=`, the backslash and the line break. All others are *inert*. Which of the
inert characters is read makes no difference to the lexer, and reading two of them leaves it where
one does. So a run of blanks inside a line may be shortened to a space, and beside an inert
character it may be left out, and the lexer is none the wiser.

A text *ends in code* when no literal or comment is open at its end. A line that does is a good
place to go on from: after a blank the lexer is as good as new (`run_append_of_endsInCode`), which
is what lets a line be cut there and its pieces be read apart.
-/

namespace CSharpOutline

theorem ne_of_isBlank {c d : Char} (hc : isBlank c = true) (hd : isBlank d = false) : c ≠ d := by
  rintro rfl
  rw [hc] at hd
  exact absurd hd (by decide)

namespace Lexer

/-! ## Inert characters -/

/-- The characters that can change what is read next. -/
def marks : List Char := ['"', '\'', '/', '*', '@', '$', '=', '\\', '\n']

def isInert (c : Char) : Bool := !marks.contains c

theorem isInert_of_isBlank {c : Char} (hb : isBlank c = true) (hn : c ≠ '\n') :
    isInert c = true := by
  have hne : ∀ d, isBlank d = false → c ≠ d := fun d hd ↦ ne_of_isBlank hb hd
  simp [isInert, marks, hn, hne '"' (by decide), hne '\'' (by decide), hne '/' (by decide),
    hne '*' (by decide), hne '@' (by decide), hne '$' (by decide), hne '=' (by decide),
    hne '\\' (by decide)]

theorem ne_of_isInert {c d : Char} (hc : isInert c = true) (hd : d ∈ marks) : c ≠ d := by
  rintro rfl
  simp [isInert, hd] at hc

theorem isInert_of_class {p : Char → Bool} (hp : marks.all (!p ·) = true) {c : Char}
    (hc : p c = true) : isInert c = true := by
  by_contra hinert
  have hmem : c ∈ marks := by simpa [isInert] using hinert
  have hnot := List.all_eq_true.mp hp c hmem
  rw [hc] at hnot
  exact absurd hnot (by decide)

/-- A regular literal is opened by one of the two quotes. -/
def Proper (l : Lexer) : Prop := ∀ q, l.mode = .literal q → q = '"' ∨ q = '\''

theorem proper_fresh : Proper {} := by
  intro q h
  simp at h

private theorem opens?_literal {t : Trail} {c q : Char} (h : t.opens? c = some (.literal q)) :
    q = '"' ∨ q = '\'' := by
  unfold Trail.opens? at h
  split at h
  · next hc =>
    split at h
    · simp at h
    · simp only [Option.some.injEq, Mode.literal.injEq] at h
      exact .inl (h ▸ hc)
  · split at h
    · next hc =>
      simp only [Option.some.injEq, Mode.literal.injEq] at h
      exact .inr (h ▸ hc)
    · split at h
      · simp at h
      · split at h <;> simp at h

private theorem codeStep_literal {t : Trail} {c q : Char} (h : codeStep t c = .literal q) :
    q = '"' ∨ q = '\'' := by
  unfold codeStep at h
  split at h
  · simp at h
  · split at h
    · next m hm =>
      rw [h] at hm
      exact opens?_literal hm
    · simp at h

theorem Proper.step {l : Lexer} (hl : l.Proper) (c : Char) : (l.step c).Proper := by
  intro q hq
  unfold Lexer.step at hq
  cases hm : l.mode with
  | code t =>
    rw [hm] at hq
    exact codeStep_literal hq
  | lineComment =>
    simp only [hm] at hq
    split at hq <;> simp at hq
  | blockComment star =>
    simp only [hm] at hq
    split at hq <;> simp at hq
  | literal quote =>
    simp only [hm] at hq
    unfold literalStep at hq
    split at hq
    · simp at hq
    · split at hq
      · exact hl q (by rw [hm]; simpa using hq)
      · split at hq
        · exact hl q (by rw [hm]; simpa using hq)
        · split at hq
          · simp at hq
          · exact hl q (by rw [hm]; simpa using hq)
  | verbatim =>
    simp only [hm] at hq
    split at hq <;> simp at hq
  | verbatimQuote =>
    simp only [hm] at hq
    split at hq
    · simp at hq
    · exact codeStep_literal hq

theorem Proper.run {l : Lexer} (hl : l.Proper) (t : Text) : (l.run t).Proper := by
  induction t generalizing l with
  | nil => exact hl
  | cons c t ih => exact ih (hl.step c)

end Lexer

/-! ## What the lexer remembers

In code the lexer remembers only what the last character leaves behind: a slash or an equals sign is
remembered behind that very character. -/

/-- The character that leaves a trail behind. -/
def Trail.char? : Trail → Option Char
  | .plain => none
  | .mark => some '@'
  | .markDollar => some '$'
  | .slash => some '/'
  | .equals => some '='

namespace Lexer

private theorem eq_next_of_mode_step {l : Lexer} {c : Char} {t : Trail}
    (h : (l.step c).mode = .code t) : t = .plain ∨ ∃ t' : Trail, t = t'.next c := by
  have hcode : ∀ t' : Trail, codeStep t' c = .code t →
      t = .plain ∨ ∃ t' : Trail, t = t'.next c := by
    intro t' ht
    rw [codeStep] at ht
    split at ht
    · exact .inl (Mode.code.inj ht).symm
    · cases hopens : t'.opens? c with
      | some m =>
        rw [hopens] at ht
        rw [Trail.opens?] at hopens
        grind
      | none =>
        rw [hopens] at ht
        exact .inr ⟨t', (Mode.code.inj ht).symm⟩
  obtain ⟨mode, escaping⟩ := l
  cases mode with
  | code t' => exact hcode t' h
  | lineComment => simp only [step] at h; grind
  | blockComment star => simp only [step] at h; grind
  | literal quote => simp only [step, literalStep] at h; grind
  | verbatim => simp only [step] at h; grind
  | verbatimQuote =>
    simp only [step] at h
    split at h
    · simp at h
    · exact hcode .plain h

theorem eq_of_mode_step {l : Lexer} {c d : Char} {t : Trail} (h : (l.step c).mode = .code t)
    (hd : t.char? = some d) : c = d := by
  rcases eq_next_of_mode_step h with rfl | ⟨t', rfl⟩
  · simp [Trail.char?] at hd
  · rw [Trail.next] at hd
    grind [Trail.char?]

/-! ## Reading inert characters

The lexer does not tell inert characters apart, and after a second one it is where the first one
left it. So a run of blanks is read like a single space. -/

theorem opens?_of_isInert {c : Char} (hc : isInert c = true) (t : Trail) : t.opens? c = none := by
  simp [Trail.opens?, ne_of_isInert hc (d := '"') (by decide),
    ne_of_isInert hc (d := '\'') (by decide), ne_of_isInert hc (d := '/') (by decide),
    ne_of_isInert hc (d := '*') (by decide)]

theorem codeStep_of_isInert {c : Char} (hc : isInert c = true) (t : Trail) :
    codeStep t c = .code .plain := by
  simp [codeStep, opens?_of_isInert hc, Trail.next, ne_of_isInert hc (d := '\n') (by decide),
    ne_of_isInert hc (d := '@') (by decide), ne_of_isInert hc (d := '$') (by decide),
    ne_of_isInert hc (d := '/') (by decide), ne_of_isInert hc (d := '=') (by decide)]

theorem isCode_of_isInert {c : Char} (hc : isInert c = true) (l : Lexer) :
    l.isCode c = (l.mode.trail? ' ').isSome := by
  unfold isCode Mode.trail?
  cases l.mode <;>
    simp [opens?_of_isInert hc, ne_of_isInert hc (d := '\n') (by decide),
      ne_of_isInert hc (d := '"') (by decide)]

private theorem isCode_eq_isCode_space {c : Char} (hc : isInert c = true) (l : Lexer) :
    l.isCode c = l.isCode ' ' := by
  rw [isCode_of_isInert hc, isCode_of_isInert (by decide)]

/-- The lexer does not tell inert characters apart. -/
theorem step_eq_step_space {l : Lexer} (hl : l.Proper) {c : Char} (hc : isInert c = true) :
    l.step c = l.step ' ' := by
  have hspace : isInert ' ' = true := by decide
  unfold step
  cases hm : l.mode with
  | code t => simp only [codeStep_of_isInert hc, codeStep_of_isInert hspace]
  | lineComment => simp [ne_of_isInert hc (d := '\n') (by decide)]
  | blockComment star =>
    simp [ne_of_isInert hc (d := '/') (by decide), ne_of_isInert hc (d := '*') (by decide)]
  | literal quote =>
    have hquote : c ≠ quote ∧ ' ' ≠ quote := by
      rcases hl quote hm with rfl | rfl
      · exact ⟨ne_of_isInert hc (by decide), by decide⟩
      · exact ⟨ne_of_isInert hc (by decide), by decide⟩
    simp [literalStep, ne_of_isInert hc (d := '\n') (by decide),
      ne_of_isInert hc (d := '\\') (by decide), hquote]
  | verbatim => simp [ne_of_isInert hc (d := '"') (by decide)]
  | verbatimQuote =>
    simp [ne_of_isInert hc (d := '"') (by decide), codeStep_of_isInert hc,
      codeStep_of_isInert hspace]

/-- A second space leaves the lexer where the first one did. -/
theorem step_space_space {l : Lexer} (hl : l.Proper) : (l.step ' ').step ' ' = l.step ' ' := by
  have hspace : isInert ' ' = true := by decide
  obtain ⟨mode, escaping⟩ := l
  cases mode with
  | code t => simp [step, codeStep_of_isInert hspace]
  | lineComment => simp [step]
  | blockComment star => simp [step]
  | literal quote =>
    have hquote : ' ' ≠ quote := by rcases hl quote rfl with rfl | rfl <;> decide
    cases escaping <;> simp [step, literalStep, hquote]
  | verbatim => simp [step]
  | verbatimQuote => simp [step, codeStep_of_isInert hspace]

theorem step_step_of_isInert {l : Lexer} (hl : l.Proper) {c d : Char} (hc : isInert c = true)
    (hd : isInert d = true) : (l.step c).step d = l.step ' ' := by
  rw [step_eq_step_space (hl.step c) hd, step_eq_step_space hl hc, step_space_space hl]

theorem run_blanks {l : Lexer} (hl : l.Proper) {w : Text} (hne : w ≠ [])
    (hb : w.allBlank = true) (hn : '\n' ∉ w) : l.run w = l.step ' ' := by
  induction w generalizing l with
  | nil => exact absurd rfl hne
  | cons c w ih =>
    have hc : isInert c = true :=
      isInert_of_isBlank (by simp_all) fun h ↦ hn (by rw [h]; exact List.mem_cons_self)
    rw [run_cons, step_eq_step_space hl hc]
    by_cases hw : w = []
    · rw [hw, run_nil]
    · rw [ih (hl.step ' ') hw (by simp_all) fun h ↦ hn (List.mem_cons_of_mem _ h),
        step_space_space hl]

private theorem isCode_step_space {l : Lexer} (hl : l.Proper) :
    (l.step ' ').isCode ' ' = l.isCode ' ' := by
  have hspace : isInert ' ' = true := by decide
  obtain ⟨mode, escaping⟩ := l
  cases mode with
  | code t => simp [isCode, step, codeStep_of_isInert hspace, Mode.trail?, opens?_of_isInert hspace]
  | lineComment => simp [isCode, step, Mode.trail?]
  | blockComment star => simp [isCode, step, Mode.trail?]
  | literal quote =>
    have hquote : ' ' ≠ quote := by rcases hl quote rfl with rfl | rfl <;> decide
    cases escaping <;> simp [isCode, step, literalStep, hquote, Mode.trail?]
  | verbatim => simp [isCode, step, Mode.trail?]
  | verbatimQuote =>
    simp [isCode, step, codeStep_of_isInert hspace, Mode.trail?, opens?_of_isInert hspace]

private theorem closesArrow_step_space (l : Lexer) (c : Char) :
    (l.step ' ').closesArrow c = false := by
  have hspace : isInert ' ' = true := by decide
  obtain ⟨mode, escaping⟩ := l
  cases mode with
  | code t => simp [closesArrow, step, codeStep_of_isInert hspace]
  | lineComment => simp [closesArrow, step]
  | blockComment star => simp [closesArrow, step]
  | literal quote => simp [closesArrow, step, literalStep]; grind
  | verbatim => simp [closesArrow, step]
  | verbatimQuote => simp [closesArrow, step, codeStep_of_isInert hspace]

end Lexer

/-! ## Balances -/

namespace Balance

def Proper (b : Balance) : Prop := b.lexer.Proper

theorem proper_fresh : fresh.Proper := Lexer.proper_fresh

theorem Proper.step {b : Balance} (hb : b.Proper) (c : Char) : (b.step c).Proper :=
  Lexer.Proper.step hb c

theorem Proper.run {b : Balance} (hb : b.Proper) (t : Text) : (b.run t).Proper := by
  rw [Proper, run_lexer]
  exact Lexer.Proper.run hb t

def isUncounted (c : Char) : Bool :=
  (Bracket.ofOpener? c).isNone && (Bracket.ofCloser? c).isNone

theorem isUncounted_of_class {p : Char → Bool}
    (hp : ['<', '(', '{', '>', ')', '}'].all (!p ·) = true) {c : Char} (hc : p c = true) :
    isUncounted c = true := by
  simp only [List.all_cons, List.all_nil, Bool.and_true, Bool.and_eq_true, Bool.not_eq_true'] at hp
  have hne : ∀ d, p d = false → c ≠ d := by
    rintro d hd rfl
    rw [hc] at hd
    exact absurd hd (by decide)
  obtain ⟨h₁, h₂, h₃, h₄, h₅, h₆⟩ := hp
  have hopen : Bracket.ofOpener? c = none := by
    unfold Bracket.ofOpener?
    split
    · exact absurd rfl (hne '<' h₁)
    · exact absurd rfl (hne '(' h₂)
    · exact absurd rfl (hne '{' h₃)
    · rfl
  have hclose : Bracket.ofCloser? c = none := by
    unfold Bracket.ofCloser?
    split
    · exact absurd rfl (hne '>' h₄)
    · exact absurd rfl (hne ')' h₅)
    · exact absurd rfl (hne '}' h₆)
    · rfl
  rw [isUncounted, hopen, hclose]
  rfl

theorem isUncounted_of_isBlank {c : Char} (h : isBlank c = true) : isUncounted c = true :=
  isUncounted_of_class (by decide) h

theorem depths_step_of_isCode {b : Balance} {c : Char} (h : b.isCode c = false) :
    (b.step c).depths = b.depths := by
  rw [step, h]
  rfl

theorem depths_step_of_isUncounted {c : Char} (h : isUncounted c = true) (b : Balance) :
    (b.step c).depths = b.depths := by
  rw [isUncounted, Bool.and_eq_true, Option.isNone_iff_eq_none, Option.isNone_iff_eq_none] at h
  simp [step, count, h.1, h.2]

theorem ext_of {b b' : Balance} (hl : b.lexer = b'.lexer) (hd : b.depths = b'.depths)
    (hc : b.countsAngles = b'.countsAngles) : b = b' := by
  cases b; cases b'; simp_all

theorem run_blanks {b : Balance} (hb : b.Proper) {w : Text} (hne : w ≠ [])
    (hw : w.allBlank = true) (hn : '\n' ∉ w) : b.run w = b.step ' ' := by
  have hdepths : ∀ {b : Balance} {w : Text}, w.allBlank = true → (b.run w).depths = b.depths := by
    intro b w hw
    induction w generalizing b with
    | nil => rfl
    | cons c w ih =>
      rw [Text.allBlank_cons, Bool.and_eq_true] at hw
      rw [run_cons, ih hw.2, depths_step_of_isUncounted (isUncounted_of_isBlank hw.1)]
  have hcounts : ∀ {b : Balance} {w : Text}, (b.run w).countsAngles = b.countsAngles := by
    intro b w
    induction w generalizing b with
    | nil => rfl
    | cons c w ih => rw [run_cons, ih, step_countsAngles]
  refine ext_of ?_ ?_ ?_
  · rw [run_lexer, Lexer.run_blanks hb hne hw hn, step_lexer]
  · rw [hdepths hw, depths_step_of_isUncounted (by decide)]
  · rw [hcounts, step_countsAngles]

/-- A space after an inert character that is no closing one is not noticed. -/
theorem step_space_of_isInert {b : Balance} (hb : b.Proper) {c : Char}
    (hc : Lexer.isInert c = true) : (b.step c).step ' ' = b.step c := by
  refine ext_of ?_ ?_ rfl
  · rw [step_lexer, step_lexer, Lexer.step_step_of_isInert hb hc (by decide),
      Lexer.step_eq_step_space hb hc]
  · exact depths_step_of_isUncounted (by decide) _

/-- A space in front of an inert character is not noticed, unless it parts an arrow. -/
theorem step_space_step {b : Balance} (hb : b.Proper) {c : Char} (hc : Lexer.isInert c = true)
    (harrow : b.lexer.closesArrow c = false) : (b.step ' ').step c = b.step c := by
  have hcode : (b.step ' ').isCode c = b.isCode c := by
    rw [isCode, isCode, step_lexer, Lexer.isCode_eq_isCode_space hc,
      Lexer.isCode_eq_isCode_space hc, Lexer.isCode_step_space hb]
  have hcount : (b.step ' ').count c = b.count c := by
    simp only [count, counts, step_countsAngles, step_lexer, harrow,
      Lexer.closesArrow_step_space, depths_step_of_isUncounted (c := ' ') (by decide)]
    rfl
  refine ext_of ?_ ?_ rfl
  · rw [step_lexer, step_lexer, step_lexer, Lexer.step_step_of_isInert hb (by decide) hc,
      Lexer.step_eq_step_space hb hc]
  · rw [step, hcode, hcount, depths_step_of_isUncounted (by decide)]
    rfl

end Balance

/-! ## Texts that end in code -/

/-- Whether a blank after a text would be read as code: no literal and no comment is open at the
end of it. -/
def Text.endsInCode (t : Text) : Bool := (Lexer.run {} t).isCode ' '

namespace Lexer

/-- An inert character that is read as code leaves the lexer in code with nothing to remember. -/
theorem mode_step_of_isCode {l : Lexer} {c : Char} (hc : isInert c = true)
    (h : l.isCode c = true) :
    (l.step c).mode = .code .plain ∧ (l.step c).escaping = l.escaping := by
  rw [isCode_of_isInert hc] at h
  obtain ⟨mode, escaping⟩ := l
  cases mode with
  | code t => simp [step, codeStep_of_isInert hc]
  | verbatimQuote =>
    simp [step, codeStep_of_isInert hc, ne_of_isInert hc (d := '"') (by decide)]
  | lineComment => simp [Mode.trail?] at h
  | blockComment star => simp [Mode.trail?] at h
  | literal quote => simp [Mode.trail?] at h
  | verbatim => simp [Mode.trail?] at h

theorem mode_step_space {l : Lexer} (h : l.isCode ' ' = true) :
    (l.step ' ').mode = .code .plain ∧ (l.step ' ').escaping = l.escaping :=
  mode_step_of_isCode (by decide) h

/-- Only inside a regular literal is the next character taken as it is. -/
def EscapesInLiteral (l : Lexer) : Prop := l.escaping = true → ∃ q, l.mode = .literal q

theorem escaping_step_of_ne_literal {l : Lexer} (h : ∀ q, l.mode ≠ .literal q) (c : Char) :
    (l.step c).escaping = l.escaping := by
  unfold Lexer.step
  cases hm : l.mode with
  | literal quote => exact absurd hm (h quote)
  | _ => rfl

theorem EscapesInLiteral.step {l : Lexer} (hl : l.EscapesInLiteral) {c : Char} (hc : c ≠ '\n') :
    (l.step c).EscapesInLiteral := by
  intro h
  by_cases hlit : ∃ quote, l.mode = .literal quote
  · obtain ⟨quote, hm⟩ := hlit
    simp only [Lexer.step, hm, literalStep, if_neg hc] at h ⊢
    split at h
    · simp at h
    · next hesc =>
      split at h
      · next hback => exact ⟨quote, by rw [if_neg hesc, if_pos hback]⟩
      · split at h <;> simp at h
  · have hne : ∀ q, l.mode ≠ .literal q := fun q hq ↦ hlit ⟨q, hq⟩
    rw [escaping_step_of_ne_literal hne] at h
    exact absurd (hl h) hlit

theorem EscapesInLiteral.run {l : Lexer} (hl : l.EscapesInLiteral) {t : Text} (ht : '\n' ∉ t) :
    (l.run t).EscapesInLiteral := by
  induction t generalizing l with
  | nil => exact hl
  | cons c t ih =>
    have hc : c ≠ '\n' := fun h ↦ ht (by rw [h]; exact List.mem_cons_self)
    exact ih (hl.step hc) fun h ↦ ht (List.mem_cons_of_mem _ h)

/-- Where a line ends in code, reading goes on after a run of blanks as at the start. -/
theorem run_append_of_endsInCode {t w : Text} (ht : '\n' ∉ t) (h : t.endsInCode = true)
    (hne : w ≠ []) (hb : w.allBlank = true) (hn : '\n' ∉ w) : run {} (t ++ w) = {} := by
  have hescapes : (run {} t).EscapesInLiteral :=
    EscapesInLiteral.run (fun h ↦ absurd h (by decide)) ht
  obtain ⟨hmode, hescaping⟩ := mode_step_space h
  have hfalse : (run {} t).escaping = false := by
    rw [← Bool.not_eq_true]
    intro htrue
    obtain ⟨q, hq⟩ := hescapes htrue
    simp [Text.endsInCode, isCode, hq, Mode.trail?] at h
  rw [run_append, run_blanks (proper_fresh.run t) hne hb hn]
  generalize (run {} t).step ' ' = l at hmode hescaping
  obtain ⟨mode, escaping⟩ := l
  obtain rfl : mode = .code .plain := hmode
  obtain rfl : escaping = false := hescaping.trans hfalse
  rfl

/-! ## Line comments

A line that is not in a line comment at its end has none and is kept whole. Where one starts behind
a space, the text in front of it is what the line says. -/

/-- A text without a line comment, followed by something other than a slash, is kept whole. -/
theorem beforeComment_append {l : Lexer} {s t : Text} (hs : l.beforeComment s = s)
    (ht : t.head? ≠ some '/') : l.beforeComment (s ++ t) = s ++ (l.run s).beforeComment t := by
  induction s generalizing l with
  | nil => rfl
  | cons c s ih =>
    rw [beforeComment] at hs
    split at hs
    · exact absurd hs (by simp)
    · next hc =>
      rw [List.cons_append, beforeComment, if_neg, ih (List.cons.inj hs).2]
      · rfl
      · rintro ⟨hmode, hhead⟩
        cases s with
        | nil => exact ht hhead
        | cons d s => exact hc ⟨hmode, hhead⟩

private theorem run_lineComment {l : Lexer} (hl : l.mode = .lineComment) {t : Text}
    (ht : '\n' ∉ t) : (l.run t).mode = .lineComment := by
  induction t generalizing l with
  | nil => exact hl
  | cons c t ih =>
    have hc : c ≠ '\n' := fun h ↦ ht (by rw [h]; exact List.mem_cons_self)
    exact ih (by simp [step, hl, hc]) fun h ↦ ht (List.mem_cons_of_mem _ h)

/-- A slash read in code starts a line comment if another one stands in front of it. -/
theorem mode_step_slash {l : Lexer} {t : Trail} (hl : l.mode = .code t) :
    (l.step '/').mode = if t = .slash then .lineComment else .code .slash := by
  unfold step
  rw [hl]
  cases t <;> rfl

theorem beforeComment_eq_self {l : Lexer} {t : Text} (ht : '\n' ∉ t)
    (h : (l.run t).mode ≠ .lineComment) : l.beforeComment t = t := by
  induction t generalizing l with
  | nil => rfl
  | cons c t ih =>
    have hn : '\n' ∉ t := fun h' ↦ ht (List.mem_cons_of_mem _ h')
    rw [beforeComment, if_neg, ih hn h]
    rintro ⟨hmode, hhead⟩
    obtain ⟨t, rfl⟩ : ∃ r, t = '/' :: r := by
      cases t with
      | nil => simp at hhead
      | cons d t => exact ⟨t, by simpa using hhead⟩
    refine h (run_lineComment (l := (l.step c).step '/') ?_ fun h' ↦ hn (List.mem_cons_of_mem _ h'))
    rw [mode_step_slash hmode, if_pos rfl]

theorem mode_ne_lineComment {l : Lexer} (h : l.isCode ' ' = true) : l.mode ≠ .lineComment := by
  intro hm
  simp [isCode, hm, Mode.trail?] at h

/-- Where a comment starts after a space, the text in front of it is what the line says. -/
theorem beforeComment_comment {l : Lexer} (h : l.isCode ' ' = true) (t : Text) :
    l.beforeComment (' ' :: '/' :: '/' :: t) = [' '] := by
  obtain ⟨hmode, -⟩ := mode_step_space h
  rw [beforeComment, if_neg (by simp [hmode]), beforeComment, if_pos]
  exact ⟨mode_step_slash hmode, rfl⟩

end Lexer

end CSharpOutline
