import CSharpOutline.Code.Token
import CSharpOutline.Proofs.Code.Inert

/-!
# The lexer reads tokens

The tokens of a line are cut off with lookahead, the lexer decides at each character from the state
it is in. The two agree on every line (`Balance.reads_tokens`): the lexer takes for code the
characters that are tokens of their own and the slash that a comment starts with, the depths are
counted along the code characters, and a line loses its line comment exactly where the tokens have
one.

Between two tokens the lexer is in code, and all that it remembers is told by the last two
characters (`Trail.after`). From there each kind of token is read to its end and leaves the lexer in
code again (`Lexer.Passes`), so the agreement follows the division into tokens. The one state in
between is the one after the closing quote of a verbatim string; since the next character does not
double the quote, it is read as if the string were over.
-/

namespace CSharpOutline

/-! ## What the tokens say of each character -/

namespace Token

/-- For each character of a token whether it is code. -/
def codeMask : Token → List Bool
  | .code _ => [true]
  | token => token.text.map fun _ ↦ false

/-- For each character of a token whether the lexer takes it for code. The slash that a comment
starts with is taken for code, because only the next character tells. -/
def readMask : Token → List Bool
  | .lineComment body => true :: false :: body.map fun _ ↦ false
  | .blockComment body => true :: false :: body.map fun _ ↦ false
  | token => token.codeMask

def isLineComment : Token → Bool
  | .lineComment _ => true
  | _ => false

private theorem length_codeMask (token : Token) : token.codeMask.length = token.text.length := by
  cases token <;> simp [codeMask, text]

private theorem length_readMask (token : Token) : token.readMask.length = token.text.length := by
  cases token <;> simp [readMask, codeMask, text]

/-- The two masks differ at slashes only. -/
theorem readMask_eq_codeMask (token : Token) {n : Nat} {c : Char} (h : token.text[n]? = some c)
    (hc : c ≠ '/') : token.readMask[n]? = token.codeMask[n]? := by
  cases token with
  | lineComment body =>
    cases n with
    | zero => exact absurd (Option.some.inj h).symm hc
    | succ n => rfl
  | blockComment body =>
    cases n with
    | zero => exact absurd (Option.some.inj h).symm hc
    | succ n => rfl
  | _ => rfl

end Token

namespace Text

/-- For each character of a line whether it is code. -/
def codeMask (t : Text) : List Bool := t.tokens.flatMap Token.codeMask

/-- Whether the character at an offset is the `>` of an arrow. -/
def closesArrowAt (t : Text) (n : Nat) : Bool :=
  t[n]? == some '>' && 0 < n && t[n - 1]? == some '='

/-- The number of brackets of kind `k` that are open after the first `n` characters of a line: each
opener that is code adds one, each closer that is code takes one away if there is one. The `>` of
an arrow is no closer. -/
def depthAfter (t : Text) (k : Bracket) : Nat → Nat
  | 0 => 0
  | n + 1 =>
    if t.codeMask[n]? = some true then
      if t[n]?.bind Bracket.ofOpener? = some k then t.depthAfter k n + 1
      else if t[n]?.bind Bracket.ofCloser? = some k ∧ t.closesArrowAt n = false then
        t.depthAfter k n - 1
      else t.depthAfter k n
    else t.depthAfter k n

end Text

/-! ## Reading a token

Literals and comments are read to the ends that the tokens find, by induction along their lengths.
Behind them the lexer is in code with nothing to remember. -/

namespace Lexer

def readMask (l : Lexer) : Text → List Bool
  | [] => []
  | c :: t => l.isCode c :: (l.step c).readMask t

/-- No line comment starts in `s`, its characters are read with the answers `mask`, and what follows
is read as from `l'` on. -/
structure Passes (l : Lexer) (s : Text) (mask : List Bool) (l' : Lexer) (rest : Text) : Prop where
  readMask : l.readMask (s ++ rest) = mask ++ l'.readMask rest
  beforeComment : l.beforeComment (s ++ rest) = s ++ l'.beforeComment rest

theorem Passes.nil (l : Lexer) (rest : Text) : l.Passes [] [] l rest := ⟨rfl, rfl⟩

theorem Passes.cons {l l' : Lexer} {c : Char} {s rest : Text} {mask : List Bool}
    (h : (l.step c).Passes s mask l' rest)
    (hslash : (l.step c).mode = .code .slash → (s ++ rest).head? ≠ some '/') :
    l.Passes (c :: s) (l.isCode c :: mask) l' rest := by
  constructor
  · rw [List.cons_append, Lexer.readMask, h.readMask]
    rfl
  · rw [List.cons_append, Lexer.beforeComment, if_neg fun hc ↦ hslash hc.1 hc.2, h.beforeComment]
    rfl

/-- A character that is not code is passed, unless it leaves a slash to remember. -/
theorem Passes.aside {l m l' : Lexer} {c : Char} {s rest : Text} {mask : List Bool}
    (hcode : l.isCode c = false) (hstep : l.step c = m) (hmode : m.mode ≠ .code .slash)
    (h : m.Passes s mask l' rest) : l.Passes (c :: s) (false :: mask) l' rest := by
  subst hstep
  rw [← hcode]
  exact h.cons fun hslash ↦ absurd hslash hmode

/-- The state in code, with what the last two characters leave to remember. -/
def inCode (trail : Trail) : Lexer := ⟨.code trail, false⟩

private theorem passes_blockComment {star : Bool} {t : Text}
    (h : star = true → t.head? ≠ some '/') :
    Passes ⟨.blockComment star, false⟩ (t.take (Token.blockCommentLength t))
      ((t.take (Token.blockCommentLength t)).map fun _ ↦ false) (inCode .plain)
      (t.drop (Token.blockCommentLength t)) := by
  fun_induction Token.blockCommentLength t generalizing star with
  | case1 => exact ⟨rfl, rfl⟩
  | case2 t =>
    have hstar : step ⟨.blockComment star, false⟩ '*' = ⟨.blockComment true, false⟩ := by
      simp [step]
    exact .aside rfl hstar (by simp) (.aside rfl rfl (by simp [step]) (.nil _ _))
  | case3 c t hne ih =>
    -- the comment is not closed here: a star in front is not followed by a slash
    have hopen : ¬(star = true ∧ c = '/') := fun hclose ↦ h hclose.1 (by rw [hclose.2]; rfl)
    have hstep : step ⟨.blockComment star, false⟩ c = ⟨.blockComment (c == '*'), false⟩ := by
      simp [step, hopen]
    refine .aside rfl hstep (by simp) (ih fun hc hhead ↦ ?_)
    cases t with
    | nil => simp at hhead
    | cons d t => exact hne t (by simpa using hc) (by simpa using hhead)

/-- After the closing quote of a verbatim string the lexer reads on as in code. -/
theorem passes_verbatimQuote {t : Text} (h : t.head? ≠ some '"') :
    Passes ⟨.verbatimQuote, false⟩ [] [] (inCode .plain) t := by
  cases t with
  | nil => exact ⟨rfl, rfl⟩
  | cons c t =>
    have hc : c ≠ '"' := fun hc ↦ h (by rw [hc]; rfl)
    have hstep : step ⟨.verbatimQuote, false⟩ c = step (inCode .plain) c := by
      simp [step, inCode, hc]
    have hcode : isCode ⟨.verbatimQuote, false⟩ c = isCode (inCode .plain) c := by
      simp [isCode, Mode.trail?, inCode, hc]
    constructor
    · rw [List.nil_append, Lexer.readMask, Lexer.readMask, hstep, hcode]
      rfl
    · rw [List.nil_append, Lexer.beforeComment, Lexer.beforeComment, hstep]
      rfl

private theorem passes_verbatim (t : Text) :
    Passes ⟨.verbatim, false⟩ (t.take (Token.verbatimLength t))
      ((t.take (Token.verbatimLength t)).map fun _ ↦ false) (inCode .plain)
      (t.drop (Token.verbatimLength t)) := by
  fun_induction Token.verbatimLength t with
  | case1 => exact ⟨rfl, rfl⟩
  | case2 t ih => exact .aside rfl rfl (by decide) (.aside rfl rfl (by decide) ih)
  | case3 t hne =>
    refine .aside rfl rfl (by decide) (passes_verbatimQuote fun hhead ↦ ?_)
    cases t with
    | nil => simp at hhead
    | cons d t => exact hne t (by simpa using hhead)
  | case4 c t _ hquote ih =>
    have hc : c ≠ '"' := hquote
    have hstep : step ⟨.verbatim, false⟩ c = ⟨.verbatim, false⟩ := by simp [step, hc]
    exact .aside rfl hstep (by simp) ih

private theorem passes_literal {quote : Char} (hquote : quote ≠ '\\') {t : Text} (ht : '\n' ∉ t) :
    Passes ⟨.literal quote, false⟩ (t.take (Token.literalLength quote t))
      ((t.take (Token.literalLength quote t)).map fun _ ↦ false) (inCode .plain)
      (t.drop (Token.literalLength quote t)) := by
  fun_induction Token.literalLength quote t with
  | case1 => exact ⟨rfl, rfl⟩
  | case2 c t ih =>
    rw [List.mem_cons, List.mem_cons, not_or, not_or] at ht
    have hescape : step ⟨.literal quote, false⟩ '\\' = ⟨.literal quote, true⟩ := by
      simp [step, literalStep]
    have hescaped : step ⟨.literal quote, true⟩ c = ⟨.literal quote, false⟩ := by
      simp [step, literalStep, Ne.symm ht.2.1]
    exact .aside rfl hescape (by simp) (.aside rfl hescaped (by simp) (ih ht.2.2))
  | case3 t _ =>
    rw [List.mem_cons, not_or] at ht
    have hclose : step ⟨.literal quote, false⟩ quote = inCode .plain := by
      simp [step, literalStep, Ne.symm ht.1, hquote, inCode]
    exact .aside rfl hclose (by simp [inCode]) (.nil _ _)
  | case4 c t hescape hc ih =>
    rw [List.mem_cons, not_or] at ht
    by_cases hback : c = '\\'
    · -- an escape with nothing behind it
      obtain rfl : t = [] := by
        cases t with
        | nil => rfl
        | cons d t => exact absurd rfl (hescape d t hback)
      exact .aside rfl rfl (by simp [step, literalStep, hback]) ⟨rfl, rfl⟩
    · have hstep : step ⟨.literal quote, false⟩ c = ⟨.literal quote, false⟩ := by
        simp [step, literalStep, Ne.symm ht.1, hback, hc]
      exact .aside rfl hstep (by simp) (ih ht.2)

private theorem readMask_lineComment {l : Lexer} (hl : l.mode = .lineComment) {t : Text}
    (ht : '\n' ∉ t) : l.readMask t = t.map fun _ ↦ false := by
  induction t generalizing l with
  | nil => rfl
  | cons c t ih =>
    rw [List.mem_cons, not_or] at ht
    have hcode : l.isCode c = false := by simp [isCode, hl, Mode.trail?]
    have hstep : (l.step c).mode = .lineComment := by simp [step, hl, Ne.symm ht.1]
    rw [readMask, hcode, ih hstep ht.2, List.map_cons]

end Lexer

/-! ## Reading the tokens of a line -/

/-- What the last two characters of code leave to remember. -/
def Trail.after (before last : Option Char) : Trail :=
  if last = some '@' then .mark
  else if last = some '$' ∧ before = some '@' then .markDollar
  else if last = some '/' then .slash
  else if last = some '=' then .equals
  else .plain

namespace Trail

private theorem after_eq_mark_iff {before last : Option Char} :
    after before last = .mark ↔ last = some '@' := by
  unfold after
  split <;> grind

theorem after_eq_slash_iff {before last : Option Char} :
    after before last = .slash ↔ last = some '/' := by
  unfold after
  grind

theorem next_after (before last : Option Char) (c : Char) :
    (after before last).next c = after last (some c) := by
  simp only [next, after_eq_mark_iff]
  simp only [after, Option.some.injEq]

theorem marksVerbatim_after (before last : Option Char) :
    (after before last).marksVerbatim = Token.opensVerbatim before last := by
  unfold after Token.opensVerbatim
  grind [marksVerbatim]

end Trail

namespace Lexer

/-- The lexer agrees with the tokens of a text on which characters are code and on where the line
comment starts. -/
structure Agrees (l : Lexer) (t : Text) (tokens : List Token) : Prop where
  readMask : l.readMask t = tokens.flatMap Token.readMask
  beforeComment :
    l.beforeComment t = ((tokens.takeWhile (!·.isLineComment)).map Token.text).flatten

private theorem Passes.agrees {l l' : Lexer} {token : Token} {t rest : Text} {tokens : List Token}
    (h : l.Passes token.text token.readMask l' rest) (hkind : token.isLineComment = false)
    (ht : token.text ++ rest = t) (hrest : l'.Agrees rest tokens) :
    l.Agrees t (token :: tokens) := by
  subst ht
  constructor
  · rw [h.readMask, hrest.readMask, List.flatMap_cons]
  · rw [h.beforeComment, hrest.beforeComment, List.takeWhile_cons_of_pos (by rw [hkind]; rfl)]
    rfl

section

variable {trail : Trail}

theorem step_inCode_slash (h : trail ≠ .slash) : step (inCode trail) '/' = inCode .slash := by
  simp [step, inCode, codeStep, Trail.opens?, Trail.next, h]

theorem isCode_inCode_slash (h : trail ≠ .slash) : isCode (inCode trail) '/' = true := by
  simp [isCode, inCode, Mode.trail?, Trail.opens?, h]

private theorem agrees_lineComment (h : trail ≠ .slash) {t : Text} (ht : '\n' ∉ t) :
    (inCode trail).Agrees ('/' :: '/' :: t) [.lineComment t] := by
  have hcomment : (step (inCode .slash) '/').mode = .lineComment := rfl
  constructor
  · rw [Lexer.readMask, isCode_inCode_slash h, step_inCode_slash h, Lexer.readMask,
      readMask_lineComment hcomment ht]
    simp [Token.readMask, isCode, inCode, Mode.trail?, Trail.opens?]
  · rw [Lexer.beforeComment, step_inCode_slash h, if_pos ⟨rfl, rfl⟩]
    rfl

private theorem passes_blockCommentToken (h : trail ≠ .slash) (t : Text) :
    (inCode trail).Passes (Token.blockComment (t.take (Token.blockCommentLength t))).text
      (Token.blockComment (t.take (Token.blockCommentLength t))).readMask (inCode .plain)
      (t.drop (Token.blockCommentLength t)) := by
  have hbody : step (inCode .slash) '*' = ⟨.blockComment false, false⟩ := rfl
  have hpass := Passes.aside rfl hbody (by simp)
    (passes_blockComment (t := t) fun h ↦ absurd h (by decide))
  rw [← step_inCode_slash h] at hpass
  have hcons := hpass.cons fun _ ↦ by simp
  rwa [isCode_inCode_slash h] at hcons

private theorem passes_verbatimToken (h : trail.marksVerbatim = true) (t : Text) :
    (inCode trail).Passes (Token.verbatim (t.take (Token.verbatimLength t))).text
      (Token.verbatim (t.take (Token.verbatimLength t))).readMask (inCode .plain)
      (t.drop (Token.verbatimLength t)) := by
  have hopen : step (inCode trail) '"' = ⟨.verbatim, false⟩ := by
    simp [step, inCode, codeStep, Trail.opens?, h]
  refine .aside ?_ hopen (by simp) (passes_verbatim t)
  simp [isCode, inCode, Mode.trail?, Trail.opens?]

private theorem passes_literalToken {quote : Char}
    (h : quote = '"' ∧ trail.marksVerbatim = false ∨ quote = '\'') {t : Text} (ht : '\n' ∉ t) :
    (inCode trail).Passes (Token.literal quote (t.take (Token.literalLength quote t))).text
      (Token.literal quote (t.take (Token.literalLength quote t))).readMask (inCode .plain)
      (t.drop (Token.literalLength quote t)) := by
  have hopen : step (inCode trail) quote = ⟨.literal quote, false⟩ ∧
      isCode (inCode trail) quote = false ∧ quote ≠ '\\' := by
    rcases h with ⟨rfl, hmark⟩ | rfl
    · simp [step, inCode, codeStep, isCode, Mode.trail?, Trail.opens?, hmark]
    · simp [step, inCode, codeStep, isCode, Mode.trail?, Trail.opens?]
  exact .aside hopen.2.1 hopen.1 (by simp) (passes_literal hopen.2.2 ht)

private theorem passes_codeToken {c : Char} {rest : Text} (hc : c ≠ '\n')
    (hopen : trail.opens? c = none) (hrest : c = '/' → rest.head? ≠ some '/') :
    (inCode trail).Passes [c] [true] (inCode (trail.next c)) rest := by
  have hstep : step (inCode trail) c = inCode (trail.next c) := by
    simp [step, inCode, codeStep, hc, hopen]
  have hcode : isCode (inCode trail) c = true := by
    simp [isCode, inCode, Mode.trail?, hc, hopen]
  have hpass := Passes.nil (inCode (trail.next c)) rest
  rw [← hstep] at hpass
  have hcons := hpass.cons fun hmode ↦ hrest (eq_of_mode_step hmode rfl)
  rwa [hcode, hstep] at hcons

end

theorem agrees_tokensAfter {before last : Option Char} {t : Text} (ht : '\n' ∉ t)
    (hslash : last = some '/' → t.head? ≠ some '/' ∧ t.head? ≠ some '*') :
    (inCode (.after before last)).Agrees t (t.tokensAfter before last) := by
  have hdrop : ∀ {r : Text} {n : Nat}, '\n' ∉ r → '\n' ∉ r.drop n := fun h hmem ↦
    h (List.mem_of_mem_drop hmem)
  fun_induction Text.tokensAfter before last t with
  | case1 => exact ⟨rfl, rfl⟩
  | case2 before last r =>
    have htrail : Trail.after before last ≠ .slash := fun h ↦
      (hslash (Trail.after_eq_slash_iff.mp h)).1 rfl
    exact agrees_lineComment htrail (by simp_all)
  | case3 before last r n ih =>
    have htrail : Trail.after before last ≠ .slash := fun h ↦
      (hslash (Trail.after_eq_slash_iff.mp h)).1 rfl
    refine (passes_blockCommentToken htrail r).agrees rfl ?_ (ih (hdrop ?_) (by simp))
    · simp [Token.text]
    · simp_all
  | case4 before last r hopen n ih =>
    rw [← Trail.marksVerbatim_after] at hopen
    refine (passes_verbatimToken hopen r).agrees rfl ?_ (ih (hdrop ?_) (by simp))
    · simp [Token.text]
    · simp_all
  | case5 before last r hopen n ih =>
    rw [← Trail.marksVerbatim_after, Bool.not_eq_true] at hopen
    have hr : '\n' ∉ r := by simp_all
    refine (passes_literalToken (.inl ⟨rfl, hopen⟩) hr).agrees rfl ?_ (ih (hdrop hr) (by simp))
    simp [Token.text]
  | case6 before last r n ih =>
    have hr : '\n' ∉ r := by simp_all
    refine (passes_literalToken (.inr rfl) hr).agrees rfl ?_ (ih (hdrop hr) (by simp))
    simp [Token.text]
  | case7 before last c r hline hblock hdouble hsingle ih =>
    rw [List.mem_cons, not_or] at ht
    have hhead : c = '/' → r.head? ≠ some '/' ∧ r.head? ≠ some '*' := by
      intro hc
      cases r with
      | nil => simp
      | cons d r =>
        refine ⟨fun h ↦ hline r hc ?_, fun h ↦ hblock r hc ?_⟩
        · rw [Option.some.inj h]
        · rw [Option.some.inj h]
    have hopens : (Trail.after before last).opens? c = none := by
      have htrail : Trail.after before last = .slash ↔ last = some '/' := Trail.after_eq_slash_iff
      have hdouble : c ≠ '"' := hdouble
      have hsingle : c ≠ '\'' := hsingle
      simp only [Trail.opens?, hdouble, hsingle, htrail]
      grind
    have hpass : (inCode (.after before last)).Passes (Token.code c).text (Token.code c).readMask
        (inCode (.after last (some c))) r := by
      rw [← Trail.next_after before]
      exact passes_codeToken (Ne.symm ht.1) hopens fun hc ↦ (hhead hc).1
    exact hpass.agrees rfl rfl (ih ht.2 fun hc ↦ hhead (Option.some.inj hc))

theorem readMask_tokens {t : Text} (ht : '\n' ∉ t) :
    readMask {} t = t.tokens.flatMap Token.readMask :=
  (@agrees_tokensAfter none none t ht (by simp)).readMask

private theorem withoutComment_tokens {t : Text} (ht : '\n' ∉ t) :
    t.withoutComment = ((t.tokens.takeWhile (!·.isLineComment)).map Token.text).flatten :=
  (@agrees_tokensAfter none none t ht (by simp)).beforeComment

end Lexer

/-! ## Counting along the tokens

A bracket is code for the lexer exactly if it is a token of its own, and the two agree about the
arrow. So the depths after each character are those counted along the tokens. -/

private theorem getElem?_flatMap_readMask {tokens : List Token} {n : Nat} {c : Char}
    (h : (tokens.flatMap Token.text)[n]? = some c) (hc : c ≠ '/') :
    (tokens.flatMap Token.readMask)[n]? = (tokens.flatMap Token.codeMask)[n]? := by
  induction tokens generalizing n with
  | nil => rfl
  | cons token tokens ih =>
    rw [List.flatMap_cons] at h ⊢
    rw [List.flatMap_cons]
    by_cases hn : n < token.text.length
    · rw [List.getElem?_append_left hn] at h
      rw [List.getElem?_append_left (by rwa [Token.length_readMask]),
        List.getElem?_append_left (by rwa [Token.length_codeMask]), token.readMask_eq_codeMask h hc]
    · rw [Nat.not_lt] at hn
      rw [List.getElem?_append_right hn] at h
      rw [List.getElem?_append_right (by rwa [Token.length_readMask]),
        List.getElem?_append_right (by rwa [Token.length_codeMask]), Token.length_readMask,
        Token.length_codeMask, ih h]

private theorem Text.flatMap_text_tokens (t : Text) : t.tokens.flatMap Token.text = t := by
  rw [List.flatMap_def, flatten_text_tokens]

namespace Lexer

private theorem getElem?_readMask {l : Lexer} {t : Text} {n : Nat} {c : Char} (h : t[n]? = some c) :
    (l.readMask t)[n]? = some ((l.run (t.take n)).isCode c) := by
  induction t generalizing l n with
  | nil => simp at h
  | cons d t ih =>
    cases n with
    | zero =>
      obtain rfl : d = c := Option.some.inj h
      rfl
    | succ n => exact ih h

/-- Where a bracket stands, the lexer takes it for code exactly if it is. -/
theorem isCode_run_take {t : Text} (ht : '\n' ∉ t) {n : Nat} {c : Char} (h : t[n]? = some c)
    (hc : c ≠ '/') : ((run {} (t.take n)).isCode c = true ↔ t.codeMask[n]? = some true) := by
  have hmask : (t.tokens.flatMap Token.readMask)[n]? = (t.tokens.flatMap Token.codeMask)[n]? :=
    getElem?_flatMap_readMask (by rwa [t.flatMap_text_tokens]) hc
  rw [← readMask_tokens ht, getElem?_readMask h] at hmask
  rw [Text.codeMask, ← hmask, Option.some.injEq]

/-- In code an equals sign is remembered if it is the last character. -/
theorem mode_step_eq_equals_iff {l : Lexer} (hl : l.Proper) {c : Char}
    (hcode : (l.step c).isCode '>' = true) : (l.step c).mode = .code .equals ↔ c = '=' := by
  refine ⟨fun hmode ↦ eq_of_mode_step hmode rfl, ?_⟩
  rintro rfl
  obtain ⟨mode, escaping⟩ := l
  cases mode with
  | code t => simp [step, codeStep, Trail.opens?, Trail.next]
  | verbatimQuote => simp [step, codeStep, Trail.opens?, Trail.next]
  | lineComment => simp [step, isCode, Mode.trail?] at hcode
  | blockComment star => simp [step, isCode, Mode.trail?] at hcode
  | verbatim => simp [step, isCode, Mode.trail?] at hcode
  | literal quote =>
    have hquote : '=' ≠ quote := by rcases hl quote rfl with rfl | rfl <;> decide
    cases escaping <;> simp [step, literalStep, isCode, Mode.trail?, hquote] at hcode

theorem closesArrow_run_take {t : Text} {n : Nat} {c : Char} (h : t[n]? = some c)
    (hcode : (run {} (t.take n)).isCode c = true) :
    (run {} (t.take n)).closesArrow c = t.closesArrowAt n := by
  rw [closesArrow, Text.closesArrowAt, h]
  by_cases hc : c = '>'
  · subst hc
    cases n with
    | zero => simp
    | succ n =>
      have hn : n < t.length := by
        have := (List.getElem?_eq_some_iff.mp h).1
        omega
      rw [List.take_succ_eq_append_getElem hn, run_append, run_cons, run_nil] at hcode ⊢
      have hequals := mode_step_eq_equals_iff (proper_fresh.run (t.take n)) hcode
      rw [Bool.eq_iff_iff]
      simp [hequals, List.getElem?_eq_getElem hn]
  · have hgt : (c == '>') = false := by simpa using hc
    simp [hgt]

end Lexer

theorem Bracket.ofCloser?_of_ofOpener? {c : Char} {k : Bracket} (h : ofOpener? c = some k) :
    ofCloser? c = none := by
  unfold ofOpener? at h
  split at h
  · rfl
  · rfl
  · rfl
  · simp at h

namespace Balance

theorem map_fst_trace (b : Balance) (t : Text) :
    (b.trace t).map Prod.fst = b.lexer.readMask t := by
  induction t generalizing b with
  | nil => rfl
  | cons c t ih => rw [trace, List.map_cons, ih, step_lexer, Lexer.readMask, isCode]

/-- What one character does to the depth of one kind of bracket. -/
theorem depth_step (b : Balance) (c : Char) (k : Bracket) :
    (b.step c).depths.of k =
      if b.isCode c = true ∧ b.counts k = true then
        if Bracket.ofOpener? c = some k then b.depths.of k + 1
        else if Bracket.ofCloser? c = some k ∧ b.lexer.closesArrow c = false then
          b.depths.of k - 1
        else b.depths.of k
      else b.depths.of k := by
  have hof : ∀ (p : Bool) (d : Depths), (if p then d else b.depths).of k =
      if p then d.of k else b.depths.of k := fun p d ↦ by cases p <;> rfl
  rw [step]
  dsimp only
  rw [hof, count]
  cases hopen : Bracket.ofOpener? c with
  | some j =>
    dsimp only
    rw [hof, Depths.of_push, Bracket.ofCloser?_of_ofOpener? hopen]
    grind
  | none =>
    cases hclose : Bracket.ofCloser? c with
    | some j =>
      dsimp only
      rw [hof, Depths.of_pop]
      grind
    | none => simp

theorem run_countsAngles (b : Balance) (t : Text) :
    (b.run t).countsAngles = b.countsAngles := by
  induction t generalizing b with
  | nil => rfl
  | cons c t ih => rw [run_cons, ih, step_countsAngles]

/-- The depths after the first characters of a line are those counted along its tokens. -/
theorem depth_run_take {t : Text} (ht : '\n' ∉ t) (countsAngles : Bool) (n : Nat) (k : Bracket) :
    (run { countsAngles } (t.take n)).depths.of k =
      if k = .angle ∧ countsAngles = false then 0 else t.depthAfter k n := by
  induction n with
  | zero => cases k <;> simp [Text.depthAfter, Depths.of]
  | succ n ih =>
    cases hn : t[n]? with
    | none =>
      have hlength := List.getElem?_eq_none_iff.mp hn
      rw [List.take_of_length_le (by omega)]
      rw [List.take_of_length_le hlength] at ih
      simp [ih, Text.depthAfter, hn]
    | some c =>
      obtain ⟨hlt, rfl⟩ := List.getElem?_eq_some_iff.mp hn
      rw [List.take_succ_eq_append_getElem hlt, run_append, run_cons, run_nil, depth_step, ih,
        isCode, run_lexer, counts, run_countsAngles, Text.depthAfter, hn]
      by_cases hcounts : k = .angle ∧ countsAngles = false
      · simp [hcounts]
      · have hcounted : (countsAngles || k != .angle) = true := by grind
        by_cases hslash : t[n] = '/'
        · simp [hcounts, hslash, Bracket.ofOpener?, Bracket.ofCloser?]
        · have hcode := Lexer.isCode_run_take ht hn hslash
          simp only [hcode, hcounted, hcounts, and_true, if_false, Option.bind_some]
          by_cases hmask : t.codeMask[n]? = some true
          · rw [if_pos hmask, if_pos hmask, Lexer.closesArrow_run_take hn (hcode.mpr hmask)]
          · rw [if_neg hmask, if_neg hmask]

/-- The lexer reads a line as its tokens. It takes for code the characters that are tokens of their
own and the slash that a comment starts with; after any number of characters the depths are those
counted along the code; and a line without its comment is what stands in front of the first line
comment among its tokens. -/
theorem reads_tokens {t : Text} (ht : '\n' ∉ t) (countsAngles : Bool) :
    (trace { countsAngles } t).map Prod.fst = t.tokens.flatMap Token.readMask ∧
      (∀ n k, (run { countsAngles } (t.take n)).depths.of k =
        if k = .angle ∧ countsAngles = false then 0 else t.depthAfter k n) ∧
      t.withoutComment = ((t.tokens.takeWhile (!·.isLineComment)).map Token.text).flatten := by
  refine ⟨?_, depth_run_take ht countsAngles, Lexer.withoutComment_tokens ht⟩
  rw [map_fst_trace]
  exact Lexer.readMask_tokens ht

/-- A line with an arrow behind a bracket that stays open, a verbatim string that holds a quote and
the start of a comment, an escaped quote, a block comment that seems to end at once, and a line
comment. -/
def mixedLine : Text := "f<(x=>@$\"/*\"\"\", '\\'') /*/ \x7b */ //\x7d".toList

theorem reads_tokens_mixedLine :
    '\n' ∉ mixedLine ∧
    mixedLine.tokens = ['f', '<', '(', 'x', '=', '>', '@', '$'].map .code ++
      [.verbatim "/*\"\"\"".toList, .code ',', .code ' ', .literal '\'' "\\''".toList, .code ')',
        .code ' ', .blockComment "/ \x7b */".toList, .code ' ', .lineComment "\x7d".toList] ∧
    (trace {} mixedLine).map Prod.fst = mixedLine.tokens.flatMap Token.readMask ∧
    (∀ n k, (run {} (mixedLine.take n)).depths.of k = mixedLine.depthAfter k n) ∧
    mixedLine.depthAfter .angle 34 = 1 ∧
    mixedLine.withoutComment = "f<(x=>@$\"/*\"\"\", '\\'') /*/ \x7b */ ".toList := by
  have hcut : '\n' ∉ mixedLine := by decide
  have htokens : mixedLine.tokens = ['f', '<', '(', 'x', '=', '>', '@', '$'].map .code ++
      [.verbatim "/*\"\"\"".toList, .code ',', .code ' ', .literal '\'' "\\''".toList, .code ')',
        .code ' ', .blockComment "/ \x7b */".toList, .code ' ', .lineComment "\x7d".toList] := by
    cbv
  obtain ⟨hmask, hdepth, hcomment⟩ := reads_tokens hcut true
  refine ⟨hcut, htokens, hmask, ?_, ?_, ?_⟩
  · simpa using hdepth
  · have hangle := hdepth 34 .angle
    rw [if_neg (by decide)] at hangle
    rw [← hangle]
    decide
  · rw [hcomment, htokens]
    decide

end Balance

end CSharpOutline
