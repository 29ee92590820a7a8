import CSharpOutline.Proofs.Code.Splitting
import CSharpOutline.Proofs.Code.Tokens

/-!
# A reader with a register for each thing it knows

The lexer is in one mode at a time, so it cannot be in a comment and in a literal at once, and the
depths it counts are natural numbers. A reader in registers has neither for free: it keeps a flag
for each part of the program, signed counters and the last two characters, and one character may
set several of them.

Fed in step with a balance, the reader only ever holds registers that stand for the balance
(`Registers.tracks_feed`). So over every text it answers as the balance does, its flags exclude each
other, and its counters are never negative and move in code only (`Registers.run_exclusive`).

The mode tells all the flags. It does not tell the last two characters, but it remembers what they
still matter for (`Mode.Remembers`): the trail in code, the star that may end a block comment, the
quote that may end a verbatim string. With that the steps agree, one mode at a time.
-/

namespace CSharpOutline

/-- The state of a reader that keeps a register for each thing it has to know. -/
structure Registers where
  angle : Int := 0
  paren : Int := 0
  brace : Int := 0
  /-- Whether angle brackets are counted. -/
  countsAngles : Bool := true
  /-- The quote that opened the literal that is being read. -/
  quote : Option Char := none
  /-- The literal is, or was up to the last character, a verbatim string. -/
  verbatim : Bool := false
  /-- The last character was a quote in a verbatim string. -/
  verbatimQuoteSeen : Bool := false
  /-- The next character of a regular literal is taken as it is. -/
  escaped : Bool := false
  lineComment : Bool := false
  blockComment : Bool := false
  /-- The last character, forgotten where a block comment opens or closes. -/
  last : Option Char := none
  beforeLast : Option Char := none
  deriving DecidableEq, Repr

namespace Registers

/-! ## Reading a character -/

/-- The registers with the counter of kind `k` changed by `f`. -/
def modify (r : Registers) (f : Int → Int) : Bracket → Registers
  | .angle => { r with angle := f r.angle }
  | .paren => { r with paren := f r.paren }
  | .brace => { r with brace := f r.brace }

/-- Counts the code character `c` behind `last`. No counter goes below zero. -/
def count (r : Registers) (last : Option Char) (c : Char) : Registers :=
  match Bracket.ofOpener? c, Bracket.ofCloser? c with
  | some k, _ => if k ≠ .angle ∨ r.countsAngles then r.modify (· + 1) k else r
  | none, some k =>
    if k = .angle ∧ (¬r.countsAngles ∨ last = some '=') then r
    else r.modify (fun n ↦ max 0 (n - 1)) k
  | none, none => r

/-- Reads `c` outside literals and comments, behind the characters `before` and `last`. -/
def readCode (r : Registers) (before last : Option Char) (c : Char) : Bool × Registers :=
  if c = '"' ∨ c = '\'' then
    (false, { r with
      quote := some c
      verbatim := c == '"' && (last == some '@' || (last == some '$' && before == some '@')) })
  else if last = some '/' ∧ c = '/' then (false, { r with lineComment := true })
  else if last = some '/' ∧ c = '*' then (false, { r with blockComment := true, last := none })
  else (true, r.count last c)

/-- Reads `c` inside the literal that `quote` opened. -/
def readLiteral (r : Registers) (quote c : Char) : Registers :=
  if r.verbatim then
    if c = '"' then { r with quote := none, verbatimQuoteSeen := true } else r
  else if r.escaped then { r with escaped := false }
  else if c = '\\' then { r with escaped := true }
  else if c = quote then { r with quote := none }
  else r

/-- Reads `c` behind the characters `before` and `last`, the last of which does not leave open
whether a verbatim string is over. -/
def read (r : Registers) (before last : Option Char) (c : Char) : Bool × Registers :=
  if c = '\n' then
    (false, { r with
      lineComment := false
      quote := if r.quote.isSome && !r.verbatim then none else r.quote })
  else if r.lineComment then (false, r)
  else if r.blockComment then
    (false,
      if last = some '*' ∧ c = '/' then { r with blockComment := false, last := none } else r)
  else match r.quote with
    | some quote => (false, r.readLiteral quote c)
    | none => r.readCode before last c

/-- The registers with `c` remembered as the last character. -/
def remember (r : Registers) (c : Char) : Registers :=
  { r with beforeLast := r.last, last := some c }

def feed (r : Registers) (c : Char) : Bool × Registers :=
  if r.verbatimQuoteSeen then
    if c = '"' then (false, { r.remember c with verbatimQuoteSeen := false, quote := some '"' })
    else ({ r.remember c with verbatimQuoteSeen := false, verbatim := false }).read
      r.beforeLast r.last c
  else (r.remember c).read r.beforeLast r.last c

def run (r : Registers) (t : Text) : Registers := t.foldl (fun r c ↦ (r.feed c).2) r

/-- Whether a literal or comment is being read. -/
def isInside (r : Registers) : Bool := r.quote.isSome || r.lineComment || r.blockComment

def counters (r : Registers) : Int × Int × Int := (r.angle, r.paren, r.brace)

/-- No counter is negative, the angle brackets stay at zero unless they are counted, and the flags
exclude each other. -/
structure Exclusive (r : Registers) : Prop where
  angle_nonneg : 0 ≤ r.angle
  paren_nonneg : 0 ≤ r.paren
  brace_nonneg : 0 ≤ r.brace
  angle_eq_zero : r.countsAngles = false → r.angle = 0
  atMostOne :
    [r.quote.isSome, r.lineComment, r.blockComment, r.verbatimQuoteSeen].count true ≤ 1
  quote_of_verbatim : r.verbatim = true → r.quote = some '"' ∨ r.verbatimQuoteSeen = true
  of_verbatimQuoteSeen : r.verbatimQuoteSeen = true → r.verbatim = true ∧ r.quote = none

end Registers

/-! ## What the lexer does in code

A character that is code neither finds nor leaves a literal or comment open. -/

private theorem Trail.after_eq_equals_iff {before last : Option Char} :
    after before last = .equals ↔ last = some '=' := by
  unfold after
  grind

namespace Lexer

private theorem mode_step_of_trail? {l : Lexer} {c : Char} {trail : Trail}
    (h : l.mode.trail? c = some trail) :
    l.mode.isOpen = false ∧ (l.step c).mode = codeStep trail c := by
  obtain ⟨mode, escaping⟩ := l
  cases mode with
  | code trail' =>
    obtain rfl : trail' = trail := Option.some.inj h
    exact ⟨rfl, rfl⟩
  | verbatimQuote =>
    by_cases hc : c = '"'
    · simp [Mode.trail?, hc] at h
    · obtain rfl : Trail.plain = trail := by simpa [Mode.trail?, hc] using h
      exact ⟨rfl, by simp [step, hc]⟩
  | _ => simp [Mode.trail?] at h

private theorem isOpen_of_isCode {l : Lexer} {c : Char} (h : l.isCode c = true) :
    l.mode.isOpen = false ∧ (l.step c).mode.isOpen = false := by
  rw [isCode] at h
  cases htrail : l.mode.trail? c with
  | none => simp [htrail] at h
  | some trail =>
    obtain ⟨hbefore, hafter⟩ := mode_step_of_trail? htrail
    have hread : c ≠ '\n' ∧ trail.opens? c = none := by simpa [htrail] using h
    refine ⟨hbefore, ?_⟩
    rw [hafter, codeStep, if_neg hread.1, hread.2]
    rfl

theorem isCode_of_isOpen_or {l : Lexer} {c : Char}
    (h : l.mode.isOpen = true ∨ (l.step c).mode.isOpen = true) : l.isCode c = false := by
  rw [← Bool.not_eq_true]
  intro hcode
  obtain ⟨hbefore, hafter⟩ := isOpen_of_isCode hcode
  rw [hbefore, hafter] at h
  simp at h

end Lexer

/-! ## The registers that stand for a balance -/

namespace Mode

/-- The quote that opened the literal of a mode. -/
@[simp] def quote? : Mode → Option Char
  | .literal quote => some quote
  | .verbatim => some '"'
  | .code _ | .lineComment | .blockComment _ | .verbatimQuote => none

/-- Whether a verbatim string is read, or was up to the last character. -/
@[simp] def isVerbatim : Mode → Bool
  | .verbatim | .verbatimQuote => true
  | _ => false

@[simp] def isBlockComment : Mode → Bool
  | .blockComment _ => true
  | _ => false

/-- What a mode knows of the characters `before` and `last` in front. -/
def Remembers (before last : Option Char) : Mode → Prop
  | .code trail => Trail.after before last = trail
  | .blockComment star => (last == some '*') = star
  | .verbatimQuote => last = some '"'
  | _ => True

end Mode

namespace Registers

/-- The registers that stand for a balance behind the characters `before` and `last`. -/
def ofBalance (b : Balance) (before last : Option Char) : Registers where
  angle := b.depths.angle
  paren := b.depths.paren
  brace := b.depths.brace
  countsAngles := b.countsAngles
  quote := b.lexer.mode.quote?
  verbatim := b.lexer.mode.isVerbatim
  verbatimQuoteSeen := b.lexer.mode = .verbatimQuote
  escaped := b.lexer.escaping
  lineComment := b.lexer.mode = .lineComment
  blockComment := b.lexer.mode.isBlockComment
  last := last
  beforeLast := before

variable {b : Balance} {before last : Option Char} {c : Char}

/-- An answer and registers stand for what the balance `b` does at the character `c` behind
`last`. -/
def Tracks (b : Balance) (last : Option Char) (c : Char) (x : Bool × Registers) : Prop :=
  ∃ last', x = (b.isCode c, ofBalance (b.step c) last last') ∧
    (b.step c).lexer.mode.Remembers last last'

theorem Tracks.of_step {b' : Balance} {code : Bool} {x : Bool × Registers}
    (last' : Option Char) (hread : b.isCode c = code ∧ b.step c = b')
    (hx : x = (code, ofBalance b' last last')) (hlast : b'.lexer.mode.Remembers last last') :
    Tracks b last c x := by
  obtain ⟨rfl, rfl⟩ := hread
  exact ⟨last', hx, hlast⟩

private theorem modify_add_ofBalance (b : Balance) (k : Bracket) :
    (ofBalance b before last).modify (· + 1) k =
      ofBalance { b with depths := b.depths.push k } before last := by
  cases k <;> rfl

private theorem modify_sub_ofBalance (b : Balance) (k : Bracket) :
    (ofBalance b before last).modify (fun n ↦ max 0 (n - 1)) k =
      ofBalance { b with depths := b.depths.pop k } before last := by
  have hsub (n : Nat) : max 0 ((n : Int) - 1) = ((n - 1 : Nat) : Int) := by omega
  cases k <;> simp [modify, ofBalance, Depths.pop, Depths.modify, hsub]

/-- Counting in registers is counting depths, where the lexer knows as well whether an equals sign
stands in front. -/
theorem count_ofBalance {prev : Option Char}
    (harrow : b.lexer.closesArrow c = (c == '>' && prev == some '=')) :
    (ofBalance b before last).count prev c =
      ofBalance { b with depths := b.count c } before last := by
  have hcounts : (ofBalance b before last).countsAngles = b.countsAngles := rfl
  cases hopen : Bracket.ofOpener? c with
  | some k =>
    have hcounted : (k ≠ .angle ∨ b.countsAngles = true) ↔ b.counts k = true := by
      simp [Balance.counts, or_comm]
    simp only [count, Balance.count, hopen, hcounts, hcounted, modify_add_ofBalance]
    split <;> rfl
  | none =>
    cases hclose : Bracket.ofCloser? c with
    | none => simp only [count, Balance.count, hopen, hclose]
    | some k =>
      have hgt : c = '>' ↔ k = .angle := by
        unfold Bracket.ofCloser? at hclose
        grind
      have hcounted : (k = .angle ∧ (¬b.countsAngles = true ∨ prev = some '=')) ↔
          ¬(b.counts k && !b.lexer.closesArrow c) = true := by
        simp only [harrow, Balance.counts]
        grind
      simp only [count, Balance.count, hopen, hclose, hcounts, hcounted, modify_sub_ofBalance,
        ite_not]
      split <;> rfl

/-! ## Reading in step

One mode at a time, a character leads from the registers that stand for a balance to those that
stand for the next one. Only the quote that may end a verbatim string is decided a character
later. -/

private theorem step_of_opens? {trail : Trail} (hmode : b.lexer.mode = .code trail) {m : Mode}
    (hopen : trail.opens? c = some m) (hc : c ≠ '\n') :
    b.isCode c = false ∧ b.step c = { b with lexer.mode := m } := by
  simp [Balance.step, Balance.isCode, Lexer.isCode, Lexer.step, Lexer.codeStep, Mode.trail?, hmode,
    hopen, hc]

private theorem step_of_opens?_eq_none {trail : Trail} (hmode : b.lexer.mode = .code trail)
    (hopen : trail.opens? c = none) (hc : c ≠ '\n') :
    b.isCode c = true ∧
      b.step c = { b with lexer.mode := .code (trail.next c), depths := b.count c } := by
  simp [Balance.step, Balance.isCode, Lexer.isCode, Lexer.step, Lexer.codeStep, Mode.trail?, hmode,
    hopen, hc]

/-- A verbatim string is over behind the quote that may end it, unless the quote is doubled. -/
theorem step_verbatimQuote (hmode : b.lexer.mode = .verbatimQuote) (hc : c ≠ '"') :
    let ended : Balance := { b with lexer.mode := .code .plain }
    b.isCode c = ended.isCode c ∧ b.step c = ended.step c := by
  intro ended
  have hcode : b.isCode c = ended.isCode c := by
    simp [ended, Balance.isCode, Lexer.isCode, Mode.trail?, hmode, hc]
  have harrow : b.lexer.closesArrow c = ended.lexer.closesArrow c := by
    rw [Lexer.closesArrow, Lexer.closesArrow, Bool.eq_iff_iff]
    simp [ended, hmode]
  have hcount : b.count c = ended.count c := by
    simp [ended, Balance.count, Balance.counts, harrow]
  refine ⟨hcode, ?_⟩
  rw [Balance.step, Balance.step, hcode, hcount]
  simp [ended, Lexer.step, hmode, hc]

private theorem tracks_readCode {trail : Trail} (hmode : b.lexer.mode = .code trail)
    (htrail : Trail.after before last = trail) (hc : c ≠ '\n') :
    Tracks b last c ((ofBalance b last (some c)).readCode before last c) := by
  have hmarks : (last == some '@' || (last == some '$' && before == some '@')) =
      trail.marksVerbatim := by
    rw [← htrail, Trail.marksVerbatim_after, Token.opensVerbatim, Bool.and_comm]
  have hslash : last = some '/' ↔ trail = .slash := by
    rw [← htrail, Trail.after_eq_slash_iff]
  simp only [readCode, hmarks, hslash]
  split_ifs with hquote hline hblock
  · -- a literal is opened
    by_cases hverbatim : c = '"' ∧ trail.marksVerbatim = true
    · have hopen : trail.opens? c = some .verbatim := by simp [Trail.opens?, hverbatim]
      refine .of_step (some c) (step_of_opens? hmode hopen hc) ?_ trivial
      simp [ofBalance, hmode, hverbatim]
    · have hopen : trail.opens? c = some (.literal c) := by
        unfold Trail.opens?
        grind
      have hregular : (c == '"' && trail.marksVerbatim) = false := by simpa using hverbatim
      refine .of_step (some c) (step_of_opens? hmode hopen hc) ?_ trivial
      simp [ofBalance, hmode, hregular]
  · have hopen : trail.opens? c = some .lineComment := by simp [Trail.opens?, hline]
    refine .of_step (some c) (step_of_opens? hmode hopen hc) ?_ trivial
    simp [ofBalance, hmode]
  · have hopen : trail.opens? c = some (.blockComment false) := by simp [Trail.opens?, hblock]
    refine .of_step none (step_of_opens? hmode hopen hc) ?_ rfl
    simp [ofBalance, hmode]
  · -- nothing is opened
    rw [not_or] at hquote
    have hopen : trail.opens? c = none := by simp [Trail.opens?, hquote, hline, hblock]
    have harrow : b.lexer.closesArrow c = (c == '>' && last == some '=') := by
      rw [Lexer.closesArrow, Bool.eq_iff_iff]
      simp [hmode, ← htrail, Trail.after_eq_equals_iff]
    rw [count_ofBalance harrow]
    refine .of_step (some c) (step_of_opens?_eq_none hmode hopen hc) ?_ ?_
    · simp [ofBalance, hmode]
    · rw [← htrail, Trail.next_after]
      rfl

theorem step_of_isOpen (h : b.lexer.mode.isOpen = true) (c : Char) :
    b.isCode c = false ∧ b.step c = { b with lexer := b.lexer.step c } := by
  have hcode : b.isCode c = false := Lexer.isCode_of_isOpen_or (.inl h)
  refine ⟨hcode, ?_⟩
  rw [Balance.step, hcode]
  rfl

private theorem tracks_lineComment (hmode : b.lexer.mode = .lineComment) (hc : c ≠ '\n') :
    Tracks b last c ((ofBalance b last (some c)).read before last c) := by
  obtain ⟨hcode, hstep⟩ := step_of_isOpen (b := b) (by rw [hmode]; rfl) c
  simp only [Lexer.step, hmode, if_neg hc] at hstep
  refine .of_step (some c) ⟨hcode, hstep⟩ ?_ trivial
  simp [read, hc, ofBalance, hmode]

private theorem tracks_blockComment {star : Bool} (hmode : b.lexer.mode = .blockComment star)
    (hstar : (last == some '*') = star) (hc : c ≠ '\n') :
    Tracks b last c ((ofBalance b last (some c)).read before last c) := by
  have hclose : (star = true ∧ c = '/') ↔ (last = some '*' ∧ c = '/') := by
    rw [← hstar, beq_iff_eq]
  obtain ⟨hcode, hstep⟩ := step_of_isOpen (b := b) (by rw [hmode]; rfl) c
  simp only [Lexer.step, hmode, hclose] at hstep
  split_ifs at hstep with h
  · refine .of_step none ⟨hcode, hstep⟩ ?_ rfl
    simp [read, ofBalance, hmode, h]
  · refine .of_step (some c) ⟨hcode, hstep⟩ ?_ rfl
    simp [read, hc, ofBalance, hmode, h]

private theorem tracks_literal {quote : Char} (hmode : b.lexer.mode = .literal quote)
    (hquote : quote = '"' ∨ quote = '\'') (hc : c ≠ '\n') :
    Tracks b last c ((ofBalance b last (some c)).read before last c) := by
  obtain ⟨hcode, hstep⟩ := step_of_isOpen (b := b) (by rw [hmode]; rfl) c
  simp only [Lexer.step, hmode, Lexer.literalStep, if_neg hc] at hstep
  have hread : (ofBalance b last (some c)).read before last c =
      (false, (ofBalance b last (some c)).readLiteral quote c) := by
    simp [read, hc, ofBalance, hmode]
  rw [hread, readLiteral]
  split_ifs at hstep with hescaping hback hclose
  · refine .of_step (some c) ⟨hcode, hstep⟩ ?_ trivial
    simp [ofBalance, hmode, hescaping]
  · refine .of_step (some c) ⟨hcode, hstep⟩ ?_ trivial
    simp [ofBalance, hmode, hescaping, hback]
  · obtain rfl : c = quote := hclose
    refine .of_step (some c) ⟨hcode, hstep⟩ ?_ ?_
    · simp [ofBalance, hmode, hescaping, hback]
    · rcases hquote with rfl | rfl <;> rfl
  · refine .of_step (some c) ⟨hcode, hstep⟩ ?_ trivial
    simp [ofBalance, hmode, hescaping, hback, hclose]

private theorem tracks_verbatim (hmode : b.lexer.mode = .verbatim) (hc : c ≠ '\n') :
    Tracks b last c ((ofBalance b last (some c)).read before last c) := by
  obtain ⟨hcode, hstep⟩ := step_of_isOpen (b := b) (by rw [hmode]; rfl) c
  simp only [Lexer.step, hmode] at hstep
  split_ifs at hstep with hquote
  · refine .of_step (some c) ⟨hcode, hstep⟩ ?_ (congrArg some hquote)
    simp [read, readLiteral, ofBalance, hmode, hquote]
  · refine .of_step (some c) ⟨hcode, hstep⟩ ?_ trivial
    simp [read, readLiteral, ofBalance, hmode, hc, hquote]

private theorem tracks_newline (hmode : b.lexer.mode ≠ .verbatimQuote) :
    Tracks b last '\n' ((ofBalance b last (some '\n')).read before last '\n') := by
  obtain ⟨⟨mode, escaping⟩, d, countsAngles⟩ := b
  cases mode with
  | code trail => exact ⟨_, rfl, rfl⟩
  | lineComment => exact ⟨_, rfl, rfl⟩
  | blockComment star => cases star <;> exact ⟨_, rfl, rfl⟩
  | literal quote => exact ⟨_, rfl, rfl⟩
  | verbatim => exact ⟨_, rfl, trivial⟩
  | verbatimQuote => exact absurd rfl hmode

/-- Outside the moment behind a quote that may end a verbatim string, reading a character keeps the
registers in step. -/
theorem tracks_read (hb : b.lexer.Proper) (hlast : b.lexer.mode.Remembers before last)
    (hseen : b.lexer.mode ≠ .verbatimQuote) :
    Tracks b last c ((ofBalance b last (some c)).read before last c) := by
  by_cases hc : c = '\n'
  · subst hc
    exact tracks_newline hseen
  cases hmode : b.lexer.mode with
  | code trail =>
    rw [hmode] at hlast
    have hread : (ofBalance b last (some c)).read before last c =
        (ofBalance b last (some c)).readCode before last c := by
      simp [read, hc, ofBalance, hmode]
    rw [hread]
    exact tracks_readCode hmode hlast hc
  | lineComment => exact tracks_lineComment hmode hc
  | blockComment star =>
    rw [hmode] at hlast
    exact tracks_blockComment hmode hlast hc
  | literal quote => exact tracks_literal hmode (hb quote hmode) hc
  | verbatim => exact tracks_verbatim hmode hc
  | verbatimQuote => exact absurd hmode hseen

/-- One character leads from the registers that stand for a balance to those that stand for the
next one, and it is code for the one reader exactly if it is for the other. -/
theorem tracks_feed (hb : b.lexer.Proper) (hlast : b.lexer.mode.Remembers before last) (c : Char) :
    Tracks b last c ((ofBalance b before last).feed c) := by
  by_cases hmode : b.lexer.mode = .verbatimQuote
  · have hseen : (ofBalance b before last).verbatimQuoteSeen = true := by simp [ofBalance, hmode]
    rw [feed, if_pos hseen]
    by_cases hc : c = '"'
    · -- the quote is doubled
      have hread : b.isCode c = false ∧ b.step c = { b with lexer.mode := .verbatim } := by
        simp [Balance.step, Balance.isCode, Lexer.isCode, Lexer.step, Mode.trail?, hmode, hc]
      rw [if_pos hc]
      refine .of_step (some c) hread ?_ trivial
      simp [remember, ofBalance, hmode]
    · -- the string is over, and `c` is read as in code
      let ended : Balance := { b with lexer.mode := .code .plain }
      have hproper : ended.lexer.Proper := fun _ h ↦ absurd h (by simp [ended])
      have htrail : Trail.after before last = .plain := by
        rw [hmode] at hlast
        rw [show last = some '"' from hlast]
        rfl
      obtain ⟨last', hread, hlast'⟩ := tracks_read (c := c) hproper htrail (by simp [ended])
      rw [if_neg hc]
      refine .of_step last' (step_verbatimQuote hmode hc) ?_ hlast'
      rw [← hread]
      simp [remember, ofBalance, hmode, ended]
  · have hseen : (ofBalance b before last).verbatimQuoteSeen = false := by
      simpa [ofBalance] using hmode
    rw [feed, hseen]
    exact tracks_read hb hlast hmode

private theorem run_ofBalance (hb : b.lexer.Proper) (hlast : b.lexer.mode.Remembers before last)
    (t : Text) :
    ∃ before' last', (ofBalance b before last).run t = ofBalance (b.run t) before' last' ∧
      (b.run t).lexer.mode.Remembers before' last' := by
  induction t generalizing b before last with
  | nil => exact ⟨before, last, rfl, hlast⟩
  | cons c t ih =>
    obtain ⟨last', hfeed, hlast'⟩ := tracks_feed hb hlast c
    obtain ⟨before'', last'', hrun, hlast''⟩ := ih (hb.step c) hlast'
    refine ⟨before'', last'', ?_, hlast''⟩
    rw [run, List.foldl_cons, hfeed]
    exact hrun

/-! ## Over whole texts -/

private theorem angle_run (hcounts : b.countsAngles = false) (hangle : b.depths.angle = 0)
    (t : Text) : (b.run t).depths.angle = 0 := by
  induction t generalizing b with
  | nil => exact hangle
  | cons c t ih =>
    have hdepth := Balance.depth_step b c .angle
    rw [if_neg (by simp [Balance.counts, hcounts])] at hdepth
    exact ih hcounts (hdepth.trans hangle)

private theorem exclusive_ofBalance (hangle : b.countsAngles = false → b.depths.angle = 0)
    (before last : Option Char) : (ofBalance b before last).Exclusive := by
  obtain ⟨⟨mode, escaping⟩, d, countsAngles⟩ := b
  refine ⟨Int.natCast_nonneg _, Int.natCast_nonneg _, Int.natCast_nonneg _, ?_, ?_, ?_, ?_⟩
  · simpa [ofBalance] using hangle
  · cases mode <;> simp [ofBalance]
  · cases mode <;> simp [ofBalance]
  · cases mode <;> simp [ofBalance]

private theorem isInside_ofBalance (b : Balance) (before last : Option Char) :
    (ofBalance b before last).isInside = b.lexer.mode.isOpen := by
  obtain ⟨⟨mode, escaping⟩, d, countsAngles⟩ := b
  cases mode <;> rfl

/-- Over every text the reader in registers answers as the balance does and is left with the
registers that stand for it. Its counters are never negative, its flags exclude each other, and a
character that finds or leaves it inside a literal or comment changes no counter. -/
theorem run_exclusive (countsAngles : Bool) (t : Text) :
    let r := run { countsAngles } t
    let b := Balance.run { countsAngles } t
    (r = ofBalance b r.beforeLast r.last ∧ r.countsAngles = countsAngles) ∧ r.Exclusive ∧
      ∀ c, (r.feed c).1 = b.isCode c ∧
        (r.isInside = true ∨ (r.feed c).2.isInside = true →
          (r.feed c).2.counters = r.counters) := by
  intro r b
  have hfresh : Mode.Remembers none none (.code .plain) := rfl
  obtain ⟨before, last, hrun, hlast⟩ :=
    run_ofBalance (b := { countsAngles }) Lexer.proper_fresh hfresh t
  have hr : r = ofBalance b before last := hrun
  have hcounts : b.countsAngles = countsAngles := Balance.run_countsAngles _ t
  rw [hr]
  refine ⟨⟨rfl, hcounts⟩, exclusive_ofBalance (fun huncounted ↦ ?_) _ _, fun c ↦ ?_⟩
  · rw [hcounts] at huncounted
    exact angle_run huncounted rfl t
  · have hproper : b.lexer.Proper := by
      rw [Balance.run_lexer]
      exact Lexer.proper_fresh.run t
    obtain ⟨last', hfeed, -⟩ := tracks_feed hproper hlast c
    rw [hfeed]
    refine ⟨rfl, fun hinside ↦ ?_⟩
    rw [isInside_ofBalance, isInside_ofBalance] at hinside
    have hdepths : (b.step c).depths = b.depths :=
      Balance.depths_step_of_isCode (Lexer.isCode_of_isOpen_or hinside)
    simp only [counters, ofBalance, hdepths]

/-- A verbatim string with a doubled quote and a line break in it, a block comment that seems to end
at once, a literal cut short by a line break, an arrow, and a string that is still open. -/
def cutText : Text := "f(@\"\x7b\"\"\n<\" /*/ ) */ '(\n=>\x7b \"".toList

theorem run_exclusive_cutText :
    (run {} cutText).Exclusive ∧ (run {} cutText).quote = some '"' ∧
      (run {} cutText).counters = (0, 1, 1) ∧ ((run {} cutText).feed ')').1 = false ∧
      ((run {} cutText).feed ')').2.counters = (0, 1, 1) := by
  obtain ⟨-, hexclusive, hfeed⟩ := run_exclusive true cutText
  have hquote : (run {} cutText).quote = some '"' := by decide
  have hcounters : (run {} cutText).counters = (0, 1, 1) := by decide
  have hinside : (run {} cutText).isInside = true := by
    rw [isInside, hquote]
    rfl
  obtain ⟨hcode, hsame⟩ := hfeed ')'
  refine ⟨hexclusive, hquote, hcounters, hcode.trans (by decide), ?_⟩
  rw [hsame (.inl hinside), hcounters]

end Registers

end CSharpOutline
