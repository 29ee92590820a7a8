import CSharpOutline.Code.Outermost
import CSharpOutline.Proofs.Code.LineBreak
import CSharpOutline.Proofs.Code.Nesting

/-!
# Texts that are passed over

A reader that looks at the outermost characters of a text starts with a fresh balance. Some texts it
can pass over and go on behind them as at the start. Characters that are neither marks nor brackets
leave a balance as it is (`Balance.step_of_isNeutral`), and a whole group leaves a fresh balance
fresh, provided that no literal in it is cut off at a line break: the backslash at the end of such a
literal would be remembered (`Balance.run_group`).

What a reader stops at may depend on what stands around it, as it does for a word. `Balance.Avoids`
says that it does not stop inside a text, given what stands in front of the text and behind it.
Inside a group there is nothing to stop at, because only its opener is outermost
(`Balance.avoids_group`). Splitting a text at its outermost commas never splits what avoids them
(`Balance.pieces_of_avoids`).
-/

namespace CSharpOutline

namespace Balance

/-! ## Neutral texts -/

/-- Whether a fresh balance takes no notice of a character. -/
def isNeutral (c : Char) : Bool := (Lexer.isInert c || c == '\n') && isUncounted c

theorem isNeutral_of_isBlank {c : Char} (h : isBlank c = true) : isNeutral c = true := by
  rw [isNeutral, isUncounted_of_isBlank h, Bool.and_true]
  by_cases hc : c = '\n'
  · rw [hc]
    rfl
  · rw [Lexer.isInert_of_isBlank h hc, Bool.true_or]

theorem isNeutral_of_qualified {c : Char} (h : isNamePart c = true ∨ c = ':') :
    isNeutral c = true := by
  rcases h with h | rfl
  · rw [isNeutral, isUncounted_of_class (by decide) h, Lexer.isInert_of_class (by decide) h]
    rfl
  · decide

theorem ne_opener_of_isNeutral {c : Char} (h : isNeutral c = true) :
    (c != '<' && c != '(') = true := by
  rw [Bool.and_eq_true, bne_iff_ne, bne_iff_ne]
  constructor
  · rintro rfl
    exact absurd h (by decide)
  · rintro rfl
    exact absurd h (by decide)

theorem step_of_isNeutral {b : Balance} (hb : b.lexer.mode = .code .plain) {c : Char}
    (h : isNeutral c = true) : b.step c = b := by
  rw [isNeutral, Bool.and_eq_true, Bool.or_eq_true, beq_iff_eq] at h
  obtain ⟨hlexer, huncounted⟩ := h
  have hcode : Lexer.codeStep .plain c = .code .plain := by
    rcases hlexer with hinert | rfl
    · exact Lexer.codeStep_of_isInert hinert .plain
    · rfl
  refine ext_of ?_ (depths_step_of_isUncounted huncounted b) rfl
  rw [step_lexer, Lexer.step, hb]
  dsimp only
  rw [hcode, ← hb]

theorem run_of_isNeutral {b : Balance} (hb : b.lexer.mode = .code .plain) {s : Text}
    (h : ∀ c ∈ s, isNeutral c = true) : b.run s = b := by
  induction s with
  | nil => rfl
  | cons c s ih =>
    rw [List.forall_mem_cons] at h
    rw [run_cons, step_of_isNeutral hb h.1, ih h.2]

theorem step_fresh {c : Char} (h : isNeutral c = true) : fresh.step c = fresh :=
  step_of_isNeutral rfl h

theorem run_fresh {s : Text} (h : ∀ c ∈ s, isNeutral c = true) : fresh.run s = fresh :=
  run_of_isNeutral rfl h

end Balance

/-! ## Groups -/

namespace Nesting

variable {n : Nesting} {b : Balance} {t : Text}

private theorem isInert_of_ofCloser? {c : Char} {k : Bracket} (h : Bracket.ofCloser? c = some k) :
    Lexer.isInert c = true := by
  unfold Bracket.ofCloser? at h
  split at h
  · decide
  · decide
  · decide
  · exact absurd h (by simp)

/-- At the end of a group no bracket is open, and the lexer is in plain code behind the closer. -/
theorem exists_of_closesAtEnd (h : Tallies n b) (hne : n.stack ≠ [])
    (ht : n.closesAtEnd t = true) :
    ∃ m, Tallies m (b.run t) ∧ m.stack = [] ∧ m.lexer.mode = .code .plain := by
  induction t generalizing n b with
  | nil => exact absurd ht (by simp [closesAtEnd])
  | cons c t ih =>
    rw [closesAtEnd] at ht
    split at ht
    · exact absurd ht (by simp)
    · next m hm =>
      have hstep := h.step hm
      rw [Balance.run_cons]
      split at ht
      · next hnil =>
        rw [List.isEmpty_iff] at hnil ht
        subst ht
        refine ⟨m, hstep, hnil, ?_⟩
        obtain ⟨hlexer, ⟨heq, -⟩ | ⟨k, heq, -⟩ | ⟨k, -, hcode, hclose, -⟩⟩ := step?_cases hm
        · exact absurd (heq.symm.trans hnil) hne
        · exact absurd (heq.symm.trans hnil) (by simp)
        · rw [hlexer]
          exact (Lexer.mode_step_of_isCode (isInert_of_ofCloser? hclose) hcode).1
      · next hopen => exact ih hstep (by simpa using hopen) ht

end Nesting

def Bracket.closer : Bracket → Char
  | .angle => '>'
  | .paren => ')'
  | .brace => '}'

theorem Bracket.eq_closer {c : Char} {k : Bracket} (h : ofCloser? c = some k) : c = k.closer := by
  unfold ofCloser? at h
  split at h
  · rw [← Option.some.inj h, closer]
  · rw [← Option.some.inj h, closer]
  · rw [← Option.some.inj h, closer]
  · exact absurd h (by simp)

namespace Balance

/-- What closes the open groups of a kind is a closer of that kind, read as code. -/
theorem ofCloser?_of_closed {k : Bracket} {b : Balance} {c : Char} (hopen : b.depths.of k ≠ 0)
    (h : closed k b c = true) : Bracket.ofCloser? c = some k ∧ b.isCode c = true := by
  rw [closed, beq_iff_eq, depth_step] at h
  split at h
  · next hcode =>
    split at h
    · exact absurd h (Nat.succ_ne_zero _)
    · split at h
      · next hclose => exact ⟨hclose.1, hcode.1⟩
      · exact absurd h hopen
  · exact absurd h hopen

theorem exists_closer {c : Char} {k : Bracket} (hk : Bracket.ofOpener? c = some k) {t r : Text}
    (h : fresh.afterStop? (closed k) (c :: t) = some r) :
    ∃ s, t = s ++ k.closer :: r ∧ (fresh.run (c :: s)).isCode k.closer = true := by
  obtain ⟨s, d, heq, hs, hd⟩ := afterStop?_eq_some_iff.mp h
  rcases s with - | ⟨e, s⟩
  · -- the opener itself leaves its group open
    obtain ⟨rfl, -⟩ := List.cons.inj heq
    have hdepths := (Nesting.tallies_fresh.step (Nesting.step?_of_ofOpener? hk)).depths k
    rw [run_nil, closed, beq_iff_eq, hdepths] at hd
    simp at hd
  · obtain ⟨rfl, rfl⟩ := List.cons.inj heq
    have hopen := depth_ne_zero_of_afterStop? (List.cons_ne_nil _ _) hs
    obtain ⟨hclose, hcode⟩ := ofCloser?_of_closed hopen hd
    obtain rfl := Bracket.eq_closer hclose
    exact ⟨s, rfl, hcode⟩

theorem eq_fresh {b : Balance} (hlexer : b.lexer = {}) (hdepths : ∀ k, b.depths.of k = 0)
    (hcounts : b.countsAngles = true) : b = fresh := by
  refine ext_of hlexer ?_ hcounts
  have hangle := hdepths .angle
  have hparen := hdepths .paren
  have hbrace := hdepths .brace
  generalize b.depths = d at hangle hparen hbrace
  obtain ⟨angle, paren, brace⟩ := d
  obtain rfl : angle = 0 := hangle
  obtain rfl : paren = 0 := hparen
  obtain rfl : brace = 0 := hbrace
  rfl

/-- A group in which no literal is cut off leaves a fresh balance fresh. -/
theorem run_group {g : Text} (hg : g.isGroup = true)
    (hclosed : Lexer.closesLiterals {} g = true) : fresh.run g = fresh := by
  have hescapes : (fresh.run g).lexer.EscapesInLiteral := by
    rw [run_lexer]
    exact Lexer.EscapesInLiteral.run_of_closesLiterals (fun h ↦ absurd h (by decide)) hclosed
  obtain ⟨c, k, t, rfl, hk, ht⟩ := Text.exists_of_isGroup hg
  have hopen := Nesting.tallies_fresh.step (Nesting.step?_of_ofOpener? hk)
  obtain ⟨m, hm, hnil, hmode⟩ := Nesting.exists_of_closesAtEnd hopen (by simp) ht
  refine eq_fresh ?_ (fun k ↦ by rw [run_cons, hm.depths, hnil, List.count_nil]) hm.countsAngles
  rw [run_cons, hm.lexer] at hescapes ⊢
  have hescaping : m.lexer.escaping = false := by
    by_contra hescaping
    obtain ⟨q, hq⟩ := hescapes (by simpa using hescaping)
    exact absurd (hmode.symm.trans hq) (by simp)
  generalize m.lexer = l at hmode hescaping
  obtain ⟨mode, escaping⟩ := l
  obtain rfl : mode = .code .plain := hmode
  obtain rfl : escaping = false := hescaping
  rfl

/-! ## Passing over a text

No stop is found inside a group, because only its opener is outermost, and none in a text of neutral
characters that are no stops themselves. -/

/-- No outermost character of a text is one at which a reader stops. The reader is shown the
character in front and the text from the character on, with `rest` behind it. -/
def Avoids (stop : Option Char → Text → Bool) (rest : Text) : Balance → Option Char → Text → Prop
  | _, _, [] => True
  | b, before, c :: t =>
    (b.isOutermost c = true → stop before (c :: (t ++ rest)) = false) ∧
      Avoids stop rest (b.step c) (some c) t

variable {stop stop' : Option Char → Text → Bool} {rest s t : Text} {b : Balance}
  {before : Option Char}

theorem Avoids.mono (h : Avoids stop rest b before s)
    (hstop : ∀ before t, stop' before t = true → stop before t = true) :
    Avoids stop' rest b before s := by
  induction s generalizing b before with
  | nil => exact trivial
  | cons c s ih =>
    refine ⟨fun hc ↦ ?_, ih h.2⟩
    by_contra hne
    have hfalse := h.1 hc
    rw [hstop _ _ (by simpa using hne)] at hfalse
    exact absurd hfalse (by decide)

theorem Avoids.append (hs : Avoids stop (t ++ rest) b before s)
    (ht : Avoids stop rest (b.run s) (s.getLast?.or before) t) :
    Avoids stop rest b before (s ++ t) := by
  induction s generalizing b before with
  | nil => exact ht
  | cons c s ih =>
    have hlast : (c :: s).getLast?.or before = s.getLast?.or (some c) := by
      rw [List.getLast?_cons]
      cases s.getLast? <;> rfl
    rw [hlast] at ht
    refine ⟨fun hc ↦ ?_, ih hs.2 ht⟩
    have hstop := hs.1 hc
    rwa [← List.append_assoc] at hstop

private theorem avoids_of_closesAtEnd {n : Nesting} (h : n.Tallies b) (hne : n.stack ≠ [])
    (ht : n.closesAtEnd t = true) : Avoids stop rest b before t := by
  induction t generalizing n b before with
  | nil => exact trivial
  | cons c t ih =>
    refine ⟨fun hc ↦ ?_, ?_⟩
    · rw [isOutermost, Bool.and_eq_true, h.atTop_iff] at hc
      exact absurd hc.1 hne
    · rw [Nesting.closesAtEnd] at ht
      split at ht
      · exact absurd ht (by simp)
      · next m hm =>
        split at ht
        · rw [List.isEmpty_iff.mp ht]
          exact trivial
        · next hopen => exact ih (h.step hm) (by simpa using hopen) ht

/-- Of a group only the opener is outermost. -/
theorem avoids_group {g : Text} (hg : g.isGroup = true)
    (hopener : ∀ c t, g.head? = some c → stop before (c :: t) = false) :
    Avoids stop rest fresh before g := by
  obtain ⟨c, k, t, rfl, hk, ht⟩ := Text.exists_of_isGroup hg
  have hopen := Nesting.tallies_fresh.step (Nesting.step?_of_ofOpener? hk)
  exact ⟨fun _ ↦ hopener c _ rfl, avoids_of_closesAtEnd hopen (by simp) ht⟩

/-- A text of neutral characters is passed over if none of them is a stop. -/
theorem avoids_neutral (hneutral : ∀ c ∈ s, isNeutral c = true)
    (hstop : ∀ c ∈ s, ∀ before t, stop before (c :: t) = false) :
    Avoids stop rest fresh before s := by
  induction s generalizing before with
  | nil => exact trivial
  | cons c s ih =>
    rw [List.forall_mem_cons] at hneutral hstop
    refine ⟨fun _ ↦ hstop.1 _ _, ?_⟩
    rw [step_fresh hneutral.1]
    exact ih hneutral.2 hstop.2

theorem pieces_of_avoids (h : Avoids (fun _ t ↦ t.head? == some ',') rest b before s) (t : Text) :
    b.pieces [','] (s ++ t) = ((b.run s).pieces [','] t).modifyHead (s ++ ·) := by
  induction s generalizing b before with
  | nil => exact (congrFun List.modifyHead_id _).symm
  | cons c s ih =>
    have hc : ¬(b.isOutermost c && [','] == [c]) = true := by
      rw [Bool.and_eq_true]
      rintro ⟨hout, heq⟩
      obtain rfl : ',' = c := by simpa using heq
      exact absurd (h.1 hout) (by simp)
    rw [List.cons_append, pieces, if_neg hc, ih h.2, run_cons, List.modifyHead_modifyHead]
    rfl

end Balance

end CSharpOutline
