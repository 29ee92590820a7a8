import CSharpOutline.Code.Group
import CSharpOutline.Proofs.Code.Inert
import CSharpOutline.Proofs.Code.Stopping

/-!
# Groups across a run of blanks

Where the lines of a declaration are joined, a run of blanks is written as a single space or, next
to some brackets and commas, as nothing. A *gap* is such a place: the character in front of it, the
blanks, what is written in their stead, and the text after it. What makes a gap harmless is that
the balance after the blanks and the balance after what stands for them agree on the text that
follows (`Gap.agree`); the one thing that would tell them apart is an arrow closed up by dropping
the blanks between its two characters.

Groups are looked at here through what follows them, `Balance.afterStop?`, because what follows is
the same text on both sides of the comparison while the offsets are not.
-/

namespace CSharpOutline

namespace Balance

/-! ## Closing a group

A group that ends inside a text ends there whatever follows, and one that the text leaves open goes
on in what follows. -/

theorem depth_ne_zero_of_afterStop? {k : Bracket} {b : Balance} {t : Text} (hne : t ≠ [])
    (h : b.afterStop? (closed k) t = none) : (b.run t).depths.of k ≠ 0 := by
  induction t generalizing b with
  | nil => exact absurd rfl hne
  | cons c t ih =>
    rw [afterStop?] at h
    split at h
    · simp at h
    · next hc =>
      rw [run_cons]
      by_cases ht : t = []
      · rw [ht, run_nil]
        simpa [closed] using hc
      · exact ih ht h

/-- Blanks close no group. -/
theorem afterStop?_blanks {k : Bracket} {b : Balance} (hk : b.depths.of k ≠ 0) {w : Text}
    (hw : w.allBlank = true) (t : Text) :
    b.afterStop? (closed k) (w ++ t) = (b.run w).afterStop? (closed k) t := by
  induction w generalizing b with
  | nil => rfl
  | cons c w ih =>
    rw [Text.allBlank_cons, Bool.and_eq_true] at hw
    have hdepths := depths_step_of_isUncounted (isUncounted_of_isBlank hw.1) b
    rw [List.cons_append, afterStop?, if_neg, ih (by rwa [hdepths]) hw.2, run_cons]
    rw [closed, hdepths]
    simpa using hk

end Balance

namespace Text

theorem closingAt_natCast {t : Text} {i : Nat} (hi : i < t.length) :
    t.closingAt i = .ok ((closing? (t.drop i)).elim (-1) (i + ·)) := by
  have hitem : item? t (i : Int) = some t[i] := by
    rw [item?, position?_natCast hi, Option.bind_some, List.getElem?_eq_getElem hi]
  rw [closingAt, hitem, readFrom?_natCast]

/-- The group that a text starts with ends where its kind of bracket is closed again; a group that
is not closed takes up the whole text. -/
theorem afterGroup_cons {c : Char} {k : Bracket} (hk : Bracket.ofOpener? c = some k)
    (hc : c = '<' ∨ c = '(') (t : Text) :
    afterGroup (c :: t) = (Balance.fresh.afterStop? (Balance.closed k) (c :: t)).getD [] := by
  rw [afterGroup, if_pos hc, closing?, hk, Balance.afterStop?_eq_map]
  dsimp only
  cases Balance.fresh.stopOffset? (Balance.closed k) (c :: t) with
  | none => rfl
  | some n => rfl

theorem exists_ofOpener? {c : Char} (hc : c = '<' ∨ c = '(') :
    ∃ k, Bracket.ofOpener? c = some k := by
  rcases hc with rfl | rfl
  · exact ⟨.angle, rfl⟩
  · exact ⟨.paren, rfl⟩

/-- A group that ends inside a text ends there whatever follows. -/
theorem afterGroup_of_closed {c : Char} {k : Bracket} (hk : Bracket.ofOpener? c = some k)
    (hc : c = '<' ∨ c = '(') {s r : Text}
    (h : Balance.fresh.afterStop? (Balance.closed k) (c :: s) = some r) (t : Text) :
    afterGroup (c :: s ++ t) = r ++ t := by
  rw [List.cons_append, afterGroup_cons hk hc, ← List.cons_append, Balance.afterStop?_append, h]
  rfl

theorem afterGroup_of_open {c : Char} {k : Bracket} (hk : Bracket.ofOpener? c = some k)
    (hc : c = '<' ∨ c = '(') {s : Text}
    (h : Balance.fresh.afterStop? (Balance.closed k) (c :: s) = none) (t : Text) :
    afterGroup (c :: s ++ t) =
      ((Balance.fresh.run (c :: s)).afterStop? (Balance.closed k) t).getD [] := by
  rw [List.cons_append, afterGroup_cons hk hc, ← List.cons_append, Balance.afterStop?_append, h]
  rfl

theorem afterGroup_suffix (t : Text) : afterGroup t <:+ t := by
  cases t with
  | nil => exact List.suffix_refl _
  | cons c t =>
    by_cases hc : c = '<' ∨ c = '('
    · obtain ⟨k, hk⟩ := exists_ofOpener? hc
      rw [afterGroup_cons hk hc]
      cases h : Balance.fresh.afterStop? (Balance.closed k) (c :: t) with
      | none => exact List.nil_suffix
      | some r => exact Balance.afterStop?_suffix h
    · have hself : afterGroup (c :: t) = c :: t := by rw [afterGroup, if_neg hc]
      exact ⟨[], hself⟩

theorem afterGroup_append_of_ne_nil {s : Text} (h : afterGroup s ≠ []) (t : Text) :
    afterGroup (s ++ t) = afterGroup s ++ t := by
  cases s with
  | nil => exact absurd rfl h
  | cons c s =>
    by_cases hc : c = '<' ∨ c = '('
    · obtain ⟨k, hk⟩ := exists_ofOpener? hc
      rw [afterGroup_cons hk hc] at h ⊢
      cases hs : Balance.fresh.afterStop? (Balance.closed k) (c :: s) with
      | none =>
        rw [hs] at h
        exact absurd rfl h
      | some r => exact afterGroup_of_closed hk hc hs t
    · rw [List.cons_append, afterGroup, if_neg hc, afterGroup, if_neg hc]
      rfl

theorem afterGroup_append_suffix {s : Text} (h : afterGroup s = []) (t : Text) :
    afterGroup (s ++ t) <:+ t := by
  cases s with
  | nil => exact afterGroup_suffix t
  | cons c s =>
    by_cases hc : c = '<' ∨ c = '('
    · obtain ⟨k, hk⟩ := exists_ofOpener? hc
      cases hs : Balance.fresh.afterStop? (Balance.closed k) (c :: s) with
      | none =>
        rw [afterGroup_of_open hk hc hs]
        cases hr : (Balance.fresh.run (c :: s)).afterStop? (Balance.closed k) t with
        | none => exact List.nil_suffix
        | some r => exact Balance.afterStop?_suffix hr
      | some r =>
        rw [afterGroup_cons hk hc, hs] at h
        obtain rfl : r = [] := h
        rw [afterGroup_of_closed hk hc hs]
        exact List.suffix_refl _
    · rw [afterGroup, if_neg hc] at h
      exact absurd h (by simp)

end Text

/-! ## Gaps

The blanks and what stands for them leave balances that agree on the text behind the gap, so a group
that is open at the gap ends at the same place on both sides. -/

def tightLeft : List Char := ['(', ',', '<']

/-- The brackets and the comma in front of which a line break is joined without a space. -/
def tightRight : List Char := [')', ',', '>']

theorem isInert_of_mem_tightLeft {c : Char} (h : c ∈ tightLeft) : Lexer.isInert c = true := by
  simp only [tightLeft, List.mem_cons, List.not_mem_nil, or_false] at h
  rcases h with rfl | rfl | rfl <;> decide

private theorem isInert_of_mem_tightRight {c : Char} (h : c ∈ tightRight) :
    Lexer.isInert c = true := by
  simp only [tightRight, List.mem_cons, List.not_mem_nil, or_false] at h
  rcases h with rfl | rfl | rfl <;> decide

/-- A run of blanks `blanks` between the character `last` and the text `rest`, in the place of
which `short` is written: a space, or nothing next to a bracket or comma. -/
structure Gap (last : Char) (blanks short rest : Text) : Prop where
  ne_nil : blanks ≠ []
  allBlank : blanks.allBlank = true
  unbroken : '\n' ∉ blanks
  last_visible : isBlank last = false
  rest_visible : ∃ c t, rest = c :: t ∧ isBlank c = false
  short_eq : short = [' '] ∨ short = []
  /-- Nothing is written only next to a bracket or comma. -/
  tight : short = [] → last ∈ tightLeft ∨ ∃ c t, rest = c :: t ∧ c ∈ tightRight
  /-- No arrow is closed up. -/
  arrow : last = '=' → rest.head? ≠ some '>'

namespace Balance

/-- Two balances that cannot be told apart by reading `t`: they are the same, or the first
character of `t` makes them so. -/
def Agree (b b' : Balance) (t : Text) : Prop :=
  b = b' ∨ ∃ c r, t = c :: r ∧ c ∈ tightRight ∧ b.step c = b'.step c

private theorem Agree.afterStop? {k : Bracket} {b b' : Balance} {t : Text} (h : Agree b b' t) :
    b.afterStop? (closed k) t = b'.afterStop? (closed k) t := by
  rcases h with rfl | ⟨c, r, rfl, -, hstep⟩
  · rfl
  · rw [Balance.afterStop?, Balance.afterStop?, closed, closed, hstep]

private theorem closesArrow_step {b : Balance} {p c : Char}
    (h : (b.step p).lexer.closesArrow c = true) : p = '=' := by
  rw [step_lexer, Lexer.closesArrow, Bool.and_eq_true, beq_iff_eq, beq_iff_eq] at h
  exact Lexer.eq_of_mode_step h.2 rfl

/-- An opening bracket or a comma closes no group. -/
theorem depth_le_step {c : Char} (hc : c ∈ tightLeft) (b : Balance) (k : Bracket) :
    b.depths.of k ≤ (b.step c).depths.of k := by
  have hcloser : Bracket.ofCloser? c = none := by
    simp only [tightLeft, List.mem_cons, List.not_mem_nil, or_false] at hc
    rcases hc with rfl | rfl | rfl <;> rfl
  rw [step]
  dsimp only
  split
  · rw [count, hcloser]
    cases Bracket.ofOpener? c with
    | none => exact Nat.le_refl _
    | some j =>
      dsimp only
      split
      · rw [Depths.of_push]
        exact Nat.le_add_right _ _
      · exact Nat.le_refl _
  · exact Nat.le_refl _

end Balance

namespace Gap

variable {last : Char} {blanks short rest : Text}

theorem trimStart_ne_nil (g : Gap last blanks short rest) {u : Text}
    (hu : u.getLast? = some last) : Text.trimStart u ≠ [] := by
  intro hnil
  have hblank := Text.allBlank_iff.mp (Text.trimStart_eq_nil_iff.mp hnil) last
    (List.mem_of_getLast? hu)
  rw [g.last_visible] at hblank
  exact absurd hblank (by decide)

theorem trimStart_blanks (g : Gap last blanks short rest) :
    Text.trimStart (blanks ++ rest) = rest := by
  obtain ⟨c, t, rfl, hc⟩ := g.rest_visible
  rw [Text.trimStart_allBlank_append g.allBlank, Text.trimStart_cons hc]

theorem allBlank_short (g : Gap last blanks short rest) : short.allBlank = true := by
  rcases g.short_eq with rfl | rfl <;> decide

theorem trimStart_short (g : Gap last blanks short rest) :
    Text.trimStart (short ++ rest) = rest := by
  obtain ⟨c, t, rfl, hc⟩ := g.rest_visible
  rw [Text.trimStart_allBlank_append g.allBlank_short, Text.trimStart_cons hc]

/-- After the character in front of the gap, the blanks and what stands for them leave balances
that agree on the text behind the gap. -/
theorem agree (g : Gap last blanks short rest) {b : Balance} (hb : b.Proper) :
    ((b.step last).run blanks).Agree ((b.step last).run short) rest := by
  have hrun := Balance.run_blanks (hb.step last) g.ne_nil g.allBlank g.unbroken
  rcases g.short_eq with rfl | rfl
  · exact .inl hrun
  · rcases g.tight rfl with hlast | ⟨c, t, rfl, hc⟩
    · refine .inl ?_
      rw [hrun, Balance.step_space_of_isInert hb (isInert_of_mem_tightLeft hlast)]
      rfl
    · refine .inr ⟨c, t, rfl, hc, ?_⟩
      rw [hrun, Balance.run_nil]
      refine Balance.step_space_step (hb.step last) (isInert_of_mem_tightRight hc) ?_
      rw [← Bool.not_eq_true]
      intro harrow
      have hgt : c = '>' := by
        rw [Lexer.closesArrow, Bool.and_eq_true, beq_iff_eq] at harrow
        exact harrow.1
      exact g.arrow (Balance.closesArrow_step harrow) (by rw [hgt]; rfl)

theorem agree_fresh (g : Gap last blanks short rest) :
    (Balance.fresh.run blanks).Agree (Balance.fresh.run short) rest := by
  refine .inl ?_
  rw [Balance.run_blanks Balance.proper_fresh g.ne_nil g.allBlank g.unbroken]
  rcases g.short_eq with rfl | rfl <;> rfl

/-- What is left to read on either side of a gap: both readings are still in front of it, or at
it, or past it at the same place. A reading that has come to the gap has read no character that
draws the rest close, so if nothing is written there, it is for the sake of the rest. -/
inductive Sides (last : Char) (blanks short rest : Text) : Text → Text → Prop
  | before (u : Text) (h : u.getLast? = some last) :
    Sides last blanks short rest (u ++ (blanks ++ rest)) (u ++ (short ++ rest))
  | atGap (h : short = [] → ∃ c t, rest = c :: t ∧ c ∈ tightRight) :
    Sides last blanks short rest (blanks ++ rest) (short ++ rest)
  | past (r : Text) (h : r <:+ rest) : Sides last blanks short rest r r

theorem Sides.of_not_mem (g : Gap last blanks short rest) (h : last ∉ tightLeft) :
    Sides last blanks short rest (blanks ++ rest) (short ++ rest) :=
  .atGap fun hshort ↦ (g.tight hshort).resolve_left h

theorem Sides.of_suffix {u r : Text} (hu : u.getLast? = some last) (hr : r <:+ u) (hne : r ≠ []) :
    Sides last blanks short rest (r ++ (blanks ++ rest)) (r ++ (short ++ rest)) := by
  refine .before r ?_
  rw [Text.getLast?_of_suffix hr hne, hu]

theorem Sides.trimStart (g : Gap last blanks short rest) {a b : Text}
    (h : Sides last blanks short rest a b) :
    Sides last blanks short rest (Text.trimStart a) (Text.trimStart b) := by
  cases h with
  | before u hu =>
    have hne := g.trimStart_ne_nil hu
    rw [Text.trimStart_append_of_ne_nil hne, Text.trimStart_append_of_ne_nil hne]
    exact Sides.of_suffix hu (Text.trimStart_suffix u) hne
  | atGap _ =>
    rw [g.trimStart_blanks, g.trimStart_short]
    exact .past rest (List.suffix_refl _)
  | past r hr => exact .past _ ((Text.trimStart_suffix a).trans hr)

private theorem afterGroup_blanks (g : Gap last blanks short rest) :
    Text.afterGroup (blanks ++ rest) = blanks ++ rest := by
  obtain ⟨c, w, rfl⟩ := List.exists_cons_of_ne_nil g.ne_nil
  have hc : isBlank c = true := by have := g.allBlank; simp_all
  rw [List.cons_append, Text.afterGroup, if_neg]
  rintro (rfl | rfl) <;> exact absurd hc (by decide)

private theorem afterGroup_short (g : Gap last blanks short rest)
    (h : short = [] → ∃ c t, rest = c :: t ∧ c ∈ tightRight) :
    Text.afterGroup (short ++ rest) = short ++ rest := by
  rcases g.short_eq with rfl | rfl
  · rw [List.singleton_append, Text.afterGroup, if_neg (by decide)]
  · obtain ⟨c, t, rfl, hc⟩ := h rfl
    rw [List.nil_append, Text.afterGroup, if_neg]
    rintro (rfl | rfl) <;> exact absurd hc (by decide)

/-- A group that is open at the gap ends at the same place on both sides. -/
theorem afterStop?_eq (g : Gap last blanks short rest) {k : Bracket} {u : Text}
    (hu : u.getLast? = some last)
    (hopen : Balance.fresh.afterStop? (Balance.closed k) u = none) :
    ∃ b : Balance,
      (Balance.fresh.run u).afterStop? (Balance.closed k) (blanks ++ rest) =
        b.afterStop? (Balance.closed k) rest ∧
      (Balance.fresh.run u).afterStop? (Balance.closed k) (short ++ rest) =
        b.afterStop? (Balance.closed k) rest := by
  obtain ⟨v, rfl⟩ := List.getLast?_eq_some_iff.mp hu
  have hdepth := Balance.depth_ne_zero_of_afterStop? (by simp) hopen
  refine ⟨(Balance.fresh.run (v ++ [last])).run short, ?_, ?_⟩
  · rw [Balance.afterStop?_blanks hdepth g.allBlank, Balance.run_append]
    exact (g.agree (Balance.proper_fresh.run v)).afterStop?
  · rw [Balance.afterStop?_blanks hdepth g.allBlank_short]

/-- A group that ends right at the gap ends with a closing bracket. -/
theorem not_mem_tightLeft_of_afterStop? {k : Bracket} {c : Char} {u : Text}
    (hk : Bracket.ofOpener? c = some k) (hu : (c :: u).getLast? = some last)
    (h : Balance.fresh.afterStop? (Balance.closed k) (c :: u) = some []) : last ∉ tightLeft := by
  intro hlast
  obtain ⟨s, d, heq, hs, hd⟩ := Balance.afterStop?_eq_some_iff.mp h
  obtain rfl : d = last := by
    rw [heq] at hu
    simpa using hu
  rw [Balance.closed, beq_iff_eq] at hd
  by_cases hnil : s = []
  · -- the opener itself leaves its group open
    subst hnil
    obtain ⟨rfl, -⟩ := List.cons.inj heq
    have hcode : Balance.fresh.isCode c = true :=
      Lexer.isCode_of_isInert (isInert_of_mem_tightLeft hlast) _
    have hcount : Balance.fresh.count c = Balance.fresh.depths.push k := by
      rw [Balance.count, hk]
      rfl
    rw [Balance.run_nil, Balance.step, hcode, hcount] at hd
    simp [Depths.of_push] at hd
  · have hdepth := Balance.depth_ne_zero_of_afterStop? hnil hs
    have hle := Balance.depth_le_step hlast (Balance.fresh.run s) k
    omega

theorem Sides.afterGroup (g : Gap last blanks short rest) {a b : Text}
    (h : Sides last blanks short rest a b) :
    Sides last blanks short rest (Text.afterGroup a) (Text.afterGroup b) := by
  cases h with
  | before u hu =>
    by_cases hne : Text.afterGroup u = []
    · obtain ⟨c, u, rfl⟩ : ∃ c t, u = c :: t := by
        cases u with
        | nil => simp at hu
        | cons c t => exact ⟨c, t, rfl⟩
      have hc : c = '<' ∨ c = '(' := by
        apply Decidable.byContradiction
        intro hc
        rw [Text.afterGroup, if_neg hc] at hne
        exact absurd hne (by simp)
      obtain ⟨k, hk⟩ := Text.exists_ofOpener? hc
      cases hstop : Balance.fresh.afterStop? (Balance.closed k) (c :: u) with
      | none =>
        obtain ⟨b, hblanks, hshort⟩ := g.afterStop?_eq hu hstop
        rw [Text.afterGroup_of_open hk hc hstop, Text.afterGroup_of_open hk hc hstop, hblanks,
          hshort]
        cases hr : b.afterStop? (Balance.closed k) rest with
        | none => exact .past [] List.nil_suffix
        | some r => exact .past r (Balance.afterStop?_suffix hr)
      | some r =>
        rw [Text.afterGroup_cons hk hc, hstop] at hne
        obtain rfl : r = [] := hne
        rw [Text.afterGroup_of_closed hk hc hstop, Text.afterGroup_of_closed hk hc hstop]
        exact Sides.of_not_mem g (not_mem_tightLeft_of_afterStop? hk hu hstop)
    · rw [Text.afterGroup_append_of_ne_nil hne, Text.afterGroup_append_of_ne_nil hne]
      exact Sides.of_suffix hu (Text.afterGroup_suffix u) hne
  | atGap hshort =>
    rw [g.afterGroup_blanks, g.afterGroup_short hshort]
    exact .atGap hshort
  | past r hr => exact .past _ ((Text.afterGroup_suffix a).trans hr)

end Gap

end CSharpOutline
