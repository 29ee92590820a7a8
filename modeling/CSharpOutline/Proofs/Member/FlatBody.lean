import CSharpOutline.Proofs.Member.Body
import CSharpOutline.Proofs.Member.Reading
import Mathlib.Algebra.GroupWithZero.Nat

/-!
# Bodies in the flat text

A document is read line by line, but its lines are only a view of one text with line feeds in it.
Following a body through the lines finds the line on which the search through the flat text ends
(`bodyEnds_flat`), although the two searches differ in two ways.

* The lines are cut at the line feeds, which are read but never stopped at. That is no loss: a line
  feed is no semicolon, and it closes no group that is open (`Balance.stopLine?_eq_lineOf`).
* The lines are read without counting angle brackets, while the closer of a group is looked for with
  all brackets counted. That makes no difference either, because the depth of one kind of bracket
  does not depend on the others (`Balance.stopOffset?_closed_congr`).
-/

namespace CSharpOutline

open Text

/-! ## The flat text

A place cuts the flat text in two. In front of it there are as many line feeds as lines, and behind
it is the flat text of the lines ahead. -/

/-- The text of lines, with a line feed between each two. -/
def flat (lines : List Text) : Text := ['\n'].intercalate lines

/-- The number of the line that holds an offset of a text. -/
def Text.lineOf (t : Text) (k : Nat) : Nat := (t.take k).count '\n'

/-- The offset in the flat text of a column of a line. -/
def offsetOf (lines : List Text) (line column : Nat) : Nat :=
  ((lines.take line).map (·.length + 1)).sum + column

theorem flat_cons {lines : List Text} (h : lines ≠ []) (line : Text) :
    flat (line :: lines) = line ++ '\n' :: flat lines := by
  obtain ⟨next, rest, rfl⟩ := List.exists_cons_of_ne_nil h
  rw [flat, List.intercalate_cons_cons, flat]
  simp

theorem Text.lineOf_append (s t : Text) (k : Nat) :
    lineOf (s ++ t) (s.length + k) = s.count '\n' + lineOf t k := by
  rw [lineOf, List.take_length_add_append, List.count_append, lineOf]

private theorem Text.lineOf_of_le {s : Text} (hs : '\n' ∉ s) (t : Text) {k : Nat}
    (hk : k ≤ s.length) : lineOf (s ++ t) k = 0 := by
  rw [lineOf, List.take_append_of_le_length hk, List.count_eq_zero]
  exact fun h ↦ hs (List.mem_of_mem_take h)

/-- A place cuts the flat text in two: in front of it there are as many line feeds as lines, and
behind it is the flat text of the lines ahead. -/
theorem exists_flat_eq {lines : List Text} (hcut : ∀ line ∈ lines, '\n' ∉ line) {l c : Nat}
    {t : Text} (ht : lines[l]? = some t) (hc : c ≤ t.length) :
    ∃ before, flat lines = before ++ flat (linesAhead lines l c) ∧
      before.length = offsetOf lines l c ∧ before.count '\n' = l := by
  rw [linesAhead_of_getElem? ht]
  induction lines generalizing l with
  | nil => simp at ht
  | cons line lines ih =>
    rw [List.forall_mem_cons] at hcut
    cases l with
    | zero =>
      obtain rfl : line = t := by simpa using ht
      refine ⟨line.take c, ?_, ?_, ?_⟩
      · rw [List.drop_one, List.tail_cons]
        by_cases hne : lines = []
        · simp [hne, flat]
        · rw [flat_cons hne, flat_cons hne, ← List.append_assoc, List.take_append_drop]
      · simp [offsetOf, hc]
      · exact List.count_eq_zero.mpr fun h ↦ hcut.1 (List.mem_of_mem_take h)
    | succ l =>
      have hne : lines ≠ [] := by
        rintro rfl
        simp at ht
      obtain ⟨before, hflat, hlength, hcount⟩ := ih hcut.2 ht
      refine ⟨line ++ '\n' :: before, ?_, ?_, ?_⟩
      · rw [flat_cons hne, hflat, List.append_assoc, List.cons_append, List.drop_succ_cons]
      · simp only [offsetOf, List.take_succ_cons, List.map_cons, List.sum_cons, List.length_append,
          List.length_cons, hlength]
        omega
      · rw [List.count_append, List.count_eq_zero.mpr hcut.1, List.count_cons_self, hcount,
          Nat.zero_add]

/-! ## Stopping in lines and in the flat text -/

namespace Balance

variable {stop : Balance → Char → Bool}

private theorem passes?_eq_ite (b : Balance) (t : Text) :
    b.passes? stop t = if b.stopOffset? stop t = none then some (b.run t) else none := by
  induction t generalizing b with
  | nil => rfl
  | cons c t ih =>
    rw [passes?, stopOffset?, ih, run_cons]
    by_cases hc : stop b c = true
    · simp [hc]
    · simp [hc]

/-- The line at which the search through the lines stops holds the offset at which the search
through the flat text stops. The invariant `P` holds while nothing has been stopped at, and keeps
the search from stopping at a line feed. -/
theorem stopLine?_eq_lineOf {P : Balance → Prop}
    (hstep : ∀ b c, P b → stop b c = false → P (b.step c))
    (hbreak : ∀ b, P b → stop b '\n' = false) {b : Balance} (hb : P b) {lines : List Text}
    (hcut : ∀ line ∈ lines, '\n' ∉ line) (hne : lines ≠ []) :
    b.stopLine? stop lines = (b.stopOffset? stop (flat lines)).map (flat lines).lineOf := by
  have hrun : ∀ {b : Balance} {t : Text}, P b → b.stopOffset? stop t = none → P (b.run t) := by
    intro b t hb ht
    induction t generalizing b with
    | nil => exact hb
    | cons c t ih =>
      rw [stopOffset?] at ht
      split at ht
      · simp at ht
      · next hc => exact ih (hstep b c hb (by simpa using hc)) (by simpa using ht)
  induction lines generalizing b with
  | nil => exact absurd rfl hne
  | cons line lines ih =>
    rw [List.forall_mem_cons] at hcut
    rw [stopLine?, passes?_eq_ite]
    by_cases hlines : lines = []
    · subst hlines
      have hflat : flat [line] = line ++ [] := by simp [flat]
      rw [hflat, List.append_nil]
      cases hline : b.stopOffset? stop line with
      | none => rfl
      | some k =>
        have hzero := lineOf_of_le hcut.1 [] (Nat.le_of_lt (stopOffset?_lt hline))
        rw [List.append_nil] at hzero
        rw [if_neg (by simp), Option.map_some, hzero]
    · rw [flat_cons hlines, stopOffset?_append]
      cases hline : b.stopOffset? stop line with
      | none =>
        -- the line feed is read and not stopped at, and the rest is one line further down
        have hafter := hrun hb hline
        have hfeed := hbreak _ hafter
        rw [if_pos rfl]
        dsimp only
        rw [ih (hstep _ _ hafter hfeed) hcut.2 hlines, stopOffset?, hfeed, if_neg (by decide),
          Option.none_or, Option.map_map, Option.map_map, Option.map_map]
        congr 1
        funext k
        have hshift := lineOf_append (line ++ ['\n']) (flat lines) k
        simp only [Function.comp_apply]
        rw [List.append_assoc, List.length_append, List.count_append,
          List.count_eq_zero.mpr hcut.1] at hshift
        simp only [List.length_singleton, List.singleton_append,
          List.count_singleton_self] at hshift
        rw [show line.length + (k + 1) = line.length + 1 + k by omega, hshift]
        omega
      | some k =>
        rw [if_neg (by simp), Option.some_or, Option.map_some,
          lineOf_of_le hcut.1 _ (Nat.le_of_lt (stopOffset?_lt hline))]

/-! ## One kind of bracket

The depth of a kind of bracket depends on that depth, the lexer, and whether the kind is counted,
and on no other kind. -/

theorem depth_step_congr {k : Bracket} {b b' : Balance} (hlexer : b.lexer = b'.lexer)
    (hdepth : b.depths.of k = b'.depths.of k) (hcounts : b.counts k = b'.counts k) (c : Char) :
    (b.step c).depths.of k = (b'.step c).depths.of k := by
  have hpush : ∀ j, (if b.counts j then b.depths.push j else b.depths).of k =
      (if b'.counts j then b'.depths.push j else b'.depths).of k := by
    intro j
    by_cases hj : k = j
    · subst hj
      rw [hcounts]
      split <;> simp [Depths.of_push, hdepth]
    · split <;> split <;> simp [Depths.of_push, hj, hdepth]
  have hpop : ∀ j,
      (if b.counts j && !b.lexer.closesArrow c then b.depths.pop j else b.depths).of k =
        (if b'.counts j && !b'.lexer.closesArrow c then b'.depths.pop j else b'.depths).of k := by
    intro j
    by_cases hj : k = j
    · subst hj
      rw [hcounts, hlexer]
      split <;> simp [Depths.of_pop, hdepth]
    · split <;> split <;> simp [Depths.of_pop, hj, hdepth]
  have hcount : (b.count c).of k = (b'.count c).of k := by
    rw [count, count]
    cases Bracket.ofOpener? c with
    | some j => exact hpush j
    | none =>
      cases Bracket.ofCloser? c with
      | some j => exact hpop j
      | none => exact hdepth
  rw [step, step, isCode, isCode, hlexer]
  dsimp only
  split
  · exact hcount
  · exact hdepth

theorem stopOffset?_closed_congr {k : Bracket} {b b' : Balance} (hlexer : b.lexer = b'.lexer)
    (hdepth : b.depths.of k = b'.depths.of k) (hcounts : b.counts k = b'.counts k) (t : Text) :
    b.stopOffset? (closed k) t = b'.stopOffset? (closed k) t := by
  induction t generalizing b b' with
  | nil => rfl
  | cons c t ih =>
    have hnext := depth_step_congr hlexer hdepth hcounts c
    rw [stopOffset?, stopOffset?, closed, closed, hnext,
      ih (by rw [step_lexer, step_lexer, hlexer]) hnext hcounts]

end Balance

/-! ## The end of a body -/

/-- A statement that starts at the offset `o` of a text ends at its offset `k`: a semicolon stands
there, read as code, and no group opened since is open. -/
structure EndsStatementAt (t : Text) (o k : Nat) : Prop where
  le : o ≤ k
  semicolon : t[k]? = some ';'
  isCode : (Balance.withoutAngles.run ((t.take k).drop o)).isCode ';' = true
  total_eq : (Balance.withoutAngles.run ((t.take k).drop o)).depths.total = 0

private theorem endsStatementAt_iff {t : Text} {o j : Nat} :
    EndsStatementAt t o (o + j) ↔ ∃ c, (t.drop o)[j]? = some c ∧
      Balance.endsStatement (Balance.withoutAngles.run ((t.drop o).take j)) c = true := by
  have hread : (t.take (o + j)).drop o = (t.drop o).take j := by
    rw [List.drop_take, Nat.add_sub_cancel_left]
  rw [List.getElem?_drop, ← hread]
  constructor
  · rintro ⟨-, hsemicolon, hcode, htotal⟩
    refine ⟨';', hsemicolon, ?_⟩
    simp [Balance.endsStatement, Balance.isOutermost, Balance.atTop, hcode, htotal]
  · rintro ⟨c, hc, hstop⟩
    simp only [Balance.endsStatement, Balance.isOutermost, Balance.atTop, Bool.and_eq_true,
      beq_iff_eq] at hstop
    obtain ⟨⟨htotal, hcode⟩, rfl⟩ := hstop
    exact ⟨Nat.le_add_right o j, hc, hcode, htotal⟩

theorem stopOffset?_endsStatement {t : Text} {o j : Nat} :
    Balance.withoutAngles.stopOffset? Balance.endsStatement (t.drop o) = some j ↔
      EndsStatementAt t o (o + j) ∧ ∀ i < o + j, ¬EndsStatementAt t o i := by
  rw [Balance.stopOffset?_eq_some_iff, ← endsStatementAt_iff]
  refine and_congr_right fun _ ↦ ⟨fun h i hi hends ↦ ?_, fun h i hi c hc ↦ ?_⟩
  · obtain ⟨i, rfl⟩ := Nat.exists_eq_add_of_le hends.le
    obtain ⟨c, hc, hstop⟩ := endsStatementAt_iff.mp hends
    rw [h i (by omega) c hc] at hstop
    exact absurd hstop (by decide)
  · rw [← Bool.not_eq_true]
    exact fun hstop ↦ h (o + i) (by omega) (endsStatementAt_iff.mpr ⟨c, hc, hstop⟩)

section

variable {lines : List Text} {l c : Nat} {t : Text}

private theorem linesAhead_ne_nil (ht : lines[l]? = some t) : linesAhead lines l c ≠ [] := by
  rw [linesAhead_of_getElem? ht]
  simp

theorem not_mem_of_mem_linesAhead (hcut : ∀ line ∈ lines, '\n' ∉ line) :
    ∀ line ∈ linesAhead lines l c, '\n' ∉ line := by
  intro line hline
  obtain ⟨whole, hwhole, hsuffix⟩ := exists_suffix_of_mem_linesAhead hline
  exact fun h ↦ hcut whole hwhole (hsuffix.subset h)

theorem stopLineFrom_flat {stop : Balance → Char → Bool}
    (hcut : ∀ line ∈ lines, '\n' ∉ line) (ht : lines[l]? = some t) (hc : c ≤ t.length)
    (hstop : Balance.withoutAngles.stopLine? stop (linesAhead lines l c) =
      (Balance.withoutAngles.stopOffset? stop (flat (linesAhead lines l c))).map
        (flat (linesAhead lines l c)).lineOf) :
    stopLineFrom stop lines l c = .ok
      ((Balance.withoutAngles.stopOffset? stop ((flat lines).drop (offsetOf lines l c))).elim
        (lines.length - 1 : Int) fun k ↦ (flat lines).lineOf (offsetOf lines l c + k)) := by
  obtain ⟨before, hflat, hlength, hcount⟩ := exists_flat_eq hcut ht hc
  rw [Opener.stopLineFrom_natCast stop (List.getElem?_eq_some_iff.mp ht).1, hstop, hflat, ← hlength,
    List.drop_left]
  cases Balance.withoutAngles.stopOffset? stop (flat (linesAhead lines l c)) with
  | none => rfl
  | some k =>
    rw [Option.map_some, Option.elim_some, Option.elim_some, lineOf_append, hcount]
    rfl

private theorem statementEnd_flat (hcut : ∀ line ∈ lines, '\n' ∉ line) (ht : lines[l]? = some t)
    (hc : c ≤ t.length) :
    statementEnd lines l c = .ok
      ((Balance.withoutAngles.stopOffset? Balance.endsStatement
        ((flat lines).drop (offsetOf lines l c))).elim
        (lines.length - 1 : Int) fun k ↦ (flat lines).lineOf (offsetOf lines l c + k)) := by
  refine stopLineFrom_flat hcut ht hc ?_
  exact Balance.stopLine?_eq_lineOf (P := fun _ ↦ True) (fun _ _ _ _ ↦ trivial)
    (fun _ _ ↦ by simp [Balance.endsStatement]) trivial (not_mem_of_mem_linesAhead hcut)
    (linesAhead_ne_nil ht)

/-- From an opening brace on, the braces are counted the same with and without angle brackets, and a
line feed does not close them. -/
theorem stopLine?_brace {r : Text} {rest : List Text}
    (hcut : ∀ line ∈ ('{' :: r) :: rest, '\n' ∉ line) :
    Balance.withoutAngles.stopLine? (Balance.closed .brace) (('{' :: r) :: rest) =
      (Balance.withoutAngles.stopOffset? (Balance.closed .brace) (flat (('{' :: r) :: rest))).map
        (flat (('{' :: r) :: rest)).lineOf := by
  have hopen : Balance.closed .brace Balance.withoutAngles '{' = false := by decide
  have hflat : flat (('{' :: r) :: rest) = '{' :: flat (r :: rest) := by
    by_cases hrest : rest = []
    · simp [hrest, flat]
    · rw [flat_cons hrest, flat_cons hrest, List.cons_append]
  have hcut' : ∀ line ∈ r :: rest, '\n' ∉ line := by
    rw [List.forall_mem_cons] at hcut ⊢
    exact ⟨fun h ↦ hcut.1 (List.mem_cons_of_mem _ h), hcut.2⟩
  have hinside : (Balance.withoutAngles.step '{').stopLine? (Balance.closed .brace) (r :: rest) =
      ((Balance.withoutAngles.step '{').stopOffset? (Balance.closed .brace) (flat (r :: rest))).map
        (flat (r :: rest)).lineOf := by
    refine Balance.stopLine?_eq_lineOf (P := fun b ↦ b.depths.of .brace ≠ 0) (fun b c _ h ↦ ?_)
      (fun b hb ↦ ?_) (by decide) hcut' (by simp)
    · simpa [Balance.closed] using h
    · rw [Balance.closed, Balance.depths_step_of_isUncounted (by decide)]
      simpa using hb
  have hline : Balance.withoutAngles.stopLine? (Balance.closed .brace) (('{' :: r) :: rest) =
      (Balance.withoutAngles.step '{').stopLine? (Balance.closed .brace) (r :: rest) := by
    rw [Balance.stopLine?, Balance.passes?, hopen]
    rfl
  rw [hline, hinside, hflat, Balance.stopOffset?, hopen, if_neg (by decide), Option.map_map]
  rfl

private theorem blockEnd_flat (hcut : ∀ line ∈ lines, '\n' ∉ line) (ht : lines[l]? = some t)
    (hc : t[c]? = some '{') :
    (flat lines).closingAt (offsetOf lines l c) = .ok
        ((closing? ((flat lines).drop (offsetOf lines l c))).elim (-1) (offsetOf lines l c + ·)) ∧
      blockEnd lines l c = .ok
        ((closing? ((flat lines).drop (offsetOf lines l c))).elim
          (lines.length - 1 : Int) fun k ↦ (flat lines).lineOf (offsetOf lines l c + k)) := by
  obtain ⟨hlt, hchar⟩ := List.getElem?_eq_some_iff.mp hc
  have hahead : linesAhead lines l c = ('{' :: t.drop (c + 1)) :: lines.drop (l + 1) := by
    rw [linesAhead_of_getElem? ht, List.drop_eq_getElem_cons hlt, hchar]
  obtain ⟨before, hflat, hlength, -⟩ := exists_flat_eq hcut ht (Nat.le_of_lt hlt)
  have hdrop : ∃ r, (flat lines).drop (offsetOf lines l c) = '{' :: r := by
    rw [hflat, ← hlength, List.drop_left, hahead]
    by_cases hrest : lines.drop (l + 1) = []
    · exact ⟨t.drop (c + 1), by simp [hrest, flat]⟩
    · exact ⟨_, by rw [flat_cons hrest, List.cons_append]⟩
  obtain ⟨r, hr⟩ := hdrop
  have hoffset : offsetOf lines l c < (flat lines).length := by
    have hpos := congrArg List.length hr
    rw [List.length_drop, List.length_cons] at hpos
    omega
  refine ⟨Text.closingAt_natCast hoffset, ?_⟩
  have hstop : closing? ((flat lines).drop (offsetOf lines l c)) =
      Balance.withoutAngles.stopOffset? (Balance.closed .brace)
        ((flat lines).drop (offsetOf lines l c)) := by
    rw [hr]
    have hangles : Balance.fresh.counts .brace = Balance.withoutAngles.counts .brace := rfl
    exact Balance.stopOffset?_closed_congr (by rfl) (by rfl) hangles _
  rw [hstop]
  refine stopLineFrom_flat hcut ht (Nat.le_of_lt hlt) ?_
  rw [hahead]
  exact stopLine?_brace (hahead ▸ not_mem_of_mem_linesAhead hcut)

/-- The line on which a body ends is the line of the flat text on which it ends: a block at the
closer of its brace, a statement at its first semicolon outside every group. A body that does not
end runs to the last line. -/
theorem bodyEnds_flat (hcut : ∀ line ∈ lines, '\n' ∉ line) (ht : lines[l]? = some t)
    (hc : c ≤ t.length) :
    (t[c]? = some '{' → ∃ k, (flat lines).closingAt (offsetOf lines l c) = .ok k ∧
      (0 ≤ k → blockEnd lines l c = .ok ((flat lines).lineOf k.toNat)) ∧
      (k < 0 → k = -1 ∧ blockEnd lines l c = .ok (lines.length - 1))) ∧
    (∀ k, EndsStatementAt (flat lines) (offsetOf lines l c) k →
      (∀ j < k, ¬EndsStatementAt (flat lines) (offsetOf lines l c) j) →
      statementEnd lines l c = .ok ((flat lines).lineOf k)) ∧
    ((∀ k, ¬EndsStatementAt (flat lines) (offsetOf lines l c) k) →
      statementEnd lines l c = .ok (lines.length - 1)) := by
  refine ⟨fun hbrace ↦ ?_, fun k hk hfirst ↦ ?_, fun hnone ↦ ?_⟩
  · obtain ⟨hclosing, hend⟩ := blockEnd_flat hcut ht hbrace
    refine ⟨_, hclosing, ?_⟩
    rw [hend]
    cases closing? ((flat lines).drop (offsetOf lines l c)) with
    | none => exact ⟨fun h ↦ absurd h (by rw [Option.elim_none]; decide), fun _ ↦ ⟨rfl, rfl⟩⟩
    | some k =>
      rw [Option.elim_some, Option.elim_some]
      exact ⟨fun _ ↦ by rw [← Int.natCast_add, Int.toNat_natCast], fun h ↦ by omega⟩
  · obtain ⟨j, rfl⟩ := Nat.exists_eq_add_of_le hk.le
    rw [statementEnd_flat hcut ht hc, stopOffset?_endsStatement.mpr ⟨hk, hfirst⟩, Option.elim_some]
  · rw [statementEnd_flat hcut ht hc]
    cases hstop : Balance.withoutAngles.stopOffset? Balance.endsStatement
        ((flat lines).drop (offsetOf lines l c)) with
    | none => rfl
    | some j => exact absurd (stopOffset?_endsStatement.mp hstop).1 (hnone _)

end

/-- A property whose getter returns a string over two lines, and whose value follows below. -/
def brokenString : List Text :=
  ["int A \x7b get \x7b return a < b ? @\"\x7d".toList, ";\"; \x7d \x7d // ;".toList,
    "= \"\x7d\";".toList]

theorem bodyEnds_flat_brokenString :
    (flat brokenString).closingAt 6 = .ok 39 ∧ blockEnd brokenString 0 6 = .ok 1 ∧
      EndsStatementAt (flat brokenString) 6 51 ∧ statementEnd brokenString 0 6 = .ok 2 := by
  have hcut : ∀ line ∈ brokenString, '\n' ∉ line := by decide
  have hends := bodyEnds_flat hcut (l := 0) (c := 6) rfl (by decide)
  obtain ⟨k, hclosing, hblock, -⟩ := hends.1 (by decide)
  have hk : (flat brokenString).closingAt (offsetOf brokenString 0 6) = .ok 39 := by decide +kernel
  obtain rfl : k = 39 := Except.ok.inj (hclosing.symm.trans hk)
  have hfirst : EndsStatementAt (flat brokenString) 6 51 ∧
      ∀ j < 51, ¬EndsStatementAt (flat brokenString) 6 j :=
    stopOffset?_endsStatement (j := 45).mp (by decide +kernel)
  exact ⟨hk, hblock (by decide), hfirst.1, hends.2.1 51 hfirst.1 hfirst.2⟩

end CSharpOutline
