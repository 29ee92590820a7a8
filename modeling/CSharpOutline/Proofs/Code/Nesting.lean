import CSharpOutline.Code.Nesting
import CSharpOutline.Proofs.Code.Gap
import CSharpOutline.Proofs.Code.Tokens
import Mathlib.Data.Nat.Find

/-!
# Counting agrees with nesting

A balance counts each kind of bracket for itself and never goes below zero, so on its own it cannot
tell `(<)>` from `(<>)`. On text that a single stack accepts it does not have to: as long as no
closer is refused, each depth is the number of brackets of its kind on the stack
(`Nesting.Tallies.run`), and no depth is ever cut off at zero.

Two consequences are drawn from this. The first character of a group is the lowest bracket on the
stack, so its kind reaches depth zero exactly when the stack is empty again, at the last character
of the group (`Text.closing?_of_isGroup`). And in text without an unmatched bracket, code stands
outside every group exactly where the stack is empty (`Text.stackAt_eq_nil_iff`).
-/

namespace CSharpOutline

namespace Nesting

variable {n m : Nesting} {b : Balance} {c : Char} {t : Text}

/-! ## One character -/

/-- What one character does to the stack: nothing, or it opens a bracket, or it closes the innermost
one. -/
theorem step?_cases (h : n.step? c = some m) :
    m.lexer = n.lexer.step c ∧
      ((m.stack = n.stack ∧ (n.lexer.isCode c = false ∨
          Bracket.ofOpener? c = none ∧
            (Bracket.ofCloser? c = none ∨ n.lexer.closesArrow c = true))) ∨
        (∃ k, m.stack = k :: n.stack ∧ n.lexer.isCode c = true ∧ Bracket.ofOpener? c = some k) ∨
        ∃ k, n.stack = k :: m.stack ∧ n.lexer.isCode c = true ∧ Bracket.ofCloser? c = some k ∧
          n.lexer.closesArrow c = false) := by
  obtain ⟨stack, hstack, rfl⟩ := Option.map_eq_some_iff.mp h
  refine ⟨rfl, ?_⟩
  split at hstack
  · next hcode =>
    rw [match?] at hstack
    split at hstack
    · next k hopen => exact .inr (.inl ⟨k, (Option.some.inj hstack).symm, hcode, hopen⟩)
    · next hopen hclose =>
      exact .inl ⟨(Option.some.inj hstack).symm, .inr ⟨hopen, .inl hclose⟩⟩
    · next k hopen hclose =>
      split at hstack
      · next harrow => exact .inl ⟨(Option.some.inj hstack).symm, .inr ⟨hopen, .inr harrow⟩⟩
      · next harrow =>
        split at hstack
        · simp at hstack
        · next j rest hrest =>
          split at hstack
          · next hjk =>
            obtain rfl : rest = stack := Option.some.inj hstack
            exact .inr (.inr ⟨k, by rw [hrest, hjk], hcode, hclose, by simpa using harrow⟩)
          · simp at hstack
  · next hcode => exact .inl ⟨(Option.some.inj hstack).symm, .inl (by simpa using hcode)⟩

/-! ## The depths and the stack

Each depth is the number of brackets of its kind on the stack, as long as no closer is refused. The
lowest bracket stays where it is until the stack is empty. -/

/-- A balance has counted what a nesting has stacked: both read with the same lexer, and each depth
is the number of open brackets of its kind. -/
structure Tallies (n : Nesting) (b : Balance) : Prop where
  lexer : b.lexer = n.lexer
  countsAngles : b.countsAngles = true
  depths : ∀ k, b.depths.of k = n.stack.count k

theorem tallies_fresh : Tallies {} Balance.fresh :=
  ⟨rfl, rfl, fun k ↦ by cases k <;> rfl⟩

theorem Tallies.step (h : Tallies n b) (hm : n.step? c = some m) : Tallies m (b.step c) := by
  obtain ⟨hlexer, hstack⟩ := step?_cases hm
  refine ⟨by rw [Balance.step_lexer, h.lexer, hlexer], h.countsAngles, fun k ↦ ?_⟩
  have hcounts : b.counts k = true := by rw [Balance.counts, h.countsAngles, Bool.true_or]
  rw [Balance.depth_step, Balance.isCode, h.lexer, h.depths k, hcounts]
  rcases hstack with ⟨heq, hquiet⟩ | ⟨j, heq, hcode, hopen⟩ | ⟨j, heq, hcode, hclose, harrow⟩
  · rw [heq]
    rcases hquiet with hcode | ⟨hopen, hclose | harrow⟩
    · simp [hcode]
    · simp [hopen, hclose]
    · simp [hopen, harrow]
  · rw [heq, List.count_cons, hcode, hopen, Bracket.ofCloser?_of_ofOpener? hopen]
    by_cases hjk : j = k <;> simp [hjk]
  · have hopen : Bracket.ofOpener? c = none := by
      by_contra hne
      obtain ⟨k, hk⟩ := Option.ne_none_iff_exists'.mp hne
      rw [Bracket.ofCloser?_of_ofOpener? hk] at hclose
      exact absurd hclose (by simp)
    rw [heq, List.count_cons, hcode, hopen, hclose, harrow]
    by_cases hjk : j = k <;> simp [hjk]

theorem Tallies.run (h : Tallies n b) (hm : n.run? t = some m) : Tallies m (b.run t) := by
  induction t generalizing n b with
  | nil => rwa [← Option.some.inj hm]
  | cons c t ih =>
    obtain ⟨n', hn', hm⟩ := Option.bind_eq_some_iff.mp hm
    rw [Balance.run_cons]
    exact ih (h.step hn') hm

theorem Tallies.atTop_iff (h : Tallies n b) : b.atTop = true ↔ n.stack = [] := by
  rw [Balance.atTop, beq_iff_eq, Depths.total_eq_zero_iff]
  simp only [h.depths, List.count_eq_zero]
  constructor
  · intro hnone
    exact List.eq_nil_iff_forall_not_mem.mpr hnone
  · intro hnil k
    rw [hnil]
    exact List.not_mem_nil

private theorem getLast?_step {k : Bracket} (hk : n.stack.getLast? = some k)
    (hm : n.step? c = some m) (hne : m.stack ≠ []) : m.stack.getLast? = some k := by
  obtain ⟨-, ⟨heq, -⟩ | ⟨j, heq, -⟩ | ⟨j, heq, -⟩⟩ := step?_cases hm
  · rwa [heq]
  · rw [heq, List.getLast?_cons, hk, Option.getD_some]
  · rwa [heq, List.getLast?_cons_of_ne_nil hne] at hk

/-! ## Groups -/

/-- The lowest bracket on the stack is closed where the stack gets empty. -/
theorem stopOffset?_of_closesAtEnd {k : Bracket} (h : Tallies n b)
    (hk : n.stack.getLast? = some k) (ht : n.closesAtEnd t = true) (s : Text) :
    b.stopOffset? (Balance.closed k) (t ++ s) = some (t.length - 1) := by
  induction t generalizing n b with
  | nil => simp [closesAtEnd] at ht
  | cons c t ih =>
    rw [closesAtEnd] at ht
    split at ht
    · simp at ht
    · next m hm =>
      have hstep := h.step hm
      rw [List.cons_append, Balance.stopOffset?, Balance.closed, hstep.depths k]
      split at ht
      · next hnil =>
        rw [List.isEmpty_iff] at hnil ht
        simp [hnil, ht]
      · next hne =>
        rw [List.isEmpty_iff] at hne
        have hlast := getLast?_step hk hm hne
        have hcount : m.stack.count k ≠ 0 :=
          List.count_eq_zero.not.mpr (not_not.mpr (List.mem_of_getLast? hlast))
        have hpos : t ≠ [] := by
          rintro rfl
          simp [closesAtEnd] at ht
        have hlength := List.length_pos_iff.mpr hpos
        rw [if_neg (by simpa using hcount), ih hstep hlast ht, Option.map_some, List.length_cons]
        congr 1
        omega

theorem step?_of_ofOpener? {k : Bracket} (hk : Bracket.ofOpener? c = some k) :
    step? {} c = some ⟨Lexer.step {} c, [k]⟩ := by
  unfold Bracket.ofOpener? at hk
  split at hk
  · rw [← Option.some.inj hk]; rfl
  · rw [← Option.some.inj hk]; rfl
  · rw [← Option.some.inj hk]; rfl
  · simp at hk

end Nesting

namespace Text

variable {g : Text}

theorem exists_of_isGroup (h : g.isGroup = true) :
    ∃ c k t, g = c :: t ∧ Bracket.ofOpener? c = some k ∧
      Nesting.closesAtEnd ⟨Lexer.step {} c, [k]⟩ t = true := by
  rw [isGroup, Bool.and_eq_true] at h
  obtain ⟨hopen, hclose⟩ := h
  obtain ⟨k, hk⟩ := Option.isSome_iff_exists.mp hopen
  obtain ⟨c, hc, hk⟩ := Option.bind_eq_some_iff.mp hk
  obtain ⟨t, rfl⟩ := List.head?_eq_some_iff.mp hc
  refine ⟨c, k, t, rfl, hk, ?_⟩
  rwa [Nesting.closesAtEnd, Nesting.step?_of_ofOpener? hk] at hclose

theorem closing?_of_isGroup (h : g.isGroup = true) (s : Text) :
    closing? (g ++ s) = some (g.length - 1) := by
  obtain ⟨c, k, t, rfl, hk, ht⟩ := exists_of_isGroup h
  have hopen := Nesting.tallies_fresh.step (Nesting.step?_of_ofOpener? hk)
  have hstop := Nesting.stopOffset?_of_closesAtEnd (k := k) hopen rfl ht s
  have hpos : 0 < t.length := by
    refine List.length_pos_iff.mpr ?_
    rintro rfl
    simp [Nesting.closesAtEnd] at ht
  have hclosed : ¬Balance.closed k Balance.fresh c = true := by
    rw [Balance.closed, hopen.depths k]
    simp
  rw [List.cons_append, closing?, hk]
  dsimp only
  rw [Balance.stopOffset?, if_neg hclosed, hstop, Option.map_some, List.length_cons]
  congr 1
  omega

theorem length_pos_of_isGroup (h : g.isGroup = true) : 0 < g.length := by
  obtain ⟨c, k, t, rfl, -⟩ := exists_of_isGroup h
  simp

theorem afterGroup_of_isGroup (h : g.isGroup = true)
    (hhead : g.head? = some '<' ∨ g.head? = some '(') (s : Text) : afterGroup (g ++ s) = s := by
  have hclose := closing?_of_isGroup h s
  obtain ⟨c, k, t, rfl, -⟩ := exists_of_isGroup h
  rw [List.cons_append] at hclose ⊢
  rw [afterGroup, if_pos (by simpa using hhead), hclose]
  simp

theorem closingAt_of_isGroup (h : g.isGroup = true) (p s : Text) :
    (p ++ g ++ s).closingAt p.length = .ok (p.length + g.length - 1) := by
  have hpos := length_pos_of_isGroup h
  rw [closingAt_natCast (by simp; omega), List.append_assoc, List.drop_left,
    closing?_of_isGroup h, Option.elim_some]
  congr 1
  omega

private theorem afterGroupAt_of_isGroup (h : g.isGroup = true)
    (hhead : g.head? = some '<' ∨ g.head? = some '(') (p s : Text) :
    (p ++ g ++ s).afterGroupAt p.length = .ok (p.length + g.length) := by
  have hclose := closingAt_of_isGroup h p s
  have hpos := length_pos_of_isGroup h
  obtain ⟨c, k, t, rfl, -⟩ := exists_of_isGroup h
  have hlt : p.length < (p ++ c :: t ++ s).length := by simp
  have hitem : item? (p ++ c :: t ++ s) (p.length : Int) = some c := by
    rw [item?, position?_natCast hlt, Option.bind_some]
    simp
  rw [afterGroupAt, if_neg (by omega), hitem]
  dsimp only
  rw [if_pos (by simpa using hhead), hclose]
  simp only [bind, Except.bind, pure, Except.pure]
  rw [if_neg (by omega)]
  congr 1
  omega

/-! ## Matched brackets

A pair is told by the stack alone: the opener is put on it, stays there and is taken off by the
closer. An offset lies outside every pair exactly where the stack is empty. -/

/-- The brackets that are open in front of offset `j`, unless one before it is refused. -/
def stackAt (t : Text) (j : Nat) : Option (List Bracket) :=
  (Nesting.run? {} (t.take j)).map Nesting.stack

/-- The bracket at offset `i` is matched with the one at offset `j`: it is put on the stack, stays
there up to offset `j`, and is taken off again by the character at `j`. -/
def Matches (t : Text) (i j : Nat) : Prop :=
  i < j ∧ ∃ k outer, t.stackAt i = some outer ∧ t.stackAt (i + 1) = some (k :: outer) ∧
    (∀ m, i < m → m ≤ j → ∃ inner, t.stackAt m = some (inner ++ k :: outer)) ∧
    t.stackAt (j + 1) = some outer

/-- Offset `j` belongs to no group. -/
def IsOutside (t : Text) (j : Nat) : Prop := ∀ i l, t.Matches i l → ¬(i ≤ j ∧ j ≤ l)

/-- A group starts at offset `j` that lies in no other group. -/
def OpensOutermost (t : Text) (j : Nat) : Prop :=
  (∃ l, t.Matches j l) ∧ ∀ i l, t.Matches i l → ¬(i < j ∧ j ≤ l)

def IsCodeAt (t : Text) (j : Nat) : Prop :=
  t[j]?.any (Balance.fresh.run (t.take j)).isCode = true

variable {t : Text} {i j : Nat}

@[simp] theorem stackAt_zero (t : Text) : t.stackAt 0 = some [] := rfl

theorem stackAt_of_length_le (h : t.isNested = true) (hj : t.length ≤ j) :
    t.stackAt j = some [] := by
  rw [isNested, Nesting.accepts, Option.any_eq_true_iff_get] at h
  obtain ⟨hsome, hnil⟩ := h
  rw [stackAt, List.take_of_length_le hj, ← Option.some_get hsome, Option.map_some,
    List.isEmpty_iff.mp hnil]

theorem exists_stackAt (h : t.isNested = true) (j : Nat) : ∃ stack, t.stackAt j = some stack := by
  have hlast := stackAt_of_length_le h (Nat.le_refl _)
  rw [stackAt, List.take_length] at hlast
  rw [← List.take_append_drop j t, Nesting.run?_append] at hlast
  rw [stackAt]
  cases hrun : Nesting.run? {} (t.take j) with
  | none =>
    rw [hrun] at hlast
    exact absurd hlast (by simp)
  | some n => exact ⟨n.stack, rfl⟩

/-- From one offset to the next the stack stays, grows by a bracket that is code, or loses its
innermost bracket. -/
theorem stackAt_succ_cases {before after : List Bracket} (hbefore : t.stackAt j = some before)
    (hafter : t.stackAt (j + 1) = some after) :
    after = before ∨ (∃ k, after = k :: before ∧ t.IsCodeAt j) ∨ ∃ k, before = k :: after := by
  by_cases hj : j < t.length
  · obtain ⟨n, hn, rfl⟩ := Option.map_eq_some_iff.mp hbefore
    rw [stackAt, List.take_succ_eq_append_getElem hj, Nesting.run?_append, hn] at hafter
    obtain ⟨m, hm, rfl⟩ := Option.map_eq_some_iff.mp hafter
    have hstep : n.step? t[j] = some m := by simpa using hm
    obtain ⟨-, ⟨heq, -⟩ | ⟨k, heq, hcode, -⟩ | ⟨k, heq, -⟩⟩ := Nesting.step?_cases hstep
    · exact .inl heq
    · refine .inr (.inl ⟨k, heq, ?_⟩)
      rw [IsCodeAt, List.getElem?_eq_getElem hj, Option.any_some, Balance.isCode,
        (Nesting.tallies_fresh.run hn).lexer, hcode]
    · exact .inr (.inr ⟨k, heq⟩)
  · rw [stackAt, List.take_of_length_le (by omega)] at hbefore hafter
    exact .inl (Option.some.inj (hafter.symm.trans hbefore))

private theorem Matches.isCodeAt (h : t.Matches i j) : t.IsCodeAt i := by
  obtain ⟨-, k, outer, hbefore, hafter, -⟩ := h
  rcases stackAt_succ_cases hbefore hafter with heq | ⟨-, -, hcode⟩ | ⟨l, heq⟩
  · exact absurd (congrArg List.length heq) (by simp)
  · exact hcode
  · have hlength := congrArg List.length heq
    rw [List.length_cons, List.length_cons] at hlength
    omega

/-- Where a bracket is open, an outermost pair of brackets is around: from the last offset at which
none was open up to the next one at which none is. -/
theorem exists_matches (h : t.isNested = true) (hj : t.stackAt j ≠ some []) :
    ∃ i l, t.Matches i l ∧ i < j ∧ j ≤ l := by
  have hend : ∃ l, j ≤ l ∧ t.stackAt l = some [] :=
    ⟨max j t.length, by omega, stackAt_of_length_le h (by omega)⟩
  set i := Nat.findGreatest (fun m ↦ t.stackAt m = some []) j with hi
  set l := Nat.find hend with hl
  have hempty : t.stackAt i = some [] :=
    Nat.findGreatest_spec (P := fun m ↦ t.stackAt m = some []) (Nat.zero_le j) (stackAt_zero t)
  have hij : i < j :=
    lt_of_le_of_ne (Nat.findGreatest_le j) fun heq ↦ hj (heq ▸ hempty)
  obtain ⟨hjl, hclosed⟩ := Nat.find_spec hend
  rw [← hl] at hjl hclosed
  have hjl : j < l := lt_of_le_of_ne hjl fun heq ↦ hj (heq ▸ hclosed)
  have hopen : ∀ m, i < m → m < l → t.stackAt m ≠ some [] := by
    intro m him hml hm
    by_cases hmj : m ≤ j
    · exact Nat.findGreatest_is_greatest him hmj hm
    · exact Nat.find_min hend hml ⟨by omega, hm⟩
  obtain ⟨first, hfirst⟩ := exists_stackAt h (i + 1)
  obtain ⟨k, rfl⟩ : ∃ k, first = [k] := by
    rcases stackAt_succ_cases hempty hfirst with rfl | ⟨k, rfl, -⟩ | ⟨k, heq⟩
    · exact absurd hfirst (hopen _ (by omega) (by omega))
    · exact ⟨k, rfl⟩
    · exact absurd heq (by simp)
  have hlowest : ∀ m, i < m → m < l → ∃ inner, t.stackAt m = some (inner ++ [k]) := by
    intro m him
    induction m, him using Nat.le_induction with
    | base => exact fun _ ↦ ⟨[], hfirst⟩
    | succ m him ih =>
      intro hml
      obtain ⟨inner, hinner⟩ := ih (by omega)
      obtain ⟨next, hnext⟩ := exists_stackAt h (m + 1)
      rcases stackAt_succ_cases hinner hnext with rfl | ⟨k', rfl, -⟩ | ⟨k', heq⟩
      · exact ⟨inner, hnext⟩
      · exact ⟨k' :: inner, hnext⟩
      · cases inner with
        | nil =>
          obtain ⟨-, rfl⟩ := List.cons.inj heq
          exact absurd hnext (hopen _ (by omega) hml)
        | cons k'' inner =>
          obtain ⟨-, rfl⟩ := List.cons.inj heq
          exact ⟨inner, hnext⟩
  refine ⟨i, l - 1, ⟨by omega, k, [], hempty, hfirst, ?_, ?_⟩, hij, by omega⟩
  · intro m him hml
    exact hlowest m him (by omega)
  · rwa [Nat.sub_add_cancel (by omega)]

theorem stackAt_eq_nil_iff (h : t.isNested = true) :
    t.stackAt j = some [] ↔ ∀ i l, t.Matches i l → ¬(i < j ∧ j ≤ l) := by
  constructor
  · rintro hnil i l ⟨-, k, outer, -, -, hinside, -⟩ ⟨hij, hjl⟩
    obtain ⟨inner, hinner⟩ := hinside j hij hjl
    rw [hnil] at hinner
    exact absurd (Option.some.inj hinner) (by simp)
  · intro hnone
    by_contra hj
    obtain ⟨i, l, hmatch, hij, hjl⟩ := exists_matches h hj
    exact hnone i l hmatch ⟨hij, hjl⟩

private theorem isOutermost_iff (h : t.isNested = true) {c : Char} (hc : t[j]? = some c) :
    (Balance.fresh.run (t.take j)).isOutermost c = true ↔
      (t.IsCodeAt j ∧ t.IsOutside j) ∨ t.OpensOutermost j := by
  have hcode : t.IsCodeAt j ↔ (Balance.fresh.run (t.take j)).isCode c = true := by
    rw [IsCodeAt, hc, Option.any_some]
  have htop : (Balance.fresh.run (t.take j)).atTop = true ↔ t.stackAt j = some [] := by
    obtain ⟨stack, hstack⟩ := exists_stackAt h j
    obtain ⟨n, hn, rfl⟩ := Option.map_eq_some_iff.mp hstack
    rw [(Nesting.tallies_fresh.run hn).atTop_iff, hstack, Option.some.injEq]
  rw [Balance.isOutermost, Bool.and_eq_true, htop, ← hcode, stackAt_eq_nil_iff h]
  constructor
  · rintro ⟨hnone, hcode⟩
    by_cases hopens : ∃ l, t.Matches j l
    · exact .inr ⟨hopens, hnone⟩
    · refine .inl ⟨hcode, fun i l hmatch hij ↦ ?_⟩
      rcases Nat.lt_or_eq_of_le hij.1 with hlt | rfl
      · exact hnone i l hmatch ⟨hlt, hij.2⟩
      · exact hopens ⟨l, hmatch⟩
  · rintro (⟨hcode, houtside⟩ | ⟨⟨l, hmatch⟩, hnone⟩)
    · exact ⟨fun i l hmatch hij ↦ houtside i l hmatch ⟨Nat.le_of_lt hij.1, hij.2⟩, hcode⟩
    · exact ⟨hnone, hmatch.isCodeAt⟩

end Text

/-! ## Stops -/

/-- A stop as it is reported: its offset and its character. -/
def Stop.place (s : Stop) : Int × Option Char := (s.offset, s.text.head?)

namespace Balance

theorem mem_stops_iff {b : Balance} {offset : Int} {t : Text} {s : Stop} :
    s ∈ b.stops offset t ↔ ∃ (j : Nat) (c : Char),
      t[j]? = some c ∧ (b.run (t.take j)).isOutermost c = true ∧ s = ⟨offset + j, t.drop j⟩ := by
  induction t generalizing b offset with
  | nil => simp [stops]
  | cons d t ih =>
    -- what is found behind the first character lies one further on
    have hrest : s ∈ (b.step d).stops (offset + 1) t ↔ ∃ (j : Nat) (c : Char),
        (d :: t)[j + 1]? = some c ∧ (b.run ((d :: t).take (j + 1))).isOutermost c = true ∧
          s = ⟨offset + (j + 1 : Nat), (d :: t).drop (j + 1)⟩ := by
      rw [ih]
      simp only [List.getElem?_cons_succ, List.take_succ_cons, run_cons, List.drop_succ_cons]
      push_cast
      simp only [Int.add_assoc, Int.add_comm 1]
    have hsplit : s ∈ b.stops offset (d :: t) ↔
        (b.isOutermost d = true ∧ s = ⟨offset, d :: t⟩) ∨
          s ∈ (b.step d).stops (offset + 1) t := by
      rw [stops]
      split
      · next hd => simp [hd]
      · next hd => simp [hd]
    rw [hsplit, hrest]
    constructor
    · rintro (⟨hd, rfl⟩ | ⟨j, c, h⟩)
      · exact ⟨0, d, rfl, hd, by simp⟩
      · exact ⟨j + 1, c, h⟩
    · rintro ⟨j, c, hc, hout, rfl⟩
      cases j with
      | zero =>
        obtain rfl : d = c := by simpa using hc
        exact .inl ⟨hout, by simp⟩
      | succ j => exact .inr ⟨j, c, hc, hout, rfl⟩

theorem pairwise_stops (b : Balance) (offset : Int) (t : Text) :
    (b.stops offset t).Pairwise (·.offset < ·.offset) := by
  induction t generalizing b offset with
  | nil => exact List.Pairwise.nil
  | cons d t ih =>
    rw [stops]
    split
    · refine List.pairwise_cons.mpr ⟨fun s hs ↦ ?_, ih _ _⟩
      obtain ⟨j, -, -, -, rfl⟩ := mem_stops_iff.mp hs
      dsimp only
      omega
    · exact ih _ _

private theorem map_place_stops_append (b : Balance) (offset : Int) (s t : Text) :
    (b.stops offset s ++ (b.run s).stops (offset + s.length) t).map Stop.place =
      (b.stops offset (s ++ t)).map Stop.place := by
  induction s generalizing b offset with
  | nil => simp [stops]
  | cons d s ih =>
    have hlength : offset + ((d :: s).length : Int) = offset + 1 + s.length := by
      rw [List.length_cons]
      omega
    have hrest := ih (b.step d) (offset + 1)
    rw [List.cons_append, stops, stops, hlength, run_cons]
    split
    · rw [List.cons_append, List.map_cons, List.map_cons, hrest]
      rfl
    · exact hrest

end Balance

namespace Text

private theorem exists_stopsFrom {t part : Text} {start : Int} (h : readFrom? t start = some part) :
    ∃ stops, t.stopsFrom start = .ok stops ∧
      stops.map Stop.place = (Balance.fresh.stops start part).map Stop.place := by
  rw [readFrom?] at h
  rw [stopsFrom]
  split at h
  · next hstart =>
    rw [if_pos hstart, ← Option.some.inj h]
    exact ⟨_, rfl, rfl⟩
  · next hstart =>
    split at h
    · next hle =>
      have hlast : itemsFrom t start = t.drop (t.length - start.natAbs) := by
        rw [itemsFrom, if_neg hstart]
      have hzero : start + ((t.drop (t.length - start.natAbs)).length : Int) = 0 := by
        rw [List.length_drop]
        omega
      rw [if_neg hstart, if_pos hle, ← Option.some.inj h, ← Balance.map_place_stops_append, hzero,
        hlast]
      exact ⟨_, rfl, rfl⟩
    · simp at h

/-- The places of nested text are, in order, the code outside every group and the openers of the
outermost groups. -/
theorem exists_stopsFrom_of_isNested {t part : Text} {start : Int}
    (hpart : readFrom? t start = some part) (hnested : part.isNested = true) :
    ∃ stops, t.stopsFrom start = .ok stops ∧
      (stops.map Stop.place).Pairwise (·.1 < ·.1) ∧
      ∀ place, place ∈ stops.map Stop.place ↔
        ∃ (j : Nat) (c : Char), place = (start + j, some c) ∧ part[j]? = some c ∧
          ((part.IsCodeAt j ∧ part.IsOutside j) ∨ part.OpensOutermost j) := by
  obtain ⟨stops, hstops, hplaces⟩ := exists_stopsFrom hpart
  refine ⟨stops, hstops, ?_, fun place ↦ ?_⟩
  · rw [hplaces, List.pairwise_map]
    exact Balance.pairwise_stops _ _ _
  · rw [hplaces, List.mem_map]
    constructor
    · rintro ⟨stop, hmem, rfl⟩
      obtain ⟨j, c, hc, hout, rfl⟩ := Balance.mem_stops_iff.mp hmem
      refine ⟨j, c, ?_, hc, (isOutermost_iff hnested hc).mp hout⟩
      rw [Stop.place, List.head?_drop, hc]
    · rintro ⟨j, c, rfl, hc, hout⟩
      refine ⟨⟨start + j, part.drop j⟩, Balance.mem_stops_iff.mpr ⟨j, c, hc, ?_, rfl⟩, ?_⟩
      · exact (isOutermost_iff hnested hc).mpr hout
      · rw [Stop.place, List.head?_drop, hc]

/-- Counting agrees with the stack. The closer of a group is its last character, whatever stands
around the group, and a group that may be skipped is skipped as a whole. In text without an
unmatched bracket, read onward from any place where reading can start, the places that are found
are, in order, the code outside every group and the openers of the outermost groups. -/
theorem nesting_agrees :
    (∀ p g s : Text, g.isGroup = true →
      (p ++ g ++ s).closingAt p.length = .ok (p.length + g.length - 1) ∧
        (g.head? = some '<' ∨ g.head? = some '(' →
          (p ++ g ++ s).afterGroupAt p.length = .ok (p.length + g.length))) ∧
    ∀ (t : Text) (start : Int) (part : Text),
      readFrom? t start = some part → part.isNested = true →
      ∃ stops, t.stopsFrom start = .ok stops ∧
        (stops.map Stop.place).Pairwise (·.1 < ·.1) ∧
        ∀ place, place ∈ stops.map Stop.place ↔
          ∃ (j : Nat) (c : Char), place = (start + j, some c) ∧ part[j]? = some c ∧
            ((part.IsCodeAt j ∧ part.IsOutside j) ∨ part.OpensOutermost j) := by
  constructor
  · intro p g s hg
    exact ⟨closingAt_of_isGroup hg p s, fun hhead ↦ afterGroupAt_of_isGroup hg hhead p s⟩
  · intro t start part hpart hnested
    exact exists_stopsFrom_of_isNested hpart hnested

/-- An argument list with an arrow, closers inside literals and a comment, and groups of all
kinds. -/
def lambdaCall : Text := "(x => y<\")\", '>'>(\x7b /* ) */ \x7d))".toList

/-- Two calls with type arguments and a comma inside them. -/
def nestedCalls : Text := " A<B, (C)>, D(e)".toList

theorem nesting_agrees_lambdaCall :
    lambdaCall.isGroup = true ∧ nestedCalls.isNested = true ∧
    closingAt ("f\"".toList ++ lambdaCall ++ ")>".toList) 2 = .ok 32 ∧
    afterGroupAt ("f\"".toList ++ lambdaCall ++ ")>".toList) 2 = .ok 33 ∧
    ∃ stops, stopsFrom ('>' :: nestedCalls) 1 = .ok stops ∧
      (stops.map Stop.place).Pairwise (·.1 < ·.1) ∧
      ∀ place, place ∈ stops.map Stop.place ↔
        ∃ (j : Nat) (c : Char), place = (1 + (j : Int), some c) ∧ nestedCalls[j]? = some c ∧
          ((nestedCalls.IsCodeAt j ∧ nestedCalls.IsOutside j) ∨
            nestedCalls.OpensOutermost j) := by
  have hgroup : lambdaCall.isGroup = true := by decide
  have hnested : nestedCalls.isNested = true := by decide
  have hread : readFrom? ('>' :: nestedCalls) 1 = some nestedCalls := by decide
  obtain ⟨hclose, hafter⟩ := nesting_agrees.1 "f\"".toList lambdaCall ")>".toList hgroup
  have hstops := nesting_agrees.2 ('>' :: nestedCalls) 1 nestedCalls hread hnested
  exact ⟨hgroup, hnested, hclose, hafter (.inr rfl), hstops⟩

end Text

end CSharpOutline
