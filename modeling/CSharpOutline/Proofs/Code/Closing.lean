import CSharpOutline.Proofs.Code.Passing
import Mathlib.Data.Nat.Count
import Mathlib.Order.Bounds.Defs

/-!
# Groups of one kind

The closer of a group is found by counting the brackets of its kind and no others, so in text that
is not well nested groups of two kinds may cross. Groups of one kind never do: a group that starts
inside another one of its kind is closed inside it (`Text.exists_closing?_drop`).

Two readers have to be compared for that, one that has come through the outer group and one that
starts at the inner opener. Behind the opener they are in the same state, because an opener that is
code leaves nothing to remember. From there on the first has counted a constant number of groups
more than the second (`Balance.Above`), as long as the inner group is open; so it cannot be the
first to get to zero.

The closer of a group is also the first place at which as many brackets of its kind have been closed
as opened (`Text.isLeast_closing?`). Depths stop at zero and numbers of brackets do not, but up to
the closer there is no difference, since the group is open until then.
-/

namespace CSharpOutline

theorem Bracket.isInert_of_ofOpener? {c : Char} {k : Bracket} (h : ofOpener? c = some k) :
    Lexer.isInert c = true := by
  unfold ofOpener? at h
  split at h
  · decide
  · decide
  · decide
  · exact absurd h (by simp)

private theorem Lexer.EscapesInLiteral.escaping_eq_false {l : Lexer} (hl : l.EscapesInLiteral)
    {c : Char} (h : l.isCode c = true) : l.escaping = false := by
  by_contra hescaping
  obtain ⟨q, hq⟩ := hl (by simpa using hescaping)
  simp [isCode, hq, Mode.trail?] at h

namespace Balance

/-! ## Two readers in the same text

An opener that is code leaves nothing to remember, so behind it a balance that has come through the
text reads like one that starts there. The one that has counted less closes its groups first. -/

variable {k : Bracket} {d : Nat} {b b' : Balance} {c : Char} {t : Text}

/-- Two balances read alike, and the first has counted `d` groups of kind `k` more. -/
structure Above (k : Bracket) (d : Nat) (b b' : Balance) : Prop where
  lexer : b.lexer = b'.lexer
  countsAngles : b.countsAngles = b'.countsAngles
  depth : b.depths.of k = b'.depths.of k + d

theorem Above.step (h : Above k d b b') (hopen : b'.depths.of k ≠ 0) (c : Char) :
    Above k d (b.step c) (b'.step c) := by
  refine ⟨by rw [step_lexer, step_lexer, h.lexer], h.countsAngles, ?_⟩
  rw [depth_step, depth_step, isCode, isCode, counts, counts, h.lexer, h.countsAngles, h.depth]
  split
  · split
    · omega
    · split
      · omega
      · rfl
  · rfl

/-- The balance that has counted less closes its groups first. -/
theorem Above.exists_stopOffset? (h : Above k d b b') (hd : d ≠ 0) (hopen : b'.depths.of k ≠ 0)
    {r : Nat} (hr : b.stopOffset? (closed k) t = some r) :
    ∃ l < r, b'.stopOffset? (closed k) t = some l := by
  induction t generalizing b b' r with
  | nil => exact absurd hr (by simp [stopOffset?])
  | cons c t ih =>
    have hstep := h.step hopen c
    have hnot : ¬closed k b c = true := by
      rw [closed, beq_iff_eq, hstep.depth]
      omega
    rw [stopOffset?, if_neg hnot] at hr
    obtain ⟨r, hfound, rfl⟩ := Option.map_eq_some_iff.mp hr
    rw [stopOffset?]
    by_cases hclosed : closed k b' c = true
    · exact ⟨0, Nat.succ_pos r, if_pos hclosed⟩
    · have hopen' : (b'.step c).depths.of k ≠ 0 := by simpa [closed] using hclosed
      obtain ⟨l, hl, hstop⟩ := ih hstep hopen' hfound
      exact ⟨l + 1, Nat.succ_lt_succ hl, by rw [if_neg hclosed, hstop, Option.map_some]⟩

theorem depth_step_opener (hk : Bracket.ofOpener? c = some k) (hcode : b.isCode c = true)
    (hcounts : b.countsAngles = true) : (b.step c).depths.of k = b.depths.of k + 1 := by
  rw [depth_step, hcode, counts, hcounts, hk]
  simp

theorem isCode_fresh_opener (hk : Bracket.ofOpener? c = some k) : fresh.isCode c = true := by
  rw [isCode, Lexer.isCode_of_isInert (Bracket.isInert_of_ofOpener? hk)]
  rfl

theorem depth_fresh_opener (hk : Bracket.ofOpener? c = some k) :
    (fresh.step c).depths.of k = 1 := by
  rw [depth_step_opener hk (isCode_fresh_opener hk) rfl]
  cases k <;> rfl

private theorem above_of_opener (hk : Bracket.ofOpener? c = some k) (hcode : b.isCode c = true)
    (hescaping : b.lexer.escaping = false) (hcounts : b.countsAngles = true) :
    Above k (b.depths.of k) (b.step c) (fresh.step c) := by
  have hinert := Bracket.isInert_of_ofOpener? hk
  have hplain : ∀ {l : Lexer}, l.isCode c = true → l.escaping = false → l.step c = {} := by
    intro l hl hescaping
    obtain ⟨hmode, hstep⟩ := Lexer.mode_step_of_isCode hinert hl
    rw [hescaping] at hstep
    generalize l.step c = l' at hmode hstep
    obtain ⟨mode, escaping⟩ := l'
    obtain rfl : mode = .code .plain := hmode
    obtain rfl : escaping = false := hstep
    rfl
  refine ⟨?_, hcounts, ?_⟩
  · rw [step_lexer, step_lexer, hplain hcode hescaping, hplain (isCode_fresh_opener hk) rfl]
  · rw [depth_step_opener hk hcode hcounts, depth_fresh_opener hk, Nat.add_comm]

end Balance

namespace Text

/-! ## Counting brackets

The brackets of one kind are counted along the code of the text, without regard to the other kinds.
As long as the first group is open, the depth is the number of openers less the number of
closers. -/

/-- The character at offset `n` is code and opens a group of kind `k`. -/
def IsOpenerAt (t : Text) (k : Bracket) (n : Nat) : Prop :=
  t.IsCodeAt n ∧ t[n]?.bind Bracket.ofOpener? = some k

/-- The character at offset `n` is code and closes a group of kind `k`. The `>` of an arrow closes
nothing. -/
def IsCloserAt (t : Text) (k : Bracket) (n : Nat) : Prop :=
  t.IsCodeAt n ∧ t[n]?.bind Bracket.ofCloser? = some k ∧ t.closesArrowAt n = false

instance (t : Text) (k : Bracket) : DecidablePred (t.IsOpenerAt k) := fun n ↦
  inferInstanceAs (Decidable (t[n]?.any _ = true ∧ _))

instance (t : Text) (k : Bracket) : DecidablePred (t.IsCloserAt k) := fun n ↦
  inferInstanceAs (Decidable (t[n]?.any _ = true ∧ _ ∧ _))

/-- Up to and with the character at offset `n`, as many groups of kind `k` are opened as closed. -/
def Balances (t : Text) (k : Bracket) (n : Nat) : Prop :=
  Nat.count (t.IsOpenerAt k) (n + 1) = Nat.count (t.IsCloserAt k) (n + 1)

/-- The number of groups of kind `k` that are open in front of offset `n`. -/
def openAt (t : Text) (k : Bracket) (n : Nat) : Nat :=
  (Balance.fresh.run (t.take n)).depths.of k

variable {t : Text} {k : Bracket} {n r : Nat}

theorem openAt_zero (t : Text) (k : Bracket) : t.openAt k 0 = 0 := by cases k <;> rfl

theorem openAt_succ (hn : n < t.length) :
    t.openAt k (n + 1) =
      if t.IsOpenerAt k n then t.openAt k n + 1
      else if t.IsCloserAt k n then t.openAt k n - 1
      else t.openAt k n := by
  have hitem := List.getElem?_eq_getElem hn
  have hcode : t.IsCodeAt n ↔ (Lexer.run {} (t.take n)).isCode t[n] = true := by
    rw [IsCodeAt, hitem, Option.any_some, Balance.isCode, Balance.run_lexer]
    rfl
  have hcounts : (Balance.fresh.run (t.take n)).counts k = true := by
    rw [Balance.counts, Balance.run_countsAngles]
    rfl
  have hstep := Balance.depth_step (Balance.fresh.run (t.take n)) t[n] k
  rw [hcounts, Balance.isCode, Balance.run_lexer, ← openAt] at hstep
  rw [openAt, List.take_succ_eq_append_getElem hn, Balance.run_append, Balance.run_cons,
    Balance.run_nil, hstep]
  by_cases hread : (Lexer.run {} (t.take n)).isCode t[n] = true
  · have hopens : t.IsOpenerAt k n ↔ Bracket.ofOpener? t[n] = some k := by
      rw [IsOpenerAt, hcode, hitem, Option.bind_some]
      exact and_iff_right hread
    have hcloses : t.IsCloserAt k n ↔ Bracket.ofCloser? t[n] = some k ∧
        (Lexer.run {} (t.take n)).closesArrow t[n] = false := by
      rw [IsCloserAt, hcode, hitem, Option.bind_some, Lexer.closesArrow_run_take hitem hread]
      exact and_iff_right hread
    simp only [hopens, hcloses]
    exact if_pos ⟨hread, trivial⟩
  · have hopens : ¬t.IsOpenerAt k n := fun h ↦ hread (hcode.mp h.1)
    have hcloses : ¬t.IsCloserAt k n := fun h ↦ hread (hcode.mp h.1)
    rw [if_neg hopens, if_neg hcloses]
    exact if_neg fun h ↦ hread h.1

theorem closing?_eq_stopOffset? (hk : t.head?.bind Bracket.ofOpener? = some k) :
    t.closing? = Balance.fresh.stopOffset? (Balance.closed k) t := by
  obtain ⟨c, hc, hkind⟩ := Option.bind_eq_some_iff.mp hk
  obtain ⟨u, rfl⟩ := List.head?_eq_some_iff.mp hc
  rw [closing?, hkind]

theorem closing?_eq_some_iff (hk : t.head?.bind Bracket.ofOpener? = some k) :
    t.closing? = some r ↔
      r < t.length ∧ t.openAt k (r + 1) = 0 ∧ ∀ n < r, t.openAt k (n + 1) ≠ 0 := by
  have hclosed : ∀ {n : Nat} {d : Char}, t[n]? = some d →
      (Balance.closed k (Balance.fresh.run (t.take n)) d = true ↔ t.openAt k (n + 1) = 0) := by
    intro n d hd
    obtain ⟨hn, rfl⟩ := List.getElem?_eq_some_iff.mp hd
    rw [Balance.closed, beq_iff_eq, openAt, List.take_succ_eq_append_getElem hn,
      Balance.run_append]
    rfl
  rw [closing?_eq_stopOffset? hk, Balance.stopOffset?_eq_some_iff]
  constructor
  · rintro ⟨⟨d, hd, hstop⟩, hbefore⟩
    have hr := (List.getElem?_eq_some_iff.mp hd).1
    refine ⟨hr, (hclosed hd).mp hstop, fun n hn hzero ↦ ?_⟩
    have hitem := List.getElem?_eq_getElem (Nat.lt_trans hn hr)
    have hfalse := hbefore n hn _ hitem
    rw [(hclosed hitem).mpr hzero] at hfalse
    exact absurd hfalse (by decide)
  · rintro ⟨hr, hzero, hbefore⟩
    have hitem := List.getElem?_eq_getElem hr
    refine ⟨⟨_, hitem, (hclosed hitem).mpr hzero⟩, fun n hn d hd ↦ ?_⟩
    rw [← Bool.not_eq_true, hclosed hd]
    exact hbefore n hn

private theorem not_isCloserAt_zero (hk : t.head?.bind Bracket.ofOpener? = some k) (j : Bracket) :
    ¬t.IsCloserAt j 0 := by
  rintro ⟨-, hclose, -⟩
  obtain ⟨c, hc, hk⟩ := Option.bind_eq_some_iff.mp hk
  obtain ⟨u, rfl⟩ := List.head?_eq_some_iff.mp hc
  rw [List.getElem?_cons_zero, Option.bind_some, Bracket.ofCloser?_of_ofOpener? hk] at hclose
  exact absurd hclose (by simp)

/-- As long as the first group is open, the open groups are those opened and not closed. -/
theorem openAt_add_count (hk : t.head?.bind Bracket.ofOpener? = some k)
    (hn : n ≤ t.length) (hopen : ∀ m, 0 < m → m < n → t.openAt k m ≠ 0) :
    t.openAt k n + Nat.count (t.IsCloserAt k) n = Nat.count (t.IsOpenerAt k) n := by
  induction n with
  | zero => simp [openAt_zero]
  | succ n ih =>
    have ih := ih (Nat.le_of_succ_le hn) fun m hm hmn ↦ hopen m hm (Nat.lt_succ_of_lt hmn)
    rw [openAt_succ hn, Nat.count_succ, Nat.count_succ]
    by_cases hopens : t.IsOpenerAt k n
    · have hnot : ¬t.IsCloserAt k n := by
        rintro ⟨-, hclose, -⟩
        obtain ⟨c, hc, hclose⟩ := Option.bind_eq_some_iff.mp hclose
        have hkind := hopens.2
        rw [hc, Option.bind_some] at hkind
        rw [Bracket.ofCloser?_of_ofOpener? hkind] at hclose
        exact absurd hclose (by simp)
      rw [if_pos hopens, if_pos hopens, if_neg hnot]
      omega
    · by_cases hcloses : t.IsCloserAt k n
      · have hpos : t.openAt k n ≠ 0 := by
          refine hopen n (Nat.pos_of_ne_zero ?_) (Nat.lt_succ_self n)
          rintro rfl
          exact not_isCloserAt_zero hk k hcloses
        rw [if_neg hopens, if_pos hcloses, if_neg hopens, if_pos hcloses]
        omega
      · rw [if_neg hopens, if_neg hcloses, if_neg hopens, if_neg hcloses]
        omega

/-! ## The closer of a group -/

theorem openAt_ne_zero_of_closing? (hk : t.head?.bind Bracket.ofOpener? = some k)
    (hr : t.closing? = some r) (hn : 0 < n) (hnr : n ≤ r) : t.openAt k n ≠ 0 := by
  obtain ⟨m, rfl⟩ := Nat.exists_eq_succ_of_ne_zero (Nat.ne_of_gt hn)
  exact ((closing?_eq_some_iff hk).mp hr).2.2 m hnr

private theorem openAt_one (hk : t.head?.bind Bracket.ofOpener? = some k) : t.openAt k 1 = 1 := by
  obtain ⟨c, hc, hkind⟩ := Option.bind_eq_some_iff.mp hk
  obtain ⟨u, rfl⟩ := List.head?_eq_some_iff.mp hc
  have hopens : IsOpenerAt (c :: u) k 0 := by
    refine ⟨?_, hkind⟩
    rw [IsCodeAt, List.getElem?_cons_zero, Option.any_some]
    exact Balance.isCode_fresh_opener hkind
  rw [openAt_succ (by simp), if_pos hopens, openAt_zero]

private theorem closing?_pos (hk : t.head?.bind Bracket.ofOpener? = some k)
    (hr : t.closing? = some r) : 0 < r := by
  obtain ⟨-, hzero, -⟩ := (closing?_eq_some_iff hk).mp hr
  refine Nat.pos_of_ne_zero ?_
  rintro rfl
  rw [Nat.zero_add, openAt_one hk] at hzero
  exact absurd hzero (by decide)

/-- The closer of a group is the first place at which as many groups are opened as closed. -/
theorem isLeast_closing? (hk : t.head?.bind Bracket.ofOpener? = some k)
    (hr : t.closing? = some r) : IsLeast {n | t.Balances k n} r := by
  obtain ⟨hlt, hzero, -⟩ := (closing?_eq_some_iff hk).mp hr
  have hcount : ∀ n ≤ r, t.openAt k (n + 1) + Nat.count (t.IsCloserAt k) (n + 1) =
      Nat.count (t.IsOpenerAt k) (n + 1) := by
    intro n hn
    refine openAt_add_count hk (by omega) fun m hm hmn ↦ ?_
    exact openAt_ne_zero_of_closing? hk hr hm (by omega)
  constructor
  · have hbalance := hcount r (Nat.le_refl r)
    rw [hzero, Nat.zero_add] at hbalance
    exact hbalance.symm
  · intro n hn
    rw [← Nat.not_lt]
    intro hnr
    have hbalance := hcount n (Nat.le_of_lt hnr)
    have hopen : t.openAt k (n + 1) ≠ 0 := openAt_ne_zero_of_closing? hk hr (Nat.succ_pos n) hnr
    rw [Set.mem_ofPred_eq, Balances] at hn
    omega

private theorem isCloserAt_closing? (hk : t.head?.bind Bracket.ofOpener? = some k)
    (hr : t.closing? = some r) : t.IsCloserAt k r := by
  obtain ⟨hlt, hzero, -⟩ := (closing?_eq_some_iff hk).mp hr
  have hopen := openAt_ne_zero_of_closing? hk hr (closing?_pos hk hr) (Nat.le_refl r)
  rw [openAt_succ hlt] at hzero
  by_contra hnot
  rw [if_neg hnot] at hzero
  split at hzero
  · exact absurd hzero (Nat.succ_ne_zero _)
  · exact hopen hzero

/-- A group that starts inside another one of its kind is closed inside it. -/
theorem exists_closing?_drop (ht : '\n' ∉ t) (hk : t.head?.bind Bracket.ofOpener? = some k)
    (hr : t.closing? = some r) (hn : 0 < n) (hnr : n < r) (hopens : t.IsOpenerAt k n) :
    ∃ l, closing? (t.drop n) = some l ∧ 0 < l ∧ n + l < r := by
  have hlt : n < t.length := Nat.lt_trans hnr ((closing?_eq_some_iff hk).mp hr).1
  have hopen : (Balance.fresh.run (t.take n)).depths.of k ≠ 0 :=
    openAt_ne_zero_of_closing? hk hr hn (Nat.le_of_lt hnr)
  have hcounts : (Balance.fresh.run (t.take n)).countsAngles = true := by
    rw [Balance.run_countsAngles]
    rfl
  obtain ⟨hcode, hkind⟩ := hopens
  have hdrop := List.drop_eq_getElem_cons hlt
  rw [IsCodeAt, List.getElem?_eq_getElem hlt, Option.any_some] at hcode
  rw [List.getElem?_eq_getElem hlt, Option.bind_some] at hkind
  have hescaping : (Balance.fresh.run (t.take n)).lexer.escaping = false := by
    refine Lexer.EscapesInLiteral.escaping_eq_false ?_ hcode
    rw [Balance.run_lexer]
    exact Lexer.EscapesInLiteral.run (fun h ↦ absurd h (by decide))
      fun hmem ↦ ht (List.mem_of_mem_take hmem)
  have habove := Balance.above_of_opener hkind hcode hescaping hcounts
  have hstop := closing?_eq_stopOffset? hk
  rw [hr, eq_comm] at hstop
  -- the outer reader stops behind the inner opener
  have hbehind := Balance.stopOffset?_drop hstop hnr
  rw [List.take_succ_eq_append_getElem hlt, Balance.run_append, Balance.run_cons,
    Balance.run_nil] at hbehind
  have hinner : (Balance.fresh.step t[n]).depths.of k ≠ 0 := by
    rw [Balance.depth_fresh_opener hkind]
    exact one_ne_zero
  obtain ⟨l, hl, hclose⟩ := habove.exists_stopOffset? hopen hinner hbehind
  have hfirst : ¬Balance.closed k Balance.fresh t[n] = true := by rwa [Balance.closed, beq_iff_eq]
  have hhead : (t[n] :: t.drop (n + 1)).head?.bind Bracket.ofOpener? = some k := hkind
  refine ⟨l + 1, ?_, Nat.succ_pos l, by omega⟩
  rw [hdrop, closing?_eq_stopOffset? hhead, Balance.stopOffset?, if_neg hfirst, hclose,
    Option.map_some]

/-! ## Signed offsets -/

private theorem mem_of_readFrom? {s : Text} {i : Int} (h : readFrom? t i = some s) {c : Char}
    (hc : c ∈ s) : c ∈ t := by
  rw [readFrom?] at h
  split at h
  · rw [← Option.some.inj h] at hc
    exact List.mem_of_mem_drop hc
  · split at h
    · rw [← Option.some.inj h] at hc
      rcases List.mem_append.mp hc with hc | hc
      · exact List.mem_of_mem_drop hc
      · exact hc
    · exact absurd h (by simp)

theorem readFrom?_add {s : Text} {i : Int} (h : readFrom? t i = some s) (hn : n < s.length) :
    readFrom? t (i + n) = some (s.drop n) ∧ item? t (i + n) = s[n]? := by
  rw [readFrom?] at h
  split at h
  · next hi =>
    obtain ⟨a, rfl⟩ := Int.eq_ofNat_of_zero_le hi
    obtain rfl := Option.some.inj h
    rw [Int.toNat_natCast, List.length_drop] at hn
    rw [← Int.natCast_add, readFrom?_natCast, item?, position?_natCast (by omega),
      Option.bind_some, Int.toNat_natCast, List.drop_drop, List.getElem?_drop]
    exact ⟨rfl, rfl⟩
  · next hi =>
    split at h
    · next hlow =>
      obtain rfl := Option.some.inj h
      have hlength : (t.drop (t.length - i.natAbs)).length = i.natAbs := by
        rw [List.length_drop]
        omega
      by_cases hneg : i + n < 0
      · -- still in the part at the end of the text
        have hplace : t.length - (i + n).natAbs = t.length - i.natAbs + n := by omega
        rw [readFrom?, if_neg (by omega), if_pos (by omega), item?, position?, if_neg (by omega),
          if_pos (by omega), hplace, List.drop_append_of_le_length (by omega), List.drop_drop,
          Option.bind_some, List.getElem?_append_left (by omega), List.getElem?_drop]
        exact ⟨rfl, rfl⟩
      · -- reading has started over
        obtain ⟨a, ha⟩ := Int.eq_ofNat_of_zero_le (Int.not_lt.mp hneg)
        rw [List.length_append] at hn
        rw [ha, readFrom?_natCast, item?, position?_natCast (by omega), Option.bind_some]
        generalize t.drop (t.length - i.natAbs) = last at hlength ⊢
        obtain rfl : n = last.length + a := by omega
        rw [List.drop_length_add_append, List.getElem?_append_right (Nat.le_add_right _ _),
          Nat.add_sub_cancel_left]
        exact ⟨rfl, rfl⟩
    · exact absurd h (by simp)

private theorem closingAt_eq {s : Text} {i : Int} (h : readFrom? t i = some s) (hs : s ≠ []) :
    t.closingAt i = .ok ((closing? s).elim (-1) (i + ·)) := by
  have hpos := List.length_pos_iff.mpr hs
  obtain ⟨-, hitem⟩ := readFrom?_add h hpos
  rw [Int.natCast_zero, Int.add_zero, List.getElem?_eq_getElem hpos] at hitem
  rw [closingAt, hitem, h]

/-- Groups of one kind are nested or disjoint, whatever brackets of other kinds do. Let a group of
kind `k` that starts at offset `i` of a line be closed at offset `r`. Then a group of the same kind
that starts between the two, where `s`, the text read onward from `i`, has code, is closed between
them. What closes the group at `i` is a closer of its kind that is code in `s`, and it stands at the
first place up to which `s` closes as many groups of the kind as it opens. -/
theorem closingAt_nested {s : Text} {i r : Int} (ht : '\n' ∉ t) (hs : readFrom? t i = some s)
    (hk : (item? t i).bind Bracket.ofOpener? = some k) (hr : t.closingAt i = .ok r) (hpos : 0 ≤ r) :
    (∀ j, i < j → j < r → s.IsOpenerAt k (j - i).toNat →
      ∃ l, t.closingAt j = .ok l ∧ j < l ∧ l < r) ∧
    item? t r = some k.closer ∧ s.IsCloserAt k (r - i).toNat ∧
    IsLeast {m | i ≤ m ∧ s.Balances k (m - i).toNat} r := by
  have hne : s ≠ [] := by
    rintro rfl
    obtain ⟨c, hc, -⟩ := Option.bind_eq_some_iff.mp hk
    rw [closingAt, hc, hs] at hr
    have hnone : (-1 : Int) = r := Except.ok.inj hr
    omega
  have hlength := List.length_pos_iff.mpr hne
  have hkind : s.head?.bind Bracket.ofOpener? = some k := by
    obtain ⟨-, hitem⟩ := readFrom?_add hs hlength
    rw [Int.natCast_zero, Int.add_zero] at hitem
    rwa [List.head?_eq_getElem?, ← hitem]
  rw [closingAt_eq hs hne] at hr
  cases hclose : closing? s with
  | none =>
    rw [hclose] at hr
    have hnone : (-1 : Int) = r := Except.ok.inj hr
    omega
  | some n =>
    rw [hclose] at hr
    obtain rfl : i + n = r := Except.ok.inj hr
    have hcut : '\n' ∉ s := fun hmem ↦ ht (mem_of_readFrom? hs hmem)
    have hlt := ((closing?_eq_some_iff hkind).mp hclose).1
    have hcloses := isCloserAt_closing? hkind hclose
    obtain ⟨hbalanced, hleast⟩ := isLeast_closing? hkind hclose
    have hoffset : (i + n - i).toNat = n := by omega
    rw [hoffset]
    refine ⟨fun j hij hjr hopens ↦ ?_, ?_, hcloses, ⟨by omega, by rwa [hoffset]⟩, ?_⟩
    · obtain ⟨m, rfl⟩ : ∃ m : Nat, j = i + m := ⟨(j - i).toNat, by omega⟩
      have hinner : (i + m - i).toNat = m := by omega
      rw [hinner] at hopens
      obtain ⟨l, hl, hpos, hlr⟩ :=
        exists_closing?_drop hcut hkind hclose (by omega) (by omega) hopens
      have hread := (readFrom?_add hs (n := m) (by omega)).1
      refine ⟨i + m + l, ?_, by omega, by omega⟩
      have hrest : s.drop m ≠ [] := by simpa using (by omega : m < s.length)
      rw [closingAt_eq hread hrest, hl, Option.elim_some]
    · obtain ⟨-, hclose, -⟩ := hcloses
      obtain ⟨c, hc, hclose⟩ := Option.bind_eq_some_iff.mp hclose
      rw [(readFrom?_add hs hlt).2, hc, Bracket.eq_closer hclose]
    · rintro m ⟨him, hm⟩
      have hle : n ≤ (m - i).toNat := hleast hm
      omega

/-- A parameter list with another in it. Groups of the other kinds cross them, a literal holds a
closer, and an arrow stands between the two closers. -/
def crossedGroups : Text := "f(a<(b>\")\"\x7bc)=>d)\x7d".toList

theorem closingAt_nested_crossedGroups :
    '\n' ∉ crossedGroups ∧ readFrom? crossedGroups 1 = some (crossedGroups.drop 1) ∧
    (item? crossedGroups 1).bind Bracket.ofOpener? = some .paren ∧
    closingAt crossedGroups 1 = .ok 16 ∧ IsOpenerAt (crossedGroups.drop 1) .paren 3 ∧
    (∃ l, closingAt crossedGroups 4 = .ok l ∧ 4 < l ∧ l < 16) ∧
    item? crossedGroups 16 = some ')' ∧ IsCloserAt (crossedGroups.drop 1) .paren 15 ∧
    IsLeast {m : Int | 1 ≤ m ∧ Balances (crossedGroups.drop 1) .paren (m - 1).toNat} 16 := by
  have hcut : '\n' ∉ crossedGroups := by decide
  have hread : readFrom? crossedGroups 1 = some (crossedGroups.drop 1) := by decide
  have hkind : (item? crossedGroups 1).bind Bracket.ofOpener? = some .paren := by decide
  have hclose : closingAt crossedGroups 1 = .ok 16 := by decide
  have hopens : IsOpenerAt (crossedGroups.drop 1) .paren 3 := by decide
  obtain ⟨hnested, hcloser, hcloses, hleast⟩ :=
    closingAt_nested hcut hread hkind hclose (by decide)
  exact ⟨hcut, hread, hkind, hclose, hopens, hnested 4 (by decide) (by decide) hopens, hcloser,
    hcloses, hleast⟩

end Text

end CSharpOutline
