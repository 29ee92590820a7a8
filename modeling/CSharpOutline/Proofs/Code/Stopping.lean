import CSharpOutline.Code.Balance

/-!
# Where a reader stops

A reader goes on until a condition on the balance and the next character holds. Where it stops can
be told by the offset of that character (`stopOffset?`) or by the text behind it (`afterStop?`).
Offsets are what is reported; the text behind is easier to compare where two readers go through
different texts with the same end.
-/

namespace CSharpOutline.Balance

variable {stop : Balance → Char → Bool}

/-! ## The offset of a stop -/

theorem stopOffset?_lt {b : Balance} {t : Text} {k : Nat} (h : b.stopOffset? stop t = some k) :
    k < t.length := by
  induction t generalizing b k with
  | nil => simp [stopOffset?] at h
  | cons c t ih =>
    rw [stopOffset?] at h
    split at h
    · rw [← Option.some.inj h]
      simp
    · obtain ⟨m, hm, rfl⟩ := Option.map_eq_some_iff.mp h
      exact Nat.succ_lt_succ (ih hm)

theorem stopOffset?_append (b : Balance) (s t : Text) :
    b.stopOffset? stop (s ++ t) =
      (b.stopOffset? stop s).or (((b.run s).stopOffset? stop t).map (s.length + ·)) := by
  induction s generalizing b with
  | nil => simp [stopOffset?]
  | cons c s ih =>
    rw [List.cons_append, stopOffset?, stopOffset?, ih, run_cons]
    split
    · rfl
    · cases (b.step c).stopOffset? stop s with
      | none =>
        simp only [Option.map_none, Option.none_or, Option.map_map, List.length_cons]
        congr 1
        funext k
        simp only [Function.comp_apply]
        omega
      | some k => rfl

/-- The offset is that of the first character at which `stop` holds. -/
theorem stopOffset?_eq_some_iff {b : Balance} {t : Text} {k : Nat} :
    b.stopOffset? stop t = some k ↔
      (∃ c, t[k]? = some c ∧ stop (b.run (t.take k)) c = true) ∧
        ∀ j < k, ∀ c, t[j]? = some c → stop (b.run (t.take j)) c = false := by
  induction t generalizing b k with
  | nil => simp [stopOffset?]
  | cons d t ih =>
    rw [stopOffset?]
    by_cases hd : stop b d = true
    · rw [if_pos hd]
      constructor
      · intro h
        obtain rfl : 0 = k := Option.some.inj h
        exact ⟨⟨d, rfl, hd⟩, by simp⟩
      · rintro ⟨-, hbefore⟩
        cases k with
        | zero => rfl
        | succ k =>
          have hfalse := hbefore 0 (Nat.succ_pos k) d rfl
          rw [List.take_zero, run_nil, hd] at hfalse
          exact absurd hfalse (by decide)
    · rw [if_neg hd]
      cases k with
      | zero => simp [hd]
      | succ k =>
        have hmap : ((b.step d).stopOffset? stop t).map (· + 1) = some (k + 1) ↔
            (b.step d).stopOffset? stop t = some k := by simp
        rw [hmap, ih]
        refine and_congr (by simp) ⟨fun h j hj ↦ ?_, fun h j hj ↦ ?_⟩
        · cases j with
          | zero => simpa using hd
          | succ j => simpa using h j (Nat.lt_of_succ_lt_succ hj)
        · simpa using h (j + 1) (Nat.succ_lt_succ hj)

/-- A reader that starts further on, in front of the stop, stops at the same place. -/
theorem stopOffset?_drop {b : Balance} {t : Text} {n k : Nat} (h : b.stopOffset? stop t = some k)
    (hn : n ≤ k) : (b.run (t.take n)).stopOffset? stop (t.drop n) = some (k - n) := by
  induction n generalizing b t k with
  | zero => exact h
  | succ n ih =>
    cases t with
    | nil => exact absurd h (by simp [stopOffset?])
    | cons c t =>
      rw [stopOffset?] at h
      split at h
      · rw [← Option.some.inj h] at hn
        exact absurd hn (Nat.not_succ_le_zero n)
      · obtain ⟨m, hm, rfl⟩ := Option.map_eq_some_iff.mp h
        rw [List.take_succ_cons, run_cons, List.drop_succ_cons, ih hm (Nat.le_of_succ_le_succ hn),
          Nat.add_sub_add_right]

/-! ## What follows a stop -/

/-- What follows the first character of a text at which `stop` holds. -/
def afterStop? (stop : Balance → Char → Bool) (b : Balance) : Text → Option Text
  | [] => none
  | c :: t => if stop b c then some t else afterStop? stop (b.step c) t

theorem afterStop?_eq_map (b : Balance) (t : Text) :
    b.afterStop? stop t = (b.stopOffset? stop t).map fun k ↦ t.drop (k + 1) := by
  induction t generalizing b with
  | nil => rfl
  | cons c t ih =>
    rw [afterStop?, stopOffset?]
    split
    · rfl
    · rw [ih, Option.map_map]
      rfl

theorem afterStop?_append (b : Balance) (s t : Text) :
    b.afterStop? stop (s ++ t) =
      ((b.afterStop? stop s).map (· ++ t)).or ((b.run s).afterStop? stop t) := by
  induction s generalizing b with
  | nil => rfl
  | cons c s ih =>
    rw [List.cons_append, afterStop?, afterStop?]
    split
    · rfl
    · rw [ih, run_cons]

theorem afterStop?_suffix {b : Balance} {t r : Text} (h : b.afterStop? stop t = some r) :
    r <:+ t := by
  rw [afterStop?_eq_map, Option.map_eq_some_iff] at h
  obtain ⟨k, -, rfl⟩ := h
  exact List.drop_suffix _ _

theorem afterStop?_eq_some_iff {b : Balance} {t r : Text} :
    b.afterStop? stop t = some r ↔
      ∃ s c, t = s ++ c :: r ∧ b.afterStop? stop s = none ∧ stop (b.run s) c = true := by
  induction t generalizing b with
  | nil => simp [afterStop?]
  | cons d t ih =>
    rw [afterStop?]
    constructor
    · intro h
      split at h
      · next hd => exact ⟨[], d, by simpa using h, rfl, hd⟩
      · next hd =>
        obtain ⟨s, c, rfl, hs, hc⟩ := ih.mp h
        exact ⟨d :: s, c, rfl, by rw [afterStop?, if_neg hd, hs], hc⟩
    · rintro ⟨s, c, heq, hs, hc⟩
      cases s with
      | nil =>
        obtain ⟨rfl, rfl⟩ := List.cons.inj heq
        rw [run_nil] at hc
        rw [if_pos hc]
      | cons e s =>
        obtain ⟨rfl, rfl⟩ := List.cons.inj heq
        rw [afterStop?] at hs
        split at hs
        · simp at hs
        · next hd =>
          rw [if_neg hd]
          exact ih.mpr ⟨s, c, rfl, hs, hc⟩

theorem stopOffset?_of_afterStop? {b : Balance} {s r : Text} {c : Char}
    (h : b.afterStop? stop (s ++ c :: r) = some r) :
    b.stopOffset? stop (s ++ c :: r) = some s.length := by
  rw [afterStop?_eq_map, Option.map_eq_some_iff] at h
  obtain ⟨k, hk, hdrop⟩ := h
  have hlt := stopOffset?_lt hk
  have hlength := congrArg List.length hdrop
  rw [List.length_drop, List.length_append, List.length_cons] at hlength
  rw [List.length_append, List.length_cons] at hlt
  rw [hk, Option.some.injEq]
  omega

end CSharpOutline.Balance
