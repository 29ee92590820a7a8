import CSharpOutline.Declaration.Bases
import CSharpOutline.Proofs.Code.Nesting

/-!
# Base lists are read inside the text

The end of a base list is looked for among the stops of the text, and at each of them the characters
around the word `where` are asked for by their offsets. A stop is a place of the text
(`Balance.exists_of_mem_stops`), and the two characters are asked for only where they exist, so the
search ends without a fault (`Text.exists_basesEnd`), and with it the reading of the base list
(`Text.exists_baseNames`).
-/

namespace CSharpOutline

theorem Balance.exists_of_mem_stops {b : Balance} {offset : Int} {t : Text} {s : Stop}
    (h : s ∈ b.stops offset t) :
    ∃ j : Nat, j < t.length ∧ s.offset = offset + j ∧ s.text = t.drop j := by
  obtain ⟨j, c, hc, -, rfl⟩ := mem_stops_iff.mp h
  exact ⟨j, (List.getElem?_eq_some_iff.mp hc).1, rfl, rfl⟩

private theorem item?_natCast {α : Type} (xs : List α) (i : Nat) : item? xs i = xs[i]? := by
  by_cases h : i < xs.length
  · rw [item?, position?_natCast h, Option.bind_some]
  · rw [List.getElem?_eq_none (by omega), item?, position?, if_pos (by omega), if_neg (by omega),
      Option.bind_none]

namespace Text

/-- The word stands at a place of the text as a whole if no word character is next to it. Both
neighbours are asked for inside the text. -/
theorem startsWhere_natCast {t : Text} {s : Stop} {i : Nat} (hi : i < t.length)
    (hs : s.offset = i) :
    t.startsWhere s = .ok (s.text.startsWith "where".toList &&
      !(t.take i).getLast?.any isWord && !t[i + 5]?.any isWord) := by
  have hafter : item? t ((i : Int) + 5) = t[i + 5]? := item?_natCast t (i + 5)
  have hend : (t.length : Int) ≤ i + 5 ↔ t[i + 5]? = none := by
    rw [List.getElem?_eq_none_iff]
    omega
  rw [startsWhere, hs, hafter]
  simp only [pure, bind, Except.pure, Except.bind, hend]
  -- from here on the character behind the word only has to be there or not
  generalize t[i + 5]? = after
  cases s.text.startsWith "where".toList with
  | false => rfl
  | true =>
    rw [if_neg (by decide)]
    by_cases hzero : i = 0
    · subst hzero
      cases after <;> simp
    · have hbefore : (t.take i).getLast? = some t[i - 1] := by
        rw [List.getLast?_take, if_neg hzero, List.getElem?_eq_getElem (by omega), Option.some_or]
      have hitem : item? t ((i : Int) - 1) = some t[i - 1] := by
        rw [show (i : Int) - 1 = (i - 1 : Nat) by omega, item?_natCast, List.getElem?_eq_getElem]
      rw [if_pos (by omega), hitem, hbefore, Option.any_some]
      cases after <;> cases hword : isWord t[i - 1] <;> simp [hword]

private theorem exists_endingStop? {t : Text} {stops : List Stop}
    (h : ∀ s ∈ stops, ∃ i : Nat, i < t.length ∧ s.offset = i) :
    ∃ found, t.endingStop? stops = .ok found := by
  induction stops with
  | nil => exact ⟨none, rfl⟩
  | cons s stops ih =>
    rw [List.forall_mem_cons] at h
    obtain ⟨i, hi, hs⟩ := h.1
    rw [endingStop?, startsWhere_natCast hi hs]
    split
    · exact ⟨some s.offset, rfl⟩
    · simp only [bind, Except.bind]
      split
      · exact ⟨some s.offset, rfl⟩
      · exact ih h.2

theorem exists_basesEnd (t : Text) (start : Nat) : ∃ stop, t.basesEnd start = .ok stop := by
  have hstops : ∀ s ∈ Balance.fresh.stops start (t.drop start),
      ∃ i : Nat, i < t.length ∧ s.offset = i := by
    intro s hs
    obtain ⟨j, hj, hoffset, -⟩ := Balance.exists_of_mem_stops hs
    rw [List.length_drop] at hj
    exact ⟨start + j, by omega, by rw [hoffset]; rfl⟩
  obtain ⟨found, hfound⟩ := exists_endingStop? hstops
  refine ⟨found.getD t.length, ?_⟩
  rw [basesEnd, stopsFrom_natCast]
  simp only [bind, Except.bind, hfound]
  rfl

theorem exists_baseNames (t : Text) (includeBase : Bool) :
    ∃ names, t.baseNames includeBase = .ok names := by
  have hnames (start : Nat) : ∃ names, t.namesFrom start = .ok names := by
    obtain ⟨stop, hstop⟩ := exists_basesEnd t start
    rw [namesFrom, hstop]
    exact ⟨_, rfl⟩
  rw [baseNames]
  split
  · exact ⟨[], rfl⟩
  · split
    · next list _ =>
      obtain ⟨names, hfound⟩ := hnames (t.length - list.length)
      rw [hfound]
      exact ⟨_, rfl⟩
    · exact ⟨[], rfl⟩

end Text

end CSharpOutline
