import CSharpOutline.Member.Modifier
import CSharpOutline.Proofs.Text.Squeeze

/-!
# Words and what does not change them

Two texts in a row have the words of both, unless a word goes on from the first into the second
(`words_append`). So blanks may be trimmed, collapsed or put in between, and the words stay.

A modifier is looked for as a phrase, bounded in place. For a single word this is the same as asking
for it among the words of the text (`hasPhrase_singleton`), and the access modifiers are single
words (`carries_eq_hasWord`).
-/

namespace CSharpOutline.Text

theorem isWord_of_isBlank (c : Char) (hc : isBlank c = true) : isWord c = false := by
  have hname := isNamePart_of_isBlank hc
  rw [isNamePart, Bool.or_eq_false_iff] at hname
  exact hname.1

theorem isBlank_of_isWord {c : Char} (hc : isWord c = true) : isBlank c = false :=
  isBlank_of_class isWord_of_isBlank hc

theorem isWord_where : ∀ c ∈ "where".toList, isWord c = true := List.all_eq_true.mp (by decide)

/-! ## Putting texts together -/

theorem words_append {s t : Text}
    (h : s.getLast?.any isWord = false ∨ t.head?.any isWord = false) :
    words (s ++ t) = words s ++ words t := by
  rcases h with h | h
  · by_cases hs : s = []
    · rw [hs]
      rfl
    · obtain ⟨u, c, rfl⟩ : ∃ u c, s = u ++ [c] :=
        ⟨s.dropLast, s.getLast hs, (List.dropLast_append_getLast hs).symm⟩
      have hc : isWord c = false := by simpa using h
      rw [List.append_assoc, List.singleton_append, words, runs_append_cons u hc, words,
        runs_append_cons u hc, words]
      simp [runs]
  · cases t with
    | nil => simp [words, runs]
    | cons c t =>
      have hc : isWord c = false := by simpa using h
      rw [words, runs_append_cons s hc, words, words, runs_cons_of_neg hc]

theorem words_of_allBlank {t : Text} (h : t.allBlank = true) : words t = [] := by
  induction t with
  | nil => rfl
  | cons c t ih =>
    rw [allBlank_cons, Bool.and_eq_true] at h
    rw [words, runs_cons_of_neg (isWord_of_isBlank c h.1)]
    exact ih h.2

theorem words_blanks_append {b : Text} (hb : b.allBlank = true) (t : Text) :
    words (b ++ t) = words t := by
  rw [words_append, words_of_allBlank hb, List.nil_append]
  refine .inl ?_
  cases hlast : b.getLast? with
  | none => rfl
  | some c => exact isWord_of_isBlank c (allBlank_iff.mp hb c (List.mem_of_getLast? hlast))

theorem words_append_blanks (t : Text) {e : Text} (he : e.allBlank = true) :
    words (t ++ e) = words t := by
  rw [words_append, words_of_allBlank he, List.append_nil]
  refine .inr ?_
  cases hhead : e.head? with
  | none => rfl
  | some c => exact isWord_of_isBlank c (allBlank_iff.mp he c (List.mem_of_head? hhead))

@[simp] theorem words_trimStart (t : Text) : words (trimStart t) = words t := by
  obtain ⟨b, hb, ht⟩ := exists_eq_append_trimStart t
  conv => rhs; rw [ht, words_blanks_append hb]

@[simp] theorem words_trim (t : Text) : words (trim t) = words t := by
  obtain ⟨b, e, hb, he, -, ht⟩ := exists_eq_append_trim t
  conv => rhs; rw [ht, words_append_blanks _ he, words_blanks_append hb]

@[simp] theorem words_collapse (t : Text) : words (collapse t) = words t := by
  rw [collapse_eq_squeeze, words, runs_squeeze isWord_of_isBlank, ← words, words_trimStart]

/-! ## Phrases of one word

A word that is bounded on both sides is one of the words of the text, so a phrase of a single word
is found exactly where the word is. -/

private theorem runs_cons_of_pos {p : Char → Bool} {c : Char} (hc : p c = true) (t : Text) :
    runs p (c :: t) = (c :: t.takeWhile p) :: runs p (t.dropWhile p) := by
  induction t generalizing c with
  | nil => simp [runs, hc]
  | cons d t ih =>
    by_cases hd : p d = true
    · rw [runs, if_pos hc, if_pos (by simpa using hd), ih hd, List.takeWhile_cons_of_pos hd,
        List.dropWhile_cons_of_pos hd]
      rfl
    · rw [runs, if_pos hc, if_neg (by simpa using hd), List.takeWhile_cons_of_neg hd,
        List.dropWhile_cons_of_neg hd]

section

variable {word : Text} (hne : word ≠ []) (hword : ∀ c ∈ word, isWord c = true)

include hne hword

/-- A word stands at the start of a text, bounded on both sides, if it is the first word of the
text and none goes on from before. -/
theorem phraseHere_singleton (before : Option Char) (c : Char) (t : Text) :
    phraseHere [word] before (c :: t) = true ↔
      before.any isWord = false ∧ (c :: t).takeWhile isWord = word := by
  have hlast : (lastOf? [word]).any isWord = true := by
    have hlast := List.getLast?_eq_some_getLast hne
    rw [lastOf?, List.getLast?_singleton, Option.bind_some, hlast, Option.any_some]
    exact hword _ (List.mem_of_getLast? hlast)
  have hfirst : ∀ rest, c :: t = word ++ rest → isWord c = true := by
    intro rest heq
    obtain ⟨d, w, rfl⟩ := List.exists_cons_of_ne_nil hne
    rw [(List.cons.inj heq).1]
    exact hword d List.mem_cons_self
  rw [phraseHere, afterPhrase?]
  constructor
  · intro h
    split at h
    · simp at h
    · next rest hrest =>
      have heq := expect?_eq_some_iff.mp hrest
      rw [Bool.and_eq_true, atBoundary, atBoundary, hlast, List.head?_cons, Option.any_some,
        hfirst rest heq] at h
      obtain ⟨hbefore, hafter⟩ : before.any isWord = false ∧ rest.head?.any isWord = false := by
        simpa using h
      refine ⟨hbefore, ?_⟩
      rw [heq, List.takeWhile_append_of_pos hword]
      cases rest with
      | nil => simp
      | cons d rest => rw [List.takeWhile_cons_of_neg (by simpa using hafter), List.append_nil]
  · rintro ⟨hbefore, hrun⟩
    have heq := List.takeWhile_append_dropWhile (p := isWord) (l := c :: t)
    have hafter : ((c :: t).dropWhile isWord).head?.any isWord = false := by
      rw [← Bool.not_eq_true, Option.any_eq_true]
      rintro ⟨d, hd, hword⟩
      have hnot := List.head?_dropWhile_not isWord (c :: t)
      rw [hd] at hnot
      simp [hword] at hnot
    rw [hrun] at heq
    rw [expect?_eq_some_iff.mpr heq.symm]
    dsimp only
    rw [atBoundary, atBoundary, hlast, hafter, hbefore, List.head?_cons, Option.any_some,
      hfirst _ heq.symm]
    rfl

/-- A word is found in front of a text that does not go on with it as it is found at the end. -/
theorem phraseHere_singleton_append {rest : Text} (hrest : rest.head?.any isWord = false)
    (before : Option Char) (c : Char) (t : Text) :
    phraseHere [word] before (c :: (t ++ rest)) = phraseHere [word] before (c :: t) := by
  have htake : (c :: (t ++ rest)).takeWhile isWord = (c :: t).takeWhile isWord := by
    have hnil : rest.takeWhile isWord = [] := by
      rcases rest with - | ⟨d, rest⟩
      · rfl
      · exact List.takeWhile_cons_of_neg (by simpa using hrest)
    rw [← List.cons_append, List.takeWhile_append, hnil]
    split
    · next hall => rw [List.append_nil, (List.takeWhile_prefix _).eq_of_length hall]
    · rfl
  rw [Bool.eq_iff_iff, phraseHere_singleton hne hword, phraseHere_singleton hne hword, htake]

theorem hasPhraseAfter_singleton (before : Option Char) (t : Text) :
    hasPhraseAfter [word] before t =
      hasWord (if before.any isWord then t.dropWhile isWord else t) word := by
  -- behind a word character the rest of its word does not count
  induction t generalizing before with
  | nil => cases h : before.any isWord <;> rfl
  | cons c t ih =>
    have hhere := phraseHere_singleton hne hword before c t
    rw [hasPhraseAfter, ih, Option.any_some, Bool.eq_iff_iff, Bool.or_eq_true, hhere]
    by_cases hc : isWord c = true
    · rw [if_pos hc, List.dropWhile_cons_of_pos hc, List.takeWhile_cons_of_pos hc]
      cases hbefore : before.any isWord with
      | true => simp
      | false => simp [hasWord, words, runs_cons_of_pos hc, eq_comm (a := word)]
    · have hrun : (c :: t).takeWhile isWord ≠ word := by
        rw [List.takeWhile_cons_of_neg hc]
        exact hne.symm
      rw [if_neg hc, List.dropWhile_cons_of_neg hc, ite_self]
      simp [hrun, hasWord, words, runs_cons_of_neg (show isWord c = false by simpa using hc)]

/-- A phrase of one word is bounded exactly where the word is one of the words of the text. -/
theorem hasPhrase_singleton (t : Text) : t.hasPhrase [word] = t.hasWord word := by
  rw [hasPhrase, hasPhraseAfter_singleton hne hword]
  rfl

end

/-- An access modifier is carried as a word. -/
theorem carries_eq_hasWord {modifier : Text} (h : modifier ∈ accessModifiers) (t : Text) :
    t.carries modifier = t.hasWord modifier := by
  have hfields : ∀ m ∈ accessModifiers, m.fields = [m] ∧ m ≠ [] ∧ m.all isWord = true := by
    decide
  obtain ⟨hfields, hne, hword⟩ := hfields modifier h
  rw [carries, hfields, hasPhrase_singleton hne fun c hc ↦ List.all_eq_true.mp hword c hc]

end CSharpOutline.Text
