import CSharpOutline.Proofs.Head.Reads
import CSharpOutline.Proofs.Head.Respace
import CSharpOutline.Proofs.Text.Squeeze

/-!
# Reading a squeezed head

A head is read alike before and after its blanks are squeezed: the same modifiers are found, and the
name and the rest are those of the text, squeezed (`Reads.squeeze`). The text must keep to one line,
because a line break ends a literal or a comment and the space in its place does not.

Every stage of the parser commutes with squeezing. Two of them need more than that. The name of a
constructor is what was read as its type, blanks included, so what is squeezed there is a piece of
text that ends in front of the rest; since it does not end in a blank (`Takes`), it can be squeezed
on its own. And a keyword at the very end of a text is one only for the blank behind it, which
squeezing drops; but then nothing is left to be read.
-/

namespace CSharpOutline

namespace Balance

theorem step_of_isBlank {b : Balance} (hb : b.Proper) {c : Char} (hc : isBlank c = true)
    (hn : c ≠ '\n') : b.step c = b.step ' ' := by
  refine ext_of ?_ ?_ rfl
  · rw [step_lexer, step_lexer,
      Lexer.step_eq_step_space hb (Lexer.isInert_of_isBlank hc hn)]
  · rw [depths_step_of_isUncounted (isUncounted_of_isBlank hc),
      depths_step_of_isUncounted (by decide)]

private theorem step_step_of_isBlank {b : Balance} (hb : b.Proper) {c d : Char}
    (hc : isBlank c = true) (hd : isBlank d = true) (hn : c ≠ '\n') (hn' : d ≠ '\n') :
    (b.step c).step d = b.step d := by
  rw [step_of_isBlank hb hc hn, step_of_isBlank (hb.step ' ') hd hn', step_of_isBlank hb hd hn',
    step_space_of_isInert hb (by decide)]

theorem closed_of_isBlank {k : Bracket} {b : Balance} (hk : b.depths.of k ≠ 0) {c : Char}
    (hc : isBlank c = true) : closed k b c = false := by
  rw [closed, depths_step_of_isUncounted (isUncounted_of_isBlank hc)]
  simpa using hk

/-- An open group is closed by the same character when blanks are squeezed. -/
theorem afterStop?_squeeze {k : Bracket} {b : Balance} (hb : b.Proper) (hk : b.depths.of k ≠ 0)
    {t : Text} (hn : '\n' ∉ t) :
    b.afterStop? (closed k) t.squeeze = (b.afterStop? (closed k) t).map Text.squeeze := by
  induction t generalizing b with
  | nil => rfl
  | cons c t ih =>
    rw [List.mem_cons, not_or] at hn
    by_cases hc : isBlank c = true
    · have hdepths := depths_step_of_isUncounted (isUncounted_of_isBlank hc) b
      have hstep := step_of_isBlank hb hc (Ne.symm hn.1)
      rw [afterStop?, if_neg (by rw [closed_of_isBlank hk hc]; decide)]
      cases t with
      | nil => rw [Text.squeeze_blank_nil hc rfl]; rfl
      | cons d t =>
        by_cases hd : isBlank d = true
        · -- the first blank is dropped, and the second one is read as if it were not there
          have hne : d ≠ '\n' := fun h ↦ hn.2 (by rw [h]; exact List.mem_cons_self)
          rw [Text.squeeze_blank_blank hc hd, ih hb hk hn.2, afterStop?, afterStop?,
            if_neg (by rw [closed_of_isBlank hk hd]; decide),
            if_neg (by rw [closed_of_isBlank (by rwa [hdepths]) hd]; decide),
            step_step_of_isBlank hb hc hd (Ne.symm hn.1) hne]
        · have hd : isBlank d = false := by simpa using hd
          rw [Text.squeeze_blank_visible hc hd, ← Text.squeeze_cons hd, afterStop?,
            if_neg (by rw [closed_of_isBlank hk (by decide)]; decide), ← hstep,
            ih (hb.step c) (by rwa [hdepths]) hn.2]
    · rw [Text.squeeze_cons (by simpa using hc), afterStop?, afterStop?]
      split
      · rfl
      · next hopen =>
        exact ih (hb.step c) (by simpa [closed] using hopen) hn.2

end Balance

namespace Text

theorem afterGroup_of_head {t : Text} (h : t.head? ≠ some '<' ∧ t.head? ≠ some '(') :
    afterGroup t = t := by
  cases t with
  | nil => rfl
  | cons c t =>
    rw [afterGroup, if_neg]
    simpa [not_or] using h

private theorem depth_step_fresh {c : Char} {k : Bracket} (hk : Bracket.ofOpener? c = some k)
    (hc : c = '<' ∨ c = '(') : (Balance.fresh.step c).depths.of k ≠ 0 := by
  rcases hc with rfl | rfl
  · obtain rfl : Bracket.angle = k := Option.some.inj hk
    decide
  · obtain rfl : Bracket.paren = k := Option.some.inj hk
    decide

/-- What follows a group is found again when blanks are squeezed. -/
theorem afterGroup_squeeze {t : Text} (hn : '\n' ∉ t) :
    afterGroup (squeeze t) = squeeze (afterGroup t) := by
  by_cases h : t.head? = some '<' ∨ t.head? = some '('
  · obtain ⟨c, r, rfl, hc⟩ : ∃ c r, t = c :: r ∧ (c = '<' ∨ c = '(') := by
      cases t with
      | nil => simp at h
      | cons c r => exact ⟨c, r, rfl, by simpa using h⟩
    obtain ⟨k, hk⟩ := exists_ofOpener? hc
    have hblank : isBlank c = false := by rcases hc with rfl | rfl <;> decide
    have hopen := depth_step_fresh hk hc
    have hstop : ¬Balance.closed k Balance.fresh c = true := by simpa [Balance.closed] using hopen
    rw [squeeze_cons hblank, afterGroup_cons hk hc, afterGroup_cons hk hc, Balance.afterStop?,
      Balance.afterStop?, if_neg hstop, if_neg hstop,
      Balance.afterStop?_squeeze (Balance.proper_fresh.step c) hopen
        fun h ↦ hn (List.mem_cons_of_mem _ h)]
    cases (Balance.fresh.step c).afterStop? (Balance.closed k) r <;> rfl
  · rw [not_or] at h
    have h' : (squeeze t).head? ≠ some '<' ∧ (squeeze t).head? ≠ some '(' := by
      rwa [ne_eq, ne_eq, head?_squeeze (by decide), head?_squeeze (by decide)]
    rw [afterGroup_of_head h, afterGroup_of_head h']

/-! ## Texts that do not end in a blank

What is taken off such that it ends in no blank is squeezed on its own, because no run of blanks
reaches over the cut. -/

/-- The text `r` is left of `t` when something that does not end in a blank is taken off. -/
def Takes (t r : Text) : Prop := ∃ q, t = q ++ r ∧ ∀ c, q.getLast? = some c → isBlank c = false

namespace Takes

variable {t r s : Text}

theorem refl (t : Text) : Takes t t := ⟨[], rfl, by simp⟩

theorem trans (h : Takes t r) (h' : Takes r s) : Takes t s := by
  obtain ⟨q, rfl, hq⟩ := h
  obtain ⟨q', rfl, hq'⟩ := h'
  refine ⟨q ++ q', by simp, fun c hc ↦ ?_⟩
  by_cases hnil : q' = []
  · rw [hnil, List.append_nil] at hc
    exact hq c hc
  · rw [List.getLast?_append_of_ne_nil q hnil] at hc
    exact hq' c hc

theorem concat (u : Text) {c : Char} (hc : isBlank c = false) (r : Text) :
    Takes (u ++ c :: r) r := by
  refine ⟨u ++ [c], by simp, fun d hd ↦ ?_⟩
  rw [List.getLast?_concat] at hd
  rwa [← Option.some.inj hd]

theorem cons {c : Char} (hc : isBlank c = false) (h : Takes t r) : Takes (c :: t) r :=
  (concat [] hc t).trans h

private theorem squeeze_eq (h : Takes t r) :
    squeeze t = squeeze (t.take (t.length - r.length)) ++ squeeze r := by
  obtain ⟨q, rfl, hq⟩ := h
  rw [List.length_append, Nat.add_sub_cancel, List.take_left, squeeze_append hq]

private theorem take_squeeze (h : Takes t r) :
    (squeeze t).take ((squeeze t).length - (squeeze r).length) =
      squeeze (t.take (t.length - r.length)) := by
  rw [h.squeeze_eq, List.length_append, Nat.add_sub_cancel, List.take_left]

/-- Something is taken off a squeezed text if something is taken off the text. -/
theorem length_squeeze_lt_iff (h : Takes t r) :
    (squeeze r).length < (squeeze t).length ↔ r.length < t.length := by
  obtain ⟨q, rfl, hq⟩ := h
  rw [squeeze_append hq, List.length_append, List.length_append]
  cases q with
  | nil => simp
  | cons c q =>
    have hne : squeeze (c :: q) ≠ [] := by
      intro hnil
      have hlast := List.getLast?_eq_some_getLast (List.cons_ne_nil c q)
      have hblank := allBlank_iff.mp (squeeze_eq_nil_iff.mp hnil) _ (List.mem_of_getLast? hlast)
      rw [hq _ hlast] at hblank
      exact absurd hblank (by decide)
    have hpos := List.length_pos_of_ne_nil hne
    simp only [List.length_cons]
    omega

end Takes

private theorem after?_takes {c : Char} (hc : isBlank c = false) {t r : Text}
    (h : after? c t = some r) : Takes t r := by
  obtain ⟨before, -, rfl⟩ := after?_eq_some_iff.mp h
  exact .concat before hc r

/-- A group that is closed ends with a bracket. -/
theorem afterGroup_takes {t : Text} (h : afterGroup t ≠ []) : Takes t (afterGroup t) := by
  by_cases hhead : t.head? ≠ some '<' ∧ t.head? ≠ some '('
  · rw [afterGroup_of_head hhead]
    exact .refl t
  · obtain ⟨c, r, rfl, hc⟩ : ∃ c r, t = c :: r ∧ (c = '<' ∨ c = '(') := by
      cases t with
      | nil => simp at hhead
      | cons c r => exact ⟨c, r, rfl, by simpa [imp_iff_not_or] using hhead⟩
    obtain ⟨k, hk⟩ := exists_ofOpener? hc
    rw [afterGroup_cons hk hc] at h ⊢
    cases hstop : Balance.fresh.afterStop? (Balance.closed k) (c :: r) with
    | none => rw [hstop] at h; exact absurd rfl h
    | some s =>
      obtain ⟨u, d, heq, hnone, hd⟩ := Balance.afterStop?_eq_some_iff.mp hstop
      rw [Option.getD_some, heq]
      refine .concat u ?_ s
      rw [← Bool.not_eq_true]
      intro hblank
      -- the group is open in front of its last character, and a blank does not close it
      have hopen : (Balance.fresh.run u).depths.of k ≠ 0 := by
        refine Balance.depth_ne_zero_of_afterStop? ?_ hnone
        rintro rfl
        obtain ⟨rfl, -⟩ := List.cons.inj heq
        rcases hc with rfl | rfl <;> exact absurd hblank (by decide)
      rw [Balance.closed_of_isBlank hopen hblank] at hd
      exact absurd hd (by decide)

end Text

namespace Text

private theorem contains_of_isBlank {l : List Char} (hl : l.any isBlank = false) (c : Char)
    (hc : isBlank c = true) : l.contains c = false := by
  rw [← Bool.not_eq_true, List.contains_iff_mem]
  intro hmem
  exact List.any_eq_false.mp hl c hmem hc

theorem isBlank_of_isNamePart {c : Char} (h : isNamePart c = true) : isBlank c = false :=
  isBlank_of_class (fun _ ↦ isNamePart_of_isBlank) h

private theorem skipBlanks?_squeeze {t r : Text} (h : skipBlanks? t = some r) (hne : r ≠ []) :
    skipBlanks? t.squeeze = some r.squeeze := by
  cases t with
  | nil => simp [skipBlanks?] at h
  | cons c t =>
    rw [skipBlanks?] at h
    split at h
    · next hc =>
      obtain rfl := Option.some.inj h
      rw [squeeze_blank_cons hc hne, skipBlanks?, if_pos (by decide),
        trimStart_squeeze, trimStart_trimStart]
    · simp at h

private theorem skipBlanks?_squeeze_eq_none {t : Text} (h : skipBlanks? t = none) :
    skipBlanks? t.squeeze = none := by
  cases t with
  | nil => exact h
  | cons c t =>
    rw [skipBlanks?] at h
    split at h
    · simp at h
    · next hc => rw [squeeze_cons (by simpa using hc), skipBlanks?, if_neg hc]

private theorem afterKeyword?_squeeze (keywords : List Text) (t : Text) :
    afterKeyword? keywords t.squeeze =
      if keywords.contains (t.takeWhile fun c ↦ !isBlank c) then
        skipBlanks? (squeeze (t.dropWhile fun c ↦ !isBlank c)) else none := by
  have hclass : ∀ c, isBlank c = true → (!isBlank c) = false := fun c hc ↦ by rw [hc]; rfl
  rw [afterKeyword?, takeWhile_squeeze hclass, dropWhile_squeeze hclass]

/-- The keywords in front of a text are found again if something follows them. -/
theorem dropKeywords_squeeze {keywords : List Text} {t r : Text} {found : Bool}
    (h : dropKeywords keywords t = (found, r)) (hne : r ≠ []) :
    dropKeywords keywords t.squeeze = (found, r.squeeze) := by
  induction hlen : t.length using Nat.strongRecOn generalizing t found with
  | ind n ih =>
    cases hk : afterKeyword? keywords t with
    | none =>
      rw [dropKeywords_of_none hk] at h
      obtain ⟨rfl, rfl⟩ := Prod.mk.inj h
      refine dropKeywords_of_none ?_
      rw [afterKeyword?] at hk
      rw [afterKeyword?_squeeze]
      split at hk
      · next hmem => rw [if_pos hmem, skipBlanks?_squeeze_eq_none hk]
      · next hmem => rw [if_neg hmem]
    | some s =>
      rw [dropKeywords_of_some hk] at h
      obtain ⟨rfl, heq⟩ := Prod.mk.inj h
      have hs : s ≠ [] := by
        rintro rfl
        have hsuffix := dropKeywords_suffix keywords []
        rw [heq] at hsuffix
        exact hne (List.suffix_nil.mp hsuffix)
      have hlt := length_lt_of_afterKeyword? hk
      have hsqueezed : afterKeyword? keywords t.squeeze = some s.squeeze := by
        rw [afterKeyword?] at hk
        rw [afterKeyword?_squeeze]
        split at hk
        · next hmem => rw [if_pos hmem, skipBlanks?_squeeze hk hs]
        · simp at hk
      rw [dropKeywords_of_some hsqueezed, ih s.length (by omega) (Prod.ext rfl heq) rfl]

end Text

namespace Head

/-! ## The type

Each stage leaves the squeezed rest of a squeezed text, and what it takes off ends in a part of a
name or a closing bracket. -/

theorem unmarked_squeeze (t : Text) : unmarked t.squeeze = (unmarked t).squeeze := by
  by_cases h : t.head? = some '@'
  · obtain ⟨r, rfl⟩ := List.head?_eq_some_iff.mp h
    rw [Text.squeeze_cons (by decide)]
    rfl
  · have hne : ∀ {s : Text}, s.head? ≠ some '@' → ∀ r, s ≠ '@' :: r := by
      rintro s hs r rfl
      exact hs rfl
    have h' : t.squeeze.head? ≠ some '@' := by rwa [ne_eq, Text.head?_squeeze (by decide)]
    rw [unmarked_of_ne (hne h), unmarked_of_ne (hne h')]

private theorem afterQualified_squeeze (t : Text) :
    afterQualified t.squeeze = (afterQualified t).squeeze := by
  fun_induction afterQualified t with
  | case1 => rfl
  | case2 t ih =>
    rw [Text.squeeze_cons (by decide), Text.squeeze_cons (by decide), afterQualified, ih]
  | case3 c t hcolon hc ih =>
    have hne : ¬c = ':' := by
      rintro rfl
      exact absurd hc (by decide)
    rw [Text.squeeze_cons (Text.isBlank_of_isNamePart hc),
      afterQualified, if_pos hc, ih]
    simp [hne]
  | case4 c t hcolon hc =>
    by_cases hblank : isBlank c = true
    · refine afterQualified_of_head ?_
      rw [Text.head?_any_squeeze fun d hd ↦ ?_]
      · simp [Text.isNamePart_of_isBlank hblank, ne_of_isBlank hblank (d := ':') (by decide)]
      · simp [Text.isNamePart_of_isBlank hd, ne_of_isBlank hd (d := ':') (by decide)]
    · rw [Text.squeeze_cons (by simpa using hblank), afterQualified, if_neg hc]
      rintro r rfl hr
      obtain ⟨s, rfl⟩ := List.head?_eq_some_iff.mp
        ((Text.head?_squeeze (t := t) (d := ':') (by decide)).mp (by rw [hr]; rfl))
      exact hcolon s rfl rfl

theorem afterQualified_takes (t : Text) : t.Takes (afterQualified t) := by
  fun_induction afterQualified t with
  | case1 => exact .refl _
  | case2 t ih => exact (ih.cons (by decide)).cons (by decide)
  | case3 c t _ hc ih =>
    exact ih.cons (Text.isBlank_of_isNamePart hc)
  | case4 => exact .refl _

theorem exists_eq_mark_append (t : Text) :
    ∃ mark, t = mark ++ unmarked t ∧ ∀ c ∈ mark, isBlank c = false := by
  unfold unmarked
  split
  · next r =>
    refine ⟨['@'], rfl, fun c hc ↦ ?_⟩
    rw [List.mem_singleton.mp hc]
    decide
  · exact ⟨[], rfl, by simp⟩

private theorem unmarked_takes (t : Text) : t.Takes (unmarked t) := by
  obtain ⟨mark, ht, hmark⟩ := exists_eq_mark_append t
  exact ⟨mark, ht, fun c hc ↦ hmark c (List.mem_of_getLast? hc)⟩

private theorem afterTypeName?_squeeze (t : Text) :
    afterTypeName? t.squeeze = (afterTypeName? t).map Text.squeeze := by
  rw [afterTypeName?_eq, afterTypeName?_eq, unmarked_squeeze, afterQualified_squeeze]
  simp only [(afterQualified_takes (unmarked t)).length_squeeze_lt_iff]
  split <;> rfl

private theorem afterTypeName?_takes {t r : Text} (h : afterTypeName? t = some r) : t.Takes r := by
  rw [afterTypeName?_eq] at h
  split at h
  · rw [← Option.some.inj h]
    exact (unmarked_takes t).trans (afterQualified_takes _)
  · simp at h

private theorem afterType?_squeeze {t : Text} (hn : '\n' ∉ t) :
    afterType? t.squeeze = (afterType? t).map Text.squeeze := by
  rw [afterType?, afterType?, Text.afterGroup_squeeze hn, afterTypeName?_squeeze]
  simp only [Text.head?_squeeze (d := '(') (by decide)]
  split <;> rfl

private theorem afterType?_takes {t r : Text} (h : afterType? t = some r) (hne : r ≠ []) :
    t.Takes r := by
  rw [afterType?] at h
  split at h
  · rw [← Option.some.inj h] at hne ⊢
    exact Text.afterGroup_takes hne
  · exact afterTypeName?_takes h

private theorem afterSuffixes?_of_head {t : Text}
    (h : t.head?.any (['<', '?', '*', '['].contains ·) = false) : afterSuffixes? t = some t := by
  cases t with
  | nil => rw [afterSuffixes?]
  | cons c t => exact afterSuffixes?_other (by simpa using h) t

private theorem afterSuffixes?_squeeze {t : Text} (hn : '\n' ∉ t) :
    afterSuffixes? t.squeeze = (afterSuffixes? t).map Text.squeeze := by
  induction t using afterSuffixes?.induct with
  | case1 => rw [Text.squeeze_nil, afterSuffixes?]; rfl
  | case2 t ih =>
    have hgroup := Text.afterGroup_squeeze hn
    rw [Text.squeeze_cons (by decide)] at hgroup ⊢
    rw [afterSuffixes?, dif_pos rfl, afterSuffixes?, dif_pos rfl, hgroup]
    exact ih fun h ↦ hn ((Text.afterGroup_suffix _).subset h)
  | case3 c t hc hmark ih =>
    have hblank : isBlank c = false := by rcases hmark with rfl | rfl <;> decide
    rw [Text.squeeze_cons hblank, afterSuffixes?, dif_neg hc, if_pos hmark, afterSuffixes?,
      dif_neg hc, if_pos hmark]
    exact ih fun h ↦ hn (List.mem_cons_of_mem _ h)
  | case4 t hnone h₁ h₂ =>
    have hrank := Text.after?_squeeze (c := ']') (by decide) t
    rw [hnone] at hrank
    rw [Text.squeeze_cons (by decide), afterSuffixes?, dif_neg h₁, if_neg h₂, if_pos rfl, hrank,
      afterSuffixes?, dif_neg h₁, if_neg h₂, if_pos rfl, hnone]
    rfl
  | case5 t rest hrest h₁ h₂ ih =>
    have hrank := Text.after?_squeeze (c := ']') (by decide) t
    rw [hrest] at hrank
    rw [Text.squeeze_cons (by decide), afterSuffixes?, dif_neg h₁, if_neg h₂, if_pos rfl, hrank,
      afterSuffixes?, dif_neg h₁, if_neg h₂, if_pos rfl, hrest]
    exact ih fun h ↦ hn (List.mem_cons_of_mem _ ((Text.after?_suffix hrest).subset h))
  | case6 c t h₁ h₂ h₃ =>
    have hhead : (c :: t).head?.any (['<', '?', '*', '['].contains ·) = false := by
      simp [h₁, not_or.mp h₂, h₃]
    rw [afterSuffixes?_of_head hhead, afterSuffixes?_of_head]
    · rfl
    · rw [Text.head?_any_squeeze (Text.contains_of_isBlank (by decide)), hhead]

private theorem afterSuffixes?_takes {t r : Text} (h : afterSuffixes? t = some r) (hne : r ≠ []) :
    t.Takes r := by
  fun_induction afterSuffixes? t generalizing r with
  | case1 => exact absurd (Option.some.inj h).symm hne
  | case2 t ih =>
    have hgroup : Text.afterGroup ('<' :: t) ≠ [] := by
      intro hnil
      rw [hnil, afterSuffixes?] at h
      exact hne (Option.some.inj h).symm
    exact (Text.afterGroup_takes hgroup).trans (ih h hne)
  | case3 c t hc hmark ih =>
    refine (ih h hne).cons ?_
    rcases hmark with rfl | rfl <;> decide
  | case4 => simp at h
  | case5 t rest hrest _ _ ih =>
    exact ((Text.after?_takes (by decide) hrest).trans (ih h hne)).cons (by decide)
  | case6 => exact Option.some.inj h ▸ .refl _

/-! ## The name -/

private theorem parametersEnd_squeeze {t : Text} (hn : '\n' ∉ t) :
    parametersEnd t.squeeze = (parametersEnd t).squeeze := by
  rw [parametersEnd, parametersEnd, Text.afterGroup_squeeze hn]
  simp only [Text.head?_squeeze (d := '<') (by decide)]
  split <;> rfl

private theorem dropWhile_takes (t : Text) : t.Takes (t.dropWhile isNamePart) := by
  refine ⟨t.takeWhile isNamePart, List.takeWhile_append_dropWhile.symm, fun c hc ↦ ?_⟩
  exact Text.isBlank_of_isNamePart (List.mem_takeWhile_imp (List.mem_of_getLast? hc))

theorem isBlank_of_mem_name {t name rest : Text}
    (h : Text.name? isNamePart t = some (name, rest)) {c : Char} (hc : c ∈ name) :
    isBlank c = false := by
  obtain ⟨heq, rfl, -⟩ := name?_eq_some_iff.mp h
  obtain ⟨mark, hmark, hvisible⟩ := exists_eq_mark_append t
  have hname : name = mark ++ (unmarked t).takeWhile isNamePart := by
    refine List.append_cancel_right (heq.symm.trans ?_)
    rw [List.append_assoc, List.takeWhile_append_dropWhile]
    exact hmark
  rw [hname] at hc
  rcases List.mem_append.mp hc with hc | hc
  · exact hvisible c hc
  · exact Text.isBlank_of_isNamePart (List.mem_takeWhile_imp hc)

private theorem name?_squeeze {t name rest : Text}
    (h : Text.name? isNamePart t = some (name, rest)) :
    Text.name? isNamePart t.squeeze = some (name, rest.squeeze) := by
  obtain ⟨heq, hrest, hlt⟩ := name?_eq_some_iff.mp h
  have hname : ∀ c ∈ name, isBlank c = false := fun c hc ↦ isBlank_of_mem_name h hc
  refine name?_eq_some_iff.mpr ⟨?_, ?_, ?_⟩
  · rw [heq, Text.squeeze_append fun c hc ↦ hname c (List.mem_of_getLast? hc),
      Text.squeeze_eq_self hname]
  · rw [unmarked_squeeze, Text.dropWhile_squeeze fun _ ↦ Text.isNamePart_of_isBlank, hrest]
  · rw [unmarked_squeeze, ← hrest]
    rw [← hrest] at hlt
    exact (dropWhile_takes (unmarked t)).length_squeeze_lt_iff.mpr hlt

private theorem named?_squeeze {typed after name rest : Text} (hn : '\n' ∉ after)
    (htakes : after ≠ [] → typed.Takes after) (h : named? typed after = some (name, rest)) :
    named? typed.squeeze after.squeeze = some (name.squeeze, rest.squeeze) := by
  rw [named?] at h
  rw [named?, Text.trimStart_squeeze]
  simp only [ne_eq, Text.head?_squeeze (d := '(') (by decide)]
  split at h
  · next hparen =>
    obtain ⟨rfl, rfl⟩ := Prod.mk.inj (Option.some.inj h)
    have hne : after ≠ [] := by
      rintro rfl
      exact absurd hparen.2 (by decide)
    rw [if_pos hparen, (htakes hne).take_squeeze]
  · next hparen =>
    rw [if_neg hparen]
    split at h
    · next hblank =>
      obtain ⟨⟨n, a⟩, hp, heq⟩ := Option.map_eq_some_iff.mp h
      obtain ⟨rfl, rfl⟩ := Prod.mk.inj heq
      have hvisible : after.trimStart ≠ [] := by
        intro hnil
        rw [hnil] at hp
        exact absurd hp (by simp [Text.name?])
      have ha : '\n' ∉ a := by
        obtain ⟨happ, -⟩ := name?_eq_some_iff.mp hp
        intro hmem
        refine hn ((Text.trimStart_suffix after).subset ?_)
        rw [happ]
        exact List.mem_append_right _ hmem
      rw [Text.head?_squeeze_blank hvisible, if_pos hblank, name?_squeeze hp, Option.map_some,
        parametersEnd_squeeze ha, Text.trimStart_squeeze,
        Text.squeeze_eq_self fun c hc ↦ isBlank_of_mem_name hp hc]
    · simp at h

/-! ## Keywords and attributes -/

theorem afterAttributes?_of_head {t : Text} (h : t.head? ≠ some '[') :
    afterAttributes? t = some t := by
  cases t with
  | nil => exact afterAttributes?_nil
  | cons c t => exact afterAttributes?_cons_of_ne (by simpa using h) t

private theorem afterAttributes?_squeeze (t : Text) :
    afterAttributes? t.squeeze = (afterAttributes? t).map Text.squeeze := by
  induction hlen : t.length using Nat.strongRecOn generalizing t with
  | ind n ih =>
    by_cases hhead : t.head? = some '['
    · obtain ⟨t, rfl⟩ := List.head?_eq_some_iff.mp hhead
      rw [Text.squeeze_cons (by decide), afterAttributes?_bracket, afterAttributes?_bracket,
        Text.after?_squeeze (by decide)]
      cases hrest : Text.after? ']' t with
      | none => rfl
      | some rest =>
        have hlt := Text.length_lt_of_after? hrest
        have hle := Text.length_trimStart_le rest
        rw [List.length_cons] at hlen
        rw [Option.map_some, Option.bind_some, Option.bind_some, Text.trimStart_squeeze,
          ih _ (by omega) rest.trimStart rfl]
    · rw [afterAttributes?_of_head hhead, afterAttributes?_of_head]
      · rfl
      · rwa [ne_eq, Text.head?_squeeze (by decide)]

/-! ## The head -/

/-- A head is read alike when its blanks are squeezed. -/
theorem Reads.squeeze {text name rest : Text} {hasModifiers : Bool} (hn : '\n' ∉ text)
    (h : Reads text hasModifiers name rest) :
    Reads text.squeeze hasModifiers name.squeeze rest.squeeze := by
  obtain ⟨declared, typed, suffixed, after, hdeclared, htyped, hsuffixed, hafter, hname⟩ := h
  -- what is handed on from stage to stage keeps to the line
  have hsuffix : declared <:+ text :=
    (afterAttributes?_suffix hdeclared).trans (Text.trimStart_suffix text)
  have hkeywords := Text.dropKeywords_suffix memberModifiers declared
  rw [htyped] at hkeywords
  have hn₁ : '\n' ∉ typed := fun h ↦ hn (hsuffix.subset (hkeywords.subset h))
  have hn₂ : '\n' ∉ suffixed := fun h ↦ hn₁ ((afterType?_suffix hsuffixed).subset h)
  have hn₃ : '\n' ∉ after := fun h ↦ hn₂ ((afterSuffixes?_suffix hafter).subset h)
  have hne : typed ≠ [] := by
    rintro rfl
    exact absurd (length_lt_of_afterType? hsuffixed) (by simp)
  have htakes : after ≠ [] → typed.Takes after := by
    intro hafter'
    have hsuffixed' : suffixed ≠ [] := by
      rintro rfl
      exact hafter' (List.suffix_nil.mp (afterSuffixes?_suffix hafter))
    exact (afterType?_takes hsuffixed hsuffixed').trans (afterSuffixes?_takes hafter hafter')
  refine ⟨declared.squeeze, typed.squeeze, suffixed.squeeze, after.squeeze, ?_,
    Text.dropKeywords_squeeze htyped hne, ?_, ?_, named?_squeeze hn₃ htakes hname⟩
  · rw [Text.trimStart_squeeze, afterAttributes?_squeeze, hdeclared, Option.map_some]
  · rw [afterType?_squeeze hn₁, hsuffixed, Option.map_some]
  · rw [afterSuffixes?_squeeze hn₂, hafter, Option.map_some]

/-- A name starts with a visible character. -/
theorem Reads.exists_cons {text name rest : Text} {hasModifiers : Bool}
    (h : Reads text hasModifiers name rest) : ∃ c n, name = c :: n ∧ isBlank c = false := by
  obtain ⟨-, typed, suffixed, after, -, -, hsuffixed, hafter, hname⟩ := h
  have hlt := length_lt_of_afterType? hsuffixed
  have hle := (afterSuffixes?_suffix hafter).length_le
  rw [named?] at hname
  split at hname
  · next hparen =>
    -- the name is what was read as the type
    obtain ⟨rfl, -⟩ := Prod.mk.inj (Option.some.inj hname)
    rw [afterType?, if_neg hparen.1] at hsuffixed
    cases typed with
    | nil => simp at hlt
    | cons c t =>
      refine ⟨c, t.take (t.length - after.length), ?_, ?_⟩
      · rw [List.length_cons] at hlt ⊢
        rw [Nat.succ_sub (by omega), List.take_succ_cons]
      · rw [← Bool.not_eq_true]
        intro hc
        rw [afterTypeName?_eq, unmarked_of_ne, afterQualified_of_blank (by simpa using hc),
          if_neg (Nat.lt_irrefl _)] at hsuffixed
        · exact absurd hsuffixed (by simp)
        · rintro r heq
          exact ne_of_isBlank hc (by decide) (List.cons.inj heq).1
  · split at hname
    · obtain ⟨⟨n, a⟩, hp, heq⟩ := Option.map_eq_some_iff.mp hname
      obtain ⟨rfl, -⟩ := Prod.mk.inj heq
      obtain ⟨happ, -, hrest⟩ := name?_eq_some_iff.mp hp
      cases n with
      | nil =>
        have hle := (unmarked_suffix after.trimStart).length_le
        rw [happ] at hle hrest
        exact absurd hrest (Nat.not_lt.mpr hle)
      | cons c n => exact ⟨c, n, rfl, isBlank_of_mem_name hp List.mem_cons_self⟩
    · simp at hname

end Head

end CSharpOutline
