import CSharpOutline.Declaration.Name
import CSharpOutline.Proofs.Using.Directive

/-!
# Carriage returns in front of line feeds

`Text.withReturns` puts a carriage return in front of every line feed of a text. Everything that
reads a text from its start, and that treats the two characters alike or stops at both, commutes
with it: what it takes is the same, and what it leaves is what it leaves of the plain text, with
returns.

A search goes through a text character by character and so also comes to the line feed behind a
return, where there is nothing to compare it with. There no declaration begins and no keyword
stands, so nothing is found that is not found in the plain text (`namespaceAfter?_withReturns`,
`classAfter?_withReturns`).
-/

namespace CSharpOutline.Text

/-- The text with a carriage return in front of every line feed. -/
def withReturns (t : Text) : Text := t.flatMap fun c ↦ if c = '\n' then ['\r', '\n'] else [c]

@[simp] theorem withReturns_nil : withReturns [] = [] := rfl

@[simp] theorem withReturns_newline (t : Text) :
    withReturns ('\n' :: t) = '\r' :: '\n' :: t.withReturns := rfl

theorem withReturns_cons {c : Char} (hc : c ≠ '\n') (t : Text) :
    withReturns (c :: t) = c :: t.withReturns := by
  rw [withReturns, List.flatMap_cons, if_neg hc]
  rfl

theorem withReturns_append (s t : Text) :
    withReturns (s ++ t) = s.withReturns ++ t.withReturns := List.flatMap_append

private theorem mem_withReturns {c : Char} (hc : c ≠ '\r') {t : Text} :
    c ∈ t.withReturns ↔ c ∈ t := by
  induction t with
  | nil => rfl
  | cons d t ih =>
    by_cases hd : d = '\n'
    · rw [hd, withReturns_newline, List.mem_cons, List.mem_cons, List.mem_cons, ih]
      simp [hc]
    · rw [withReturns_cons hd, List.mem_cons, List.mem_cons, ih]

/-- A text starts with the same character, unless this ends a line. -/
theorem head?_withReturns {c : Char} (hc : c ≠ '\r' ∧ c ≠ '\n') {t : Text} :
    t.withReturns.head? = some c ↔ t.head? = some c := by
  cases t with
  | nil => rfl
  | cons d t =>
    by_cases hd : d = '\n'
    · rw [hd, withReturns_newline]
      simp [hc.1.symm, hc.2.symm]
    · rw [withReturns_cons hd]
      rfl

theorem withReturns_ne_nil {t : Text} (h : t ≠ []) : t.withReturns ≠ [] := by
  obtain ⟨c, t, rfl⟩ := List.exists_cons_of_ne_nil h
  by_cases hc : c = '\n'
  · simp [hc]
  · simp [withReturns_cons hc]

theorem withReturns_of_not_mem {t : Text} (h : '\n' ∉ t) : t.withReturns = t := by
  induction t with
  | nil => rfl
  | cons c t ih =>
    rw [List.mem_cons, not_or] at h
    rw [withReturns_cons (Ne.symm h.1), ih h.2]

/-! ## Readers

A reader that starts at the same place of both texts takes the same from them and leaves
corresponding rests. -/

theorem dropWhile_withReturns {p : Char → Bool} (hp : p '\r' = p '\n') (t : Text) :
    t.withReturns.dropWhile p = withReturns (t.dropWhile p) := by
  induction t with
  | nil => rfl
  | cons c t ih =>
    by_cases hc : c = '\n'
    · subst hc
      rw [withReturns_newline, List.dropWhile_cons, List.dropWhile_cons, List.dropWhile_cons, hp]
      split
      · exact ih
      · rfl
    · rw [withReturns_cons hc, List.dropWhile_cons, List.dropWhile_cons]
      split
      · exact ih
      · rw [withReturns_cons hc]

theorem takeWhile_withReturns {p : Char → Bool} (hreturn : p '\r' = false) (hfeed : p '\n' = false)
    (t : Text) : t.withReturns.takeWhile p = t.takeWhile p := by
  induction t with
  | nil => rfl
  | cons c t ih =>
    by_cases hc : c = '\n'
    · subst hc
      rw [withReturns_newline, List.takeWhile_cons_of_neg (by simp [hreturn]),
        List.takeWhile_cons_of_neg (by simp [hfeed])]
    · rw [withReturns_cons hc, List.takeWhile_cons, List.takeWhile_cons, ih]

private theorem expect?_withReturns {word : Text} (hword : word.any isLineEnd = false) (t : Text) :
    expect? word t.withReturns = (expect? word t).map withReturns := by
  induction word generalizing t with
  | nil => simp
  | cons w word ih =>
    rw [List.any_cons, Bool.or_eq_false_iff] at hword
    cases t with
    | nil => rfl
    | cons c t =>
      by_cases hc : c = '\n'
      · have hreturn : '\r' ≠ w := ne_of_isLineEnd rfl hword.1
        have hfeed : '\n' ≠ w := ne_of_isLineEnd rfl hword.1
        rw [hc, withReturns_newline, expect?, expect?, if_neg hreturn, if_neg hfeed]
        rfl
      · rw [withReturns_cons hc, expect?, expect?]
        split
        · exact ih hword.2 t
        · rfl

private theorem after?_withReturns {c : Char} (hc : isLineEnd c = false) (t : Text) :
    after? c t.withReturns = (after? c t).map withReturns := by
  induction t with
  | nil => rfl
  | cons d t ih =>
    by_cases hd : d = '\n'
    · have hreturn : '\r' ≠ c := ne_of_isLineEnd rfl hc
      have hfeed : '\n' ≠ c := ne_of_isLineEnd rfl hc
      rw [hd, withReturns_newline, after?, after?, after?, if_neg hreturn, if_neg hfeed,
        if_neg hfeed, ih]
    · rw [withReturns_cons hd, after?, after?]
      split
      · rfl
      · exact ih

theorem trimStart_withReturns (t : Text) : t.withReturns.trimStart = t.trimStart.withReturns :=
  dropWhile_withReturns (p := isBlank) rfl t

theorem skipBlanks?_withReturns (t : Text) :
    t.withReturns.skipBlanks? = t.skipBlanks?.map withReturns := by
  cases t with
  | nil => rfl
  | cons c t =>
    by_cases hc : c = '\n'
    · have hfeed := trimStart_cons_of_isBlank (c := '\n') rfl (withReturns t)
      rw [hc, withReturns_newline, skipBlanks?, skipBlanks?, hfeed, trimStart_withReturns]
      rfl
    · rw [withReturns_cons hc, skipBlanks?, skipBlanks?, trimStart_withReturns]
      split
      · rfl
      · rfl

theorem name?_cons_of_ne {p : Char → Bool} {c : Char} (hc : c ≠ '@') (t : Text) :
    name? p (c :: t) =
      match (c :: t).takeWhile p with
      | [] => none
      | run => some (run, (c :: t).dropWhile p) := by
  unfold name?
  split
  next mark body heq =>
    split at heq
    · next r hr => exact absurd (List.cons.inj hr).1 hc
    · obtain ⟨rfl, rfl⟩ := Prod.mk.inj heq
      rfl

private theorem map_fst_name?_withReturns {p : Char → Bool} (hreturn : p '\r' = false)
    (hfeed : p '\n' = false) (t : Text) :
    (name? p t.withReturns).map Prod.fst = (name? p t).map Prod.fst := by
  cases t with
  | nil => rfl
  | cons c t =>
    by_cases hmark : c = '@'
    · subst hmark
      rw [withReturns_cons (by decide), name?, name?, takeWhile_withReturns hreturn hfeed]
      split <;> rfl
    · have htake := takeWhile_withReturns hreturn hfeed (c :: t)
      have hhead : ∃ d r, withReturns (c :: t) = d :: r ∧ d ≠ '@' := by
        by_cases hc : c = '\n'
        · exact ⟨'\r', '\n' :: withReturns t, by rw [hc, withReturns_newline], by decide⟩
        · exact ⟨c, withReturns t, withReturns_cons hc t, hmark⟩
      obtain ⟨d, r, hdr, hd⟩ := hhead
      rw [hdr] at htake ⊢
      rw [name?_cons_of_ne hd, name?_cons_of_ne hmark, htake]
      split <;> rfl

private theorem afterKeyword?_withReturns (keywords : List Text) (t : Text) :
    afterKeyword? keywords t.withReturns = (afterKeyword? keywords t).map withReturns := by
  rw [afterKeyword?, afterKeyword?, takeWhile_withReturns rfl rfl, dropWhile_withReturns rfl,
    skipBlanks?_withReturns]
  split
  · rfl
  · rfl

private theorem dropKeywords_withReturns (keywords : List Text) (t : Text) :
    (dropKeywords keywords t.withReturns).2 = (dropKeywords keywords t).2.withReturns := by
  fun_induction dropKeywords keywords t with
  | case1 t hnone =>
    rw [Text.dropKeywords_of_none]
    rw [afterKeyword?_withReturns, hnone, Option.map_none]
  | case2 t rest hrest ih =>
    have hreturns := afterKeyword?_withReturns keywords t
    rw [hrest, Option.map_some] at hreturns
    rw [Text.dropKeywords_of_some hreturns, ih]

/-! ## A name behind a keyword -/

/-- The name behind a word at the start of `t` and the blanks after the word. -/
def nameBehind? (word : Text) (p : Char → Bool) (t : Text) : Option Text :=
  ((expect? word t).bind skipBlanks?).bind fun rest ↦ (name? p rest).map Prod.fst

theorem nameBehind?_withReturns {word : Text} (hword : word.any isLineEnd = false)
    {p : Char → Bool} (hreturn : p '\r' = false) (hfeed : p '\n' = false) (t : Text) :
    nameBehind? word p t.withReturns = nameBehind? word p t := by
  rw [nameBehind?, nameBehind?, expect?_withReturns hword]
  cases expect? word t with
  | none => rfl
  | some rest =>
    rw [Option.map_some, Option.bind_some, Option.bind_some, skipBlanks?_withReturns]
    cases rest.skipBlanks? with
    | none => rfl
    | some named => exact map_fst_name?_withReturns hreturn hfeed named

/-! ## The namespace -/

private theorem namespaceHere?_eq (t : Text) :
    namespaceHere? t = nameBehind? "namespace".toList isNamePart t := by
  rw [namespaceHere?, nameBehind?]
  congr 1
  funext rest
  cases name? isNamePart rest with
  | none => rfl
  | some named => rfl

private theorem namespaceHere?_withReturns (t : Text) :
    namespaceHere? t.withReturns = namespaceHere? t := by
  rw [namespaceHere?_eq, namespaceHere?_eq,
    nameBehind?_withReturns (by decide) (by decide) (by decide)]

private theorem namespaceHere?_newline (t : Text) : namespaceHere? ('\n' :: t) = none := rfl

theorem namespaceAfter?_withReturns (before : Option Char) (t : Text) :
    namespaceAfter? before t.withReturns = namespaceAfter? before t := by
  induction t generalizing before with
  | nil => rfl
  | cons c t ih =>
    have hhere := namespaceHere?_withReturns (c :: t)
    by_cases hc : c = '\n'
    · subst hc
      -- no word ends at the return, and no keyword starts at the line feed behind it
      have hreturn : namespaceAfter? (some '\r') ('\n' :: withReturns t) =
          namespaceAfter? (some '\n') t := by
        rw [namespaceAfter?, if_neg (by decide), namespaceHere?_newline, Option.none_or, ih]
      rw [withReturns_newline] at hhere ⊢
      rw [namespaceAfter?, hhere, hreturn, namespaceAfter?]
    · rw [withReturns_cons hc] at hhere ⊢
      rw [namespaceAfter?, hhere, ih, namespaceAfter?]

theorem namespaceName_withReturns (t : Text) : t.withReturns.namespaceName = t.namespaceName := by
  rw [namespaceName, namespaceAfter?_withReturns, namespaceName]

/-! ## The class

Attributes and modifiers in front of the keyword are read alike. Where a line ends inside an
attribute, it is not closed on that line in either text. -/

/-- An attribute that stays on one line is skipped with the blanks behind it. -/
theorem afterLineAttributes_bracket {before : Text} (hbefore : ']' ∉ before) (rest : Text) :
    afterLineAttributes ('[' :: (before ++ ']' :: rest)) =
      if '\n' ∈ before then '[' :: (before ++ ']' :: rest)
      else afterLineAttributes rest.trimStart := by
  have hafter : after? ']' (before ++ ']' :: rest) = some rest :=
    after?_eq_some_iff.mpr ⟨before, hbefore, rfl⟩
  have htake : (before ++ ']' :: rest).take ((before ++ ']' :: rest).length - rest.length) =
      before ++ [']'] := by
    have hlength : (before ++ ']' :: rest).length - rest.length = before.length + 1 := by
      simp only [List.length_append, List.length_cons]
      omega
    rw [hlength, List.take_append, List.take_of_length_le (by omega)]
    simp
  rw [afterLineAttributes]
  split
  · next hnone =>
    rw [hafter] at hnone
    exact absurd hnone (by simp)
  · next r hr =>
    obtain rfl : rest = r := Option.some.inj (hafter.symm.trans hr)
    rw [htake]
    simp

theorem afterLineAttributes_of_none {t : Text} (h : after? ']' t = none) :
    afterLineAttributes ('[' :: t) = '[' :: t := by
  rw [afterLineAttributes]
  split
  · rfl
  · next r hr =>
    rw [h] at hr
    exact absurd hr (by simp)

theorem afterLineAttributes_of_head {t : Text} (h : t.head? ≠ some '[') :
    afterLineAttributes t = t := by
  rw [afterLineAttributes]
  rintro r rfl
  exact h rfl

private theorem afterLineAttributes_withReturns (t : Text) :
    afterLineAttributes t.withReturns = (afterLineAttributes t).withReturns := by
  induction hn : t.length using Nat.strongRecOn generalizing t with
  | ind n ih =>
    subst hn
    by_cases hhead : t.head? = some '['
    · obtain ⟨r, rfl⟩ := List.head?_eq_some_iff.mp hhead
      rw [withReturns_cons (by decide)]
      cases hafter : after? ']' r with
      | none =>
        have hreturns := after?_withReturns (c := ']') (by decide) r
        rw [hafter] at hreturns
        rw [afterLineAttributes_of_none hreturns, afterLineAttributes_of_none hafter,
          withReturns_cons (by decide)]
      | some rest =>
        obtain ⟨before, hbefore, rfl⟩ := after?_eq_some_iff.mp hafter
        have hbefore' : ']' ∉ before.withReturns := by rwa [mem_withReturns (by decide)]
        have hfeed : '\n' ∈ before.withReturns ↔ '\n' ∈ before := mem_withReturns (by decide)
        have hlength : rest.trimStart.length < ('[' :: (before ++ ']' :: rest)).length := by
          have hle := length_trimStart_le rest
          simp only [List.length_cons, List.length_append]
          omega
        rw [withReturns_append, withReturns_cons (by decide), afterLineAttributes_bracket hbefore',
          afterLineAttributes_bracket hbefore, trimStart_withReturns,
          ih _ hlength rest.trimStart rfl]
        by_cases hbreak : '\n' ∈ before
        · rw [if_pos (hfeed.mpr hbreak), if_pos hbreak, withReturns_cons (by decide),
            withReturns_append, withReturns_cons (by decide)]
        · rw [if_neg (mt hfeed.mp hbreak), if_neg hbreak]
    · rw [afterLineAttributes_of_head hhead, afterLineAttributes_of_head]
      rwa [ne_eq, head?_withReturns (by decide)]

private theorem afterTypeModifiers_withReturns (t : Text) :
    t.withReturns.afterTypeModifiers = t.afterTypeModifiers.withReturns := by
  rw [afterTypeModifiers, dropWhile_withReturns rfl, afterLineAttributes_withReturns,
    dropKeywords_withReturns, afterTypeModifiers]

private theorem classHere?_eq (t : Text) :
    classHere? t = nameBehind? "class".toList isWord t.afterTypeModifiers := by
  rw [classHere?, nameBehind?, Option.bind_assoc]
  congr 1
  funext rest
  rw [nameAfterBlanks?]
  cases rest.skipBlanks? with
  | none => rfl
  | some named =>
    rw [Option.bind_some, Option.bind_some]
    cases name? isWord named with
    | none => rfl
    | some found => rfl

private theorem classHere?_withReturns (t : Text) : classHere? t.withReturns = classHere? t := by
  rw [classHere?_eq, classHere?_eq, afterTypeModifiers_withReturns,
    nameBehind?_withReturns (by decide) (by decide) (by decide)]

theorem classAfter?_withReturns (before : Option Char) (t : Text) :
    classAfter? before t.withReturns = classAfter? before t := by
  induction t generalizing before with
  | nil => rfl
  | cons c t ih =>
    have hhere := classHere?_withReturns (c :: t)
    by_cases hc : c = '\n'
    · subst hc
      -- no declaration begins right behind a return
      have hreturn : classAfter? (some '\r') ('\n' :: withReturns t) =
          classAfter? (some '\n') t := by
        rw [classAfter?, if_neg (by decide), ih]
      rw [withReturns_newline] at hhere ⊢
      rw [classAfter?, hhere, hreturn, classAfter?]
    · rw [withReturns_cons hc] at hhere ⊢
      rw [classAfter?, hhere, ih, classAfter?]

theorem className_withReturns (t : Text) : t.withReturns.className = t.className := by
  rw [className, classAfter?_withReturns, className]

end CSharpOutline.Text
