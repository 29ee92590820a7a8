import CSharpOutline.Proofs.Head.Extend
import Mathlib.Data.List.TakeWhile

/-!
# Heads across a run of blanks

Two texts that differ only in how a gap is written have the same head: if the boundary is found in
the one, then it is found in the other, in the same relation to the gap (`boundaryAt?_sides`). The
gap must stand behind the attributes, because an attribute may hold anything.

The parts of the parser are taken in turn, each carrying `Gap.Sides` from what it is given to what
it leaves. A part that comes to the gap stops there, on either side: no type, suffix or name goes
on with a blank, nor with one of the characters in front of which the blanks are dropped. The one
part that could look across is the keyword, which ends with a blank. If dropping the blanks spoils
a keyword, then what follows it is a closing bracket or a comma, and no type starts with these, so
the text with the blanks is refused anyway.
-/

namespace CSharpOutline.Text

private theorem after?_blanks {c : Char} (hc : isBlank c = false) {w : Text}
    (hw : w.allBlank = true) (t : Text) : after? c (w ++ t) = after? c t := by
  induction w with
  | nil => rfl
  | cons d w ih =>
    rw [allBlank_cons, Bool.and_eq_true] at hw
    rw [List.cons_append, after?, if_neg (ne_of_isBlank hw.1 hc), ih hw.2]

theorem after?_append_of_none {c : Char} {t : Text} (h : after? c t = none) (v : Text) :
    after? c (t ++ v) = after? c v := by
  induction t with
  | nil => rfl
  | cons d t ih =>
    rw [after?] at h
    split at h
    · simp at h
    · next hd => rw [List.cons_append, after?, if_neg hd, ih h]

end CSharpOutline.Text

namespace CSharpOutline.Head

open Gap

variable {last : Char} {blanks short rest : Text}

theorem isNamePart_of_mem_tightRight {c : Char} (h : c ∈ tightRight) : isNamePart c = false := by
  simp only [tightRight, List.mem_cons, List.not_mem_nil, or_false] at h
  rcases h with rfl | rfl | rfl <;> decide

/-- The first character on either side of a gap: a blank where the blanks are written, and a space
or one of the characters that draw close where they are not. -/
theorem exists_cons_blanks (g : Gap last blanks short rest) :
    ∃ c t, blanks ++ rest = c :: t ∧ isBlank c = true := by
  obtain ⟨c, w, rfl⟩ := List.exists_cons_of_ne_nil g.ne_nil
  refine ⟨c, w ++ rest, rfl, ?_⟩
  exact Text.allBlank_iff.mp g.allBlank c List.mem_cons_self

theorem exists_cons_short (g : Gap last blanks short rest)
    (h : short = [] → ∃ c t, rest = c :: t ∧ c ∈ tightRight) :
    ∃ c t, short ++ rest = c :: t ∧ (c = ' ' ∨ c ∈ tightRight) := by
  rcases g.short_eq with rfl | rfl
  · exact ⟨' ', rest, rfl, .inl rfl⟩
  · obtain ⟨c, t, rfl, hc⟩ := h rfl
    exact ⟨c, t, rfl, .inr hc⟩

/-- A property of the first character that holds neither of blanks nor of the characters in front
of which blanks are dropped fails on both sides of a gap. -/
theorem head?_any_gap (g : Gap last blanks short rest)
    (h : short = [] → ∃ c t, rest = c :: t ∧ c ∈ tightRight) {p : Char → Bool}
    (hblank : ∀ c, isBlank c = true → p c = false) (htight : tightRight.any p = false) :
    (blanks ++ rest).head?.any p = false ∧ (short ++ rest).head?.any p = false := by
  obtain ⟨c, t, hc, hb⟩ := exists_cons_blanks g
  obtain ⟨d, s, hd, hs⟩ := exists_cons_short g h
  rw [hc, hd]
  refine ⟨by simpa using hblank c hb, ?_⟩
  rcases hs with rfl | hs
  · simpa using hblank ' ' (by decide)
  · simpa using List.any_eq_false.mp htight d hs

/-! ## Suffixes of a type -/

private theorem suffixEnd_of_head {t : Text}
    (h : t.head?.any (['<', '?', '*', '['].contains ·) = false) : suffixEnd t = t := by
  cases t with
  | nil => exact suffixEnd_nil
  | cons c t => exact suffixEnd_other (by simpa using h) t

/-- What is left on either side after some of what stands in front of the gap. If nothing of it is
left, then the character in front of the gap must not draw the rest close. -/
theorem sides_of_suffix (g : Gap last blanks short rest) {u r : Text}
    (hu : u.getLast? = some last) (hr : r <:+ u) (hnil : r = [] → last ∉ tightLeft) :
    Sides last blanks short rest (r ++ (blanks ++ rest)) (r ++ (short ++ rest)) := by
  by_cases hne : r = []
  · subst hne
    exact Sides.of_not_mem g (hnil rfl)
  · exact Sides.of_suffix hu hr hne

theorem suffixEnd_sides (g : Gap last blanks short rest) {a b : Text}
    (h : Sides last blanks short rest a b) :
    Sides last blanks short rest (suffixEnd a) (suffixEnd b) := by
  induction hn : a.length using Nat.strongRecOn generalizing a b with
  | ind n ih =>
    cases h with
    | past r hr => exact .past _ ((suffixEnd_suffix a).trans hr)
    | atGap hshort =>
      obtain ⟨hblanks, hs⟩ := head?_any_gap g hshort (p := (['<', '?', '*', '['].contains ·))
        (fun c hc ↦ by simp [ne_of_isBlank hc (d := '<') (by decide),
          ne_of_isBlank hc (d := '?') (by decide), ne_of_isBlank hc (d := '*') (by decide),
          ne_of_isBlank hc (d := '[') (by decide)]) (by decide)
      rw [suffixEnd_of_head hblanks, suffixEnd_of_head hs]
      exact .atGap hshort
    | before u hu =>
      have hne : u ≠ [] := List.ne_nil_of_mem (List.mem_of_getLast? hu)
      obtain ⟨c, u, rfl⟩ := List.exists_cons_of_ne_nil hne
      rw [List.cons_append] at hn ⊢
      rw [List.cons_append]
      -- the cases are those of the recursion; only a group may take in the gap
      by_cases hangle : c = '<'
      · subst hangle
        rw [suffixEnd_angle, suffixEnd_angle]
        have hlt := Text.length_afterGroup_lt (u ++ (blanks ++ rest)) (.inl rfl)
        exact ih _ (by omega) (Sides.afterGroup g (.before ('<' :: u) hu)) rfl
      · by_cases hmark : c = '?' ∨ c = '*'
        · rw [suffixEnd_mark hmark, suffixEnd_mark hmark]
          refine ih _ (by rw [List.length_cons] at hn; omega) ?_ rfl
          refine sides_of_suffix g hu (List.suffix_cons c u) ?_
          rintro rfl
          obtain rfl : c = last := by simpa using hu
          rcases hmark with rfl | rfl <;> decide
        · by_cases hrank : c = '['
          · subst hrank
            rw [suffixEnd_rank, suffixEnd_rank]
            cases hr : Text.after? ']' u with
            | none =>
              rw [Text.after?_append_of_none hr, Text.after?_append_of_none hr,
                Text.after?_blanks (by decide) g.allBlank,
                Text.after?_blanks (by decide) g.allBlank_short]
              cases hx : Text.after? ']' rest with
              | none => exact .past [] List.nil_suffix
              | some x => exact .past _ ((suffixEnd_suffix x).trans (Text.after?_suffix hx))
            | some r =>
              have hlt := Text.length_lt_of_after? hr
              rw [Text.after?_append hr, Text.after?_append hr]
              simp only [List.length_cons, List.length_append] at hn
              refine ih _ (by rw [List.length_append, List.length_append]; omega) ?_ rfl
              obtain ⟨s, -, rfl⟩ := Text.after?_eq_some_iff.mp hr
              refine sides_of_suffix g hu ⟨'[' :: s ++ [']'], by simp⟩ ?_
              rintro rfl
              rw [← List.cons_append, List.getLast?_append_of_ne_nil _ (by simp)] at hu
              obtain rfl : ']' = last := by simpa using hu
              decide
          · have hc : c ∉ ['<', '?', '*', '['] := by
              simp only [List.mem_cons, List.not_mem_nil, or_false]
              grind
            rw [suffixEnd_other hc, suffixEnd_other hc]
            exact .before (c :: u) hu

/-! ## The name of a type -/

private theorem getLast?_of_afterQualified_eq_nil {t : Text} (h : afterQualified t = []) {c : Char}
    (hc : t.getLast? = some c) : isNamePart c = true ∨ c = ':' := by
  fun_induction afterQualified t with
  | case1 => simp at hc
  | case2 t ih =>
    by_cases ht : t = []
    · subst ht
      exact .inr (by simpa using hc.symm)
    · refine ih h ?_
      have hcons : ':' :: ':' :: t = [':', ':'] ++ t := rfl
      rwa [hcons, List.getLast?_append_of_ne_nil _ ht] at hc
  | case3 d t _ hd ih =>
    by_cases ht : t = []
    · subst ht
      obtain rfl : d = c := by simpa using hc
      exact .inl hd
    · refine ih h ?_
      rwa [← List.singleton_append, List.getLast?_append_of_ne_nil _ ht] at hc
  | case4 => simp at h

theorem not_mem_tightLeft_of_isNamePart {c : Char} (h : isNamePart c = true ∨ c = ':') :
    c ∉ tightLeft := by
  intro hc
  simp only [tightLeft, List.mem_cons, List.not_mem_nil, or_false] at hc
  rcases hc with rfl | rfl | rfl <;> exact absurd h (by decide)

private theorem isNamePart_or_colon_gap (g : Gap last blanks short rest)
    (hlast : last ∉ tightLeft) :
    (blanks ++ rest).head?.any (fun c ↦ isNamePart c || c == ':') = false ∧
      (short ++ rest).head?.any (fun c ↦ isNamePart c || c == ':') = false := by
  refine head?_any_gap g (fun h ↦ (g.tight h).resolve_left hlast) (fun c hc ↦ ?_) (by decide)
  simp [Text.isNamePart_of_isBlank hc, ne_of_isBlank hc (d := ':') (by decide)]

private theorem afterTypeName?_sides (g : Gap last blanks short rest) {a b r : Text}
    (h : Sides last blanks short rest a b) (hr : afterTypeName? a = some r) :
    ∃ s, afterTypeName? b = some s ∧ Sides last blanks short rest r s := by
  cases h with
  | past _ ha => exact ⟨r, hr, .past r ((afterTypeName?_suffix hr).trans ha)⟩
  | atGap hshort =>
    obtain ⟨c, t, hct, hc⟩ := exists_cons_blanks g
    have hhead : (c :: t).head?.any isBlank = true := by simpa using hc
    have hmark : unmarked (c :: t) = c :: t := by
      refine unmarked_of_ne fun r heq ↦ ?_
      exact ne_of_isBlank hc (d := '@') (by decide) (List.cons.inj heq).1
    rw [hct, afterTypeName?_eq, hmark, afterQualified_of_blank hhead,
      if_neg (Nat.lt_irrefl _)] at hr
    exact absurd hr (by simp)
  | before u hu =>
    have hne : u ≠ [] := List.ne_nil_of_mem (List.mem_of_getLast? hu)
    rw [afterTypeName?_eq, unmarked_append hne] at hr ⊢
    by_cases hmark : unmarked u = []
    · obtain ⟨c, t, hct, hc⟩ := exists_cons_blanks g
      rw [hmark, List.nil_append, hct, afterQualified_of_blank (by simpa using hc),
        if_neg (Nat.lt_irrefl _)] at hr
      exact absurd hr (by simp)
    · have hlast : (unmarked u).getLast? = some last := by
        rw [Text.getLast?_of_suffix (unmarked_suffix u) hmark, hu]
      have hsuffix := afterQualified_suffix (unmarked u)
      by_cases hnil : afterQualified (unmarked u) = []
      · have htight := not_mem_tightLeft_of_isNamePart
          (getLast?_of_afterQualified_eq_nil hnil hlast)
        obtain ⟨hblanks, hshort⟩ := isNamePart_or_colon_gap g htight
        have hpos : ∀ t : Text, t.length < (unmarked u ++ t).length := by
          intro t
          have := List.length_pos_of_ne_nil hmark
          rw [List.length_append]
          omega
        rw [afterQualified_append_nil hnil, afterQualified_of_head hblanks, if_pos (hpos _),
          Option.some.injEq] at hr
        rw [afterQualified_append_nil hnil, afterQualified_of_head hshort, if_pos (hpos _)]
        exact ⟨_, rfl, hr ▸ Sides.of_not_mem g htight⟩
      · -- a colon in front of the gap is not doubled across it
        have hcolon : afterQualified (unmarked u) = [':'] →
            (blanks ++ rest).head? ≠ some ':' ∧ (short ++ rest).head? ≠ some ':' := by
          intro heq
          obtain rfl : ':' = last := by
            obtain ⟨p, hp⟩ := hsuffix
            rw [← hp, heq, List.getLast?_append_of_ne_nil p (by simp)] at hlast
            simpa using hlast
          obtain ⟨hblanks, hshort⟩ := isNamePart_or_colon_gap g (by decide)
          refine ⟨fun hhead ↦ ?_, fun hhead ↦ ?_⟩
          · rw [hhead] at hblanks
            exact absurd hblanks (by decide)
          · rw [hhead] at hshort
            exact absurd hshort (by decide)
        rw [afterQualified_append hnil fun heq ↦ (hcolon heq).1] at hr
        rw [afterQualified_append hnil fun heq ↦ (hcolon heq).2]
        simp only [List.length_append, Nat.add_lt_add_iff_right] at hr ⊢
        split at hr
        · next hlt =>
          rw [if_pos hlt]
          refine ⟨_, rfl, Option.some.inj hr ▸ Sides.of_suffix hlast hsuffix hnil⟩
        · simp at hr

/-! ## The name -/

private theorem parametersEnd_of_head {t : Text} (h : t.head?.any (· == '<') = false) :
    parametersEnd t = t := by
  rw [parametersEnd, if_neg]
  intro hhead
  rw [hhead] at h
  exact absurd h (by decide)

private theorem parametersEnd_sides (g : Gap last blanks short rest) {a b : Text}
    (h : Sides last blanks short rest a b) :
    Sides last blanks short rest (parametersEnd a) (parametersEnd b) := by
  cases h with
  | past r hr => exact .past _ ((parametersEnd_suffix a).trans hr)
  | atGap hshort =>
    obtain ⟨hblanks, hs⟩ := head?_any_gap g hshort (p := (· == '<'))
      (fun c hc ↦ by simpa using ne_of_isBlank hc (by decide)) (by decide)
    rw [parametersEnd_of_head hblanks, parametersEnd_of_head hs]
    exact .atGap hshort
  | before u hu =>
    have hne : u ≠ [] := List.ne_nil_of_mem (List.mem_of_getLast? hu)
    rw [parametersEnd, parametersEnd, List.head?_append_of_ne_nil u hne,
      List.head?_append_of_ne_nil u hne]
    split
    · exact Sides.afterGroup g (.before u hu)
    · exact .before u hu

private theorem nameRest_sides (g : Gap last blanks short rest) {u : Text}
    (hu : u.getLast? = some last) :
    Sides last blanks short rest ((u ++ (blanks ++ rest)).dropWhile isNamePart)
      ((u ++ (short ++ rest)).dropWhile isNamePart) := by
  by_cases hnil : u.dropWhile isNamePart = []
  · -- the name reaches as far as the gap
    have hall := List.dropWhile_eq_nil_iff.mp hnil
    have hlast : last ∉ tightLeft :=
      not_mem_tightLeft_of_isNamePart (.inl (hall last (List.mem_of_getLast? hu)))
    obtain ⟨hblanks, hshort⟩ := head?_any_gap g (fun h ↦ (g.tight h).resolve_left hlast)
      (fun c hc ↦ Text.isNamePart_of_isBlank hc) (by decide)
    rw [List.dropWhile_append_of_pos hall, List.dropWhile_append_of_pos hall,
      Text.dropWhile_of_head hblanks, Text.dropWhile_of_head hshort]
    exact Sides.of_not_mem g hlast
  · have hstop : ∀ t, (u ++ t).dropWhile isNamePart = u.dropWhile isNamePart ++ t := by
      intro t
      rw [List.dropWhile_append, if_neg (by simpa using hnil)]
    rw [hstop, hstop]
    exact Sides.of_suffix hu (List.dropWhile_suffix _) hnil

theorem nameEnd?_sides (g : Gap last blanks short rest) {isTuple : Bool} {a b r : Text}
    (h : Sides last blanks short rest a b) (hr : nameEnd? isTuple a = some r) :
    ∃ s, nameEnd? isTuple b = some s ∧ Sides last blanks short rest r s := by
  cases h with
  | past _ ha => exact ⟨r, hr, .past r ((nameEnd?_suffix hr).trans ha)⟩
  | atGap hshort =>
    have hsuffix := nameEnd?_suffix_trimStart hr
    rw [g.trimStart_blanks] at hsuffix
    refine ⟨r, ?_, .past r hsuffix⟩
    obtain ⟨d, s, hds, hd⟩ := exists_cons_blanks g
    rw [nameEnd?, g.trimStart_blanks, hds] at hr
    rw [nameEnd?, g.trimStart_short]
    rcases g.short_eq with rfl | rfl
    · rw [← hr]
      simp [hd, show isBlank ' ' = true by decide]
    · -- what draws close is neither a parameter list nor a name
      obtain ⟨c, t, rfl, hc⟩ := hshort rfl
      have hparen : c ≠ '(' := by
        rintro rfl
        exact absurd hc (by decide)
      have hmark : unmarked (c :: t) = c :: t := by
        refine unmarked_of_ne fun r heq ↦ ?_
        obtain ⟨rfl, -⟩ := List.cons.inj heq
        exact absurd hc (by decide)
      rw [hmark] at hr
      simp [hparen, isNamePart_of_mem_tightRight hc] at hr
  | before u hu =>
    have hne : u ≠ [] := List.ne_nil_of_mem (List.mem_of_getLast? hu)
    have hvisible := g.trimStart_ne_nil hu
    rw [nameEnd?, Text.trimStart_append_of_ne_nil hvisible, List.head?_append_of_ne_nil u hne] at hr
    rw [nameEnd?, Text.trimStart_append_of_ne_nil hvisible, List.head?_append_of_ne_nil u hne]
    have hlast : (Text.trimStart u).getLast? = some last := by
      rw [Text.getLast?_of_suffix (Text.trimStart_suffix u) hvisible, hu]
    generalize Text.trimStart u = w at hr hvisible hlast
    -- what is read next is decided by the first character, which stands in front of the gap
    have hempty : ∀ t : Text, ¬List.isEmpty (w ++ t) = true := by simp [hvisible]
    rw [if_neg (hempty _), List.head?_append_of_ne_nil w hvisible] at hr
    rw [if_neg (hempty _), List.head?_append_of_ne_nil w hvisible]
    split at hr
    · next hparen =>
      rw [if_pos hparen]
      exact ⟨_, rfl, Option.some.inj hr ▸ .before w hlast⟩
    · next hparen =>
      rw [if_neg hparen]
      rw [unmarked_append hvisible] at hr ⊢
      by_cases hmark : unmarked w = []
      · obtain ⟨c, t, hct, hc⟩ := exists_cons_blanks g
        rw [hmark, List.nil_append, hct] at hr
        simp [Text.isNamePart_of_isBlank hc] at hr
      · have hlast' : (unmarked w).getLast? = some last := by
          rw [Text.getLast?_of_suffix (unmarked_suffix w) hmark, hlast]
        rw [List.head?_append_of_ne_nil _ hmark] at hr
        rw [List.head?_append_of_ne_nil _ hmark]
        split at hr
        · next hname =>
          rw [if_pos hname]
          refine ⟨_, rfl, Option.some.inj hr ▸ ?_⟩
          exact (parametersEnd_sides g (nameRest_sides g hlast')).trimStart g
        · simp at hr

/-! ## The type and the name

The parts carry `Gap.Sides` from one to the next. Where a part stops at the gap, the next one starts
there on both sides. -/

private theorem typeAndName_sides (g : Gap last blanks short rest) {a b r : Text}
    (h : Sides last blanks short rest a b)
    (hr : ((afterTypeName? a).bind fun t ↦ nameEnd? false (suffixEnd t)) = some r) :
    ∃ s, ((afterTypeName? b).bind fun t ↦ nameEnd? false (suffixEnd t)) = some s ∧
      Sides last blanks short rest r s := by
  obtain ⟨m, hm, hr⟩ := Option.bind_eq_some_iff.mp hr
  obtain ⟨m', hm', hsides⟩ := afterTypeName?_sides g h hm
  rw [hm', Option.bind_some]
  exact nameEnd?_sides g (suffixEnd_sides g hsides) hr

private theorem typedEnd?_sides (g : Gap last blanks short rest) {a b r : Text}
    (h : Sides last blanks short rest a b) (hr : typedEnd? a = some r) :
    ∃ s, typedEnd? b = some s ∧ Sides last blanks short rest r s := by
  cases h with
  | past _ ha => exact ⟨r, hr, .past r ((typedEnd?_suffix hr).trans ha)⟩
  | atGap hshort =>
    obtain ⟨c, t, hct, hc⟩ := exists_cons_blanks g
    obtain ⟨d, s, hds, hd⟩ := exists_cons_short g hshort
    have hd' : d ≠ '(' := by
      rintro rfl
      exact absurd hd (by decide)
    rw [hct, typedEnd?_cons (ne_of_isBlank hc (by decide)), ← hct] at hr
    rw [hds, typedEnd?_cons hd', ← hds]
    exact typeAndName_sides g (.atGap hshort) hr
  | before u hu =>
    have hne : u ≠ [] := List.ne_nil_of_mem (List.mem_of_getLast? hu)
    obtain ⟨c, u, rfl⟩ := List.exists_cons_of_ne_nil hne
    rw [List.cons_append] at hr ⊢
    by_cases hc : c = '('
    · subst hc
      rw [typedEnd?_paren] at hr ⊢
      exact nameEnd?_sides g (suffixEnd_sides g (Sides.afterGroup g (.before ('(' :: u) hu))) hr
    · rw [typedEnd?_cons hc] at hr ⊢
      exact typeAndName_sides g (.before (c :: u) hu) hr

/-! ## Keywords and attributes

A keyword ends with a blank, so it stands in front of the gap or ends at it. One that ends at the
gap does so on both sides, unless nothing is declared behind it, and dropping the blanks makes no
keyword. -/

theorem not_mem_keyword_of_tight {k : Text} (hk : k ∈ memberModifiers) {c : Char}
    (hc : c ∈ tightLeft ∨ c ∈ tightRight) : c ∉ k := by
  have hword : (tightLeft ++ tightRight).any isWord = false := by decide
  intro hmem
  exact List.any_eq_false.mp hword c (List.mem_append.mpr hc) (isWord_of_mem_keyword hk hmem)

/-- A keyword is followed by a blank, so it starts in front of one. -/
theorem afterKeyword?_of_head {t : Text} (h : t.head?.any isWord = false) :
    Text.afterKeyword? memberModifiers t = none := by
  have hne : ∀ k ∈ memberModifiers, k ≠ [] := by decide
  rw [Option.eq_none_iff_forall_not_mem]
  intro r hr
  obtain ⟨k, b, s, hk, -, -, rfl, -⟩ := Text.afterKeyword?_eq_some_iff.mp hr
  obtain ⟨c, k, rfl⟩ := List.exists_cons_of_ne_nil (hne k hk)
  simp [isWord_of_mem_keyword hk List.mem_cons_self] at h

theorem declaredEnd?_cons_eq_none {c : Char} (hname : isNamePart c = false)
    (hc : c ∉ ['(', '@', ':']) (t : Text) : declaredEnd? (c :: t) = none := by
  simp only [List.mem_cons, List.not_mem_nil, or_false, not_or] at hc
  obtain ⟨hparen, hmark, hcolon⟩ := hc
  have hword : isWord c = false := by
    rw [isNamePart, Bool.or_eq_false_iff] at hname
    exact hname.1
  have hunmarked : unmarked (c :: t) = c :: t :=
    unmarked_of_ne fun r heq ↦ hmark (List.cons.inj heq).1
  rw [declaredEnd?_of_none (afterKeyword?_of_head (by simpa using hword)), typedEnd?_cons hparen,
    afterTypeName?_eq, hunmarked, afterQualified_of_head (by simp [hname, hcolon]),
    if_neg (Nat.lt_irrefl _), Option.bind_none]

private theorem declaredEnd?_of_mem_tightRight {c : Char} (hc : c ∈ tightRight) (t : Text) :
    declaredEnd? (c :: t) = none := by
  have hother : tightRight.any (['(', '@', ':'].contains ·) = false := by decide
  refine declaredEnd?_cons_eq_none (isNamePart_of_mem_tightRight hc) ?_ t
  simpa using List.any_eq_false.mp hother c hc

/-- A keyword that ends at the gap ends there on both sides, unless nothing is declared after
it. -/
theorem declaredEnd?_keyword_gap (g : Gap last blanks short rest) {k r : Text}
    (hk : k ∈ memberModifiers) (hlast : k.getLast? = some last)
    (hr : declaredEnd? (k ++ (blanks ++ rest)) = some r) :
    declaredEnd? (k ++ (short ++ rest)) = some r ∧ declaredEnd? rest = some r := by
  have hblank : ∀ c ∈ k, isBlank c = false := by
    intro c hc
    have hword := isWord_of_mem_keyword hk hc
    rw [← Bool.not_eq_true]
    intro hb
    have hname := Text.isNamePart_of_isBlank hb
    simp [isNamePart, hword] at hname
  have hkeyword : ∀ w : Text, w ≠ [] → w.allBlank = true →
      declaredEnd? (k ++ (w ++ rest)) = declaredEnd? rest := by
    intro w hw hb
    obtain ⟨b, w, rfl⟩ := List.exists_cons_of_ne_nil hw
    rw [Text.allBlank_cons, Bool.and_eq_true] at hb
    have hafter := Text.afterKeyword?_eq_some_iff.mpr
      ⟨k, b, w ++ rest, hk, hblank, hb.1, rfl, rfl⟩
    obtain ⟨c, t, rfl, hc⟩ := g.rest_visible
    rw [Text.trimStart_allBlank_append hb.2, Text.trimStart_cons hc] at hafter
    exact declaredEnd?_of_keyword hafter
  rw [hkeyword blanks g.ne_nil g.allBlank] at hr
  refine ⟨?_, hr⟩
  rcases g.short_eq with rfl | rfl
  · rw [hkeyword [' '] (by simp) (by decide), hr]
  · rcases g.tight rfl with hleft | ⟨c, t, rfl, hc⟩
    · exact absurd (List.mem_of_getLast? hlast) (not_mem_keyword_of_tight hk (.inl hleft))
    · rw [declaredEnd?_of_mem_tightRight hc] at hr
      exact absurd hr (by simp)

/-- A keyword in front of the gap: it ends with a blank in front of the gap, or at the gap. -/
theorem afterKeyword?_before (g : Gap last blanks short rest) {u r : Text}
    (hu : u.getLast? = some last)
    (h : Text.afterKeyword? memberModifiers (u ++ (blanks ++ rest)) = some r) :
    (u ∈ memberModifiers) ∨
      ∃ k b m, k ∈ memberModifiers ∧ (∀ c ∈ k, isBlank c = false) ∧ isBlank b = true ∧
        u = k ++ b :: m ∧ m ≠ [] := by
  obtain ⟨k, b, s, hk, hblank, hb, heq, -⟩ := Text.afterKeyword?_eq_some_iff.mp h
  rcases List.append_eq_append_iff.mp heq with ⟨m, hm, hgap⟩ | ⟨m, hm, hgap⟩
  · obtain ⟨c, t, hct, hc⟩ := exists_cons_blanks g
    cases m with
    | nil =>
      rw [List.append_nil] at hm
      exact .inl (hm ▸ hk)
    | cons d m =>
      rw [hct] at hgap
      obtain ⟨rfl, -⟩ := List.cons.inj hgap
      have hfalse := hblank c (by rw [hm]; simp)
      rw [hc] at hfalse
      exact absurd hfalse (by decide)
  · cases m with
    | nil =>
      rw [List.append_nil] at hm
      exact .inl (hm ▸ hk)
    | cons d m =>
      obtain ⟨rfl, -⟩ := List.cons.inj hgap
      refine .inr ⟨k, b, m, hk, hblank, hb, hm, ?_⟩
      rintro rfl
      -- the character in front of the gap is not blank
      rw [hm, List.getLast?_append_of_ne_nil k (by simp)] at hu
      obtain rfl : b = last := by simpa using hu
      rw [g.last_visible] at hb
      exact absurd hb (by decide)

private theorem afterKeyword?_short_eq_none (g : Gap last blanks short rest) {u : Text}
    (hu : u.getLast? = some last)
    (h : Text.afterKeyword? memberModifiers (u ++ (blanks ++ rest)) = none) :
    Text.afterKeyword? memberModifiers (u ++ (short ++ rest)) = none := by
  rw [Option.eq_none_iff_forall_not_mem]
  intro r hr
  have hnone : ∀ k b m, k ∈ memberModifiers → (∀ c ∈ k, isBlank c = false) →
      isBlank b = true → u ++ (blanks ++ rest) ≠ k ++ b :: m := by
    intro k b m hk hblank hb heq
    rw [Text.afterKeyword?_eq_some_iff.mpr ⟨k, b, m, hk, hblank, hb, heq, rfl⟩] at h
    exact absurd h (by simp)
  obtain ⟨k, b, s, hk, hblank, hb, heq, -⟩ := Text.afterKeyword?_eq_some_iff.mp hr
  rcases List.append_eq_append_iff.mp heq with ⟨m, rfl, hgap⟩ | ⟨m, rfl, hgap⟩
  · -- the keyword would reach over the gap
    have hnil : m ≠ [] := by
      rintro rfl
      rw [List.append_nil] at hk hblank
      obtain ⟨c, t, hct, hc⟩ := exists_cons_blanks g
      exact hnone u c t hk hblank hc (by rw [hct])
    obtain ⟨d, m, rfl⟩ := List.exists_cons_of_ne_nil hnil
    have hmem : last ∈ u ++ d :: m := List.mem_append_left _ (List.mem_of_getLast? hu)
    have htight : short = [] → ∃ c t, rest = c :: t ∧ c ∈ tightRight := fun hs ↦
      (g.tight hs).resolve_left fun hl ↦ not_mem_keyword_of_tight hk (.inl hl) hmem
    obtain ⟨c, t, hct, hc⟩ := exists_cons_short g htight
    rw [hct] at hgap
    obtain ⟨rfl, -⟩ := List.cons.inj hgap
    rcases hc with rfl | hc
    · exact absurd (hblank ' ' (by simp)) (by decide)
    · exact not_mem_keyword_of_tight hk (.inr hc) (by simp)
  · cases m with
    | nil =>
      obtain ⟨c, t, hct, hc⟩ := exists_cons_blanks g
      exact hnone k c t hk hblank hc (by rw [List.append_nil, hct])
    | cons d m =>
      obtain ⟨rfl, -⟩ := List.cons.inj hgap
      exact hnone k b (m ++ (blanks ++ rest)) hk hblank hb (by simp)

private theorem declaredEnd?_sides (g : Gap last blanks short rest) {a b r : Text}
    (h : Sides last blanks short rest a b) (hr : declaredEnd? a = some r) :
    ∃ s, declaredEnd? b = some s ∧ Sides last blanks short rest r s := by
  induction hn : a.length using Nat.strongRecOn generalizing a b with
  | ind n ih =>
    cases h with
    | past _ ha => exact ⟨r, hr, .past r ((declaredEnd?_suffix hr).trans ha)⟩
    | atGap hshort =>
      obtain ⟨hblanks, hs⟩ := head?_any_gap g hshort (p := isWord)
        (fun c hc ↦ by have := Text.isNamePart_of_isBlank hc; simp_all [isNamePart]) (by decide)
      rw [declaredEnd?_of_none (afterKeyword?_of_head hblanks)] at hr
      rw [declaredEnd?_of_none (afterKeyword?_of_head hs)]
      exact typedEnd?_sides g (.atGap hshort) hr
    | before u hu =>
      cases hk : Text.afterKeyword? memberModifiers (u ++ (blanks ++ rest)) with
      | none =>
        rw [declaredEnd?_of_none hk] at hr
        rw [declaredEnd?_of_none (afterKeyword?_short_eq_none g hu hk)]
        exact typedEnd?_sides g (.before u hu) hr
      | some t =>
        rcases afterKeyword?_before g hu hk with hmem | ⟨k, b, m, hmem, hblank, hb, rfl, hne⟩
        · -- the gap ends the keyword, and what is declared stands behind it
          obtain ⟨hs, hrest⟩ := declaredEnd?_keyword_gap g hmem hu hr
          exact ⟨r, hs, .past r (declaredEnd?_suffix hrest)⟩
        · have hkeyword : ∀ t, Text.afterKeyword? memberModifiers (k ++ b :: m ++ t) =
              some (Text.trimStart (m ++ t)) := fun t ↦
            Text.afterKeyword?_eq_some_iff.mpr ⟨k, b, m ++ t, hmem, hblank, hb, by simp, rfl⟩
          have hlt := Text.length_lt_of_afterKeyword? (hkeyword (blanks ++ rest))
          rw [declaredEnd?_of_keyword (hkeyword _)] at hr ⊢
          have hsides : Sides last blanks short rest (m ++ (blanks ++ rest))
              (m ++ (short ++ rest)) := Sides.of_suffix hu ⟨k ++ [b], by simp⟩ hne
          exact ih _ (by omega) (hsides.trimStart g) hr rfl

private theorem afterAttributes?_append_of_nil {u : Text} (hu : u ≠ [])
    (h : afterAttributes? u = some []) (v : Text) :
    afterAttributes? (u ++ v) = afterAttributes? v.trimStart := by
  induction hn : u.length using Nat.strongRecOn generalizing u with
  | ind n ih =>
    obtain ⟨c, u, rfl⟩ := List.exists_cons_of_ne_nil hu
    by_cases hc : c = '['
    · subst hc
      rw [afterAttributes?_bracket] at h
      obtain ⟨t, ht, h⟩ := Option.bind_eq_some_iff.mp h
      rw [List.cons_append, afterAttributes?_bracket, Text.after?_append ht, Option.bind_some]
      by_cases hnil : t.trimStart = []
      · rw [Text.trimStart_allBlank_append (Text.trimStart_eq_nil_iff.mp hnil)]
      · have hlt := Text.length_lt_of_after? ht
        have hle := Text.length_trimStart_le t
        rw [List.length_cons] at hn
        rw [Text.trimStart_append_of_ne_nil hnil]
        exact ih _ (by omega) hnil h rfl
    · rw [afterAttributes?_cons_of_ne hc] at h
      exact absurd h (by simp)

/-- A gap behind the attributes of a text does not change its head. -/
theorem boundaryAt?_sides (g : Gap last blanks short rest) {u r : Text}
    (hu : u.getLast? = some last) (hclosed : (afterAttributes? u.trimStart).isSome)
    (hr : boundaryAt? (u ++ (blanks ++ rest)) = some r) :
    ∃ s, boundaryAt? (u ++ (short ++ rest)) = some s ∧ Sides last blanks short rest r s := by
  have hvisible := g.trimStart_ne_nil hu
  rw [boundaryAt?, Text.trimStart_append_of_ne_nil hvisible] at hr ⊢
  obtain ⟨d, hd⟩ := Option.isSome_iff_exists.mp hclosed
  by_cases hnil : d = []
  · -- nothing but attributes stands in front of the gap
    subst hnil
    rw [afterAttributes?_append_of_nil hvisible hd, g.trimStart_blanks] at hr
    rw [afterAttributes?_append_of_nil hvisible hd, g.trimStart_short]
    obtain ⟨t, ht, hsuffix⟩ := Option.bind_eq_some_iff.mp hr
    exact ⟨r, hr, .past r ((declaredEnd?_suffix hsuffix).trans (afterAttributes?_suffix ht))⟩
  · rw [(afterAttributes?_continues _ _).1 d hd hnil, Option.bind_some] at hr ⊢
    have hsuffix := (afterAttributes?_suffix hd).trans (Text.trimStart_suffix u)
    exact declaredEnd?_sides g (Sides.of_suffix hu hsuffix hnil) hr

end CSharpOutline.Head
