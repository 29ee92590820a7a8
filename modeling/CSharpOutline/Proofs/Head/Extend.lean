import CSharpOutline.Proofs.Head.Bound

/-!
# Reading on

A declaration arrives line by line, and its head is read anew after each line. What the head shows
does not change when more is read: once the boundary is reached it stays where it is, and if the
text ended too early, then the boundary lies in what is added. This has the same form for every
part of the parser, `Continues`, and the form is preserved when one part hands its rest on to the
next (`Continues.bind`), so it is proved part by part.

A text that declares no member still declares none when more is read
(`boundaryAt?_append_eq_none`), with two exceptions. The marks `@` and `:` take in what directly
follows them, so what is refused at the end of such a text may be part of something longer; `Apart`
says that this does not happen. And an attribute that is not closed is refused, and may be closed
later.
-/

namespace CSharpOutline.Text

/-! ## Readers of texts -/

theorem after?_append {c : Char} {t r : Text} (h : after? c t = some r) (v : Text) :
    after? c (t ++ v) = some (r ++ v) := by
  obtain ⟨before, hmem, rfl⟩ := after?_eq_some_iff.mp h
  exact after?_eq_some_iff.mpr ⟨before, hmem, by simp⟩

private theorem after?_append_suffix {c : Char} {t : Text} (h : after? c t = none) {v x : Text}
    (hx : after? c (t ++ v) = some x) : x <:+ v := by
  induction t with
  | nil => exact after?_suffix hx
  | cons d t ih =>
    rw [after?] at h
    rw [List.cons_append, after?] at hx
    split at h
    · simp at h
    · next hd =>
      rw [if_neg hd] at hx
      exact ih h hx

theorem afterKeyword?_eq_some_iff {keywords : List Text} {t rest : Text} :
    afterKeyword? keywords t = some rest ↔
      ∃ k b r, k ∈ keywords ∧ (∀ c ∈ k, isBlank c = false) ∧ isBlank b = true ∧
        t = k ++ b :: r ∧ rest = trimStart r := by
  rw [afterKeyword?]
  constructor
  · intro h
    split at h
    · next hk =>
      have ht := List.takeWhile_append_dropWhile (p := fun c ↦ !isBlank c) (l := t)
      cases hr : t.dropWhile fun c ↦ !isBlank c with
      | nil => simp [hr, skipBlanks?] at h
      | cons b r =>
        rw [hr] at h ht
        rw [skipBlanks?] at h
        split at h
        · next hb =>
          refine ⟨_, b, r, List.contains_iff_mem.mp hk, fun c hc ↦ ?_, hb, ht.symm,
            (Option.some.inj h).symm⟩
          simpa using List.all_eq_true.mp List.all_takeWhile c hc
        · simp at h
    · simp at h
  · rintro ⟨k, b, r, hk, hblank, hb, rfl, rfl⟩
    have hall : ∀ c ∈ k, (!isBlank c) = true := fun c hc ↦ by rw [hblank c hc]; rfl
    rw [List.takeWhile_append_of_pos hall, List.dropWhile_append_of_pos hall,
      List.takeWhile_cons_of_neg (by simp [hb]), List.dropWhile_cons_of_neg (by simp [hb]),
      List.append_nil, if_pos (List.contains_iff_mem.mpr hk), skipBlanks?, if_pos hb]

theorem afterKeyword?_append {keywords : List Text} {u rest : Text}
    (h : afterKeyword? keywords u = some rest) (v : Text) :
    ∃ r, rest = trimStart r ∧
      afterKeyword? keywords (u ++ v) = some (trimStart (r ++ v)) := by
  obtain ⟨k, b, r, hk, hblank, hb, rfl, rfl⟩ := afterKeyword?_eq_some_iff.mp h
  exact ⟨r, rfl, afterKeyword?_eq_some_iff.mpr ⟨k, b, r ++ v, hk, hblank, hb, by simp, rfl⟩⟩

/-- A keyword that is complete only with what follows `u`: then `u` is the start of it. -/
theorem afterKeyword?_append_of_none {keywords : List Text} {u v rest : Text}
    (h : afterKeyword? keywords u = none)
    (hv : afterKeyword? keywords (u ++ v) = some rest) :
    ∃ k ∈ keywords, u <+: k ∧ rest <:+ v := by
  obtain ⟨k, b, r, hk, hblank, hb, heq, rfl⟩ := afterKeyword?_eq_some_iff.mp hv
  rcases List.append_eq_append_iff.mp heq with ⟨m, hm, hv'⟩ | ⟨m, hm, hr⟩
  · refine ⟨k, hk, ⟨m, hm.symm⟩, (trimStart_suffix r).trans ?_⟩
    exact ⟨m ++ [b], by simp [hv']⟩
  · cases m with
    | nil =>
      refine ⟨k, hk, ⟨[], by simpa using hm⟩, (trimStart_suffix r).trans ?_⟩
      exact ⟨[b], by simpa using hr⟩
    | cons d m =>
      -- the blank that ends the keyword stands in `u`
      obtain ⟨rfl, rfl⟩ := List.cons.inj hr
      have hu := afterKeyword?_eq_some_iff.mpr ⟨k, b, m, hk, hblank, hb, hm, rfl⟩
      rw [h] at hu
      exact absurd hu (by simp)

end CSharpOutline.Text

namespace CSharpOutline.Head

/-- How a part of the parser goes on when `v` is added to `u`: a rest that it has left stays, with
`v` behind it, and if it came to the end, then what it leaves is part of `v`. -/
def Continues (f : Text → Option Text) (u v : Text) : Prop :=
  (∀ r, f u = some r → r ≠ [] → f (u ++ v) = some (r ++ v)) ∧
    (f u = some [] → ∀ x, f (u ++ v) = some x → x <:+ v)

theorem Continues.bind {f g : Text → Option Text} {u v : Text} (hf : Continues f u v)
    (hg : ∀ r, f u = some r → r ≠ [] → Continues g r v) (hnil : g [] = some [])
    (hsuffix : ∀ {x y}, g x = some y → y <:+ x) :
    Continues (fun t ↦ (f t).bind g) u v := by
  constructor
  · intro r hr hne
    obtain ⟨m, hm, hr⟩ := Option.bind_eq_some_iff.mp hr
    have hm' : m ≠ [] := by
      rintro rfl
      rw [hnil] at hr
      exact hne (Option.some.inj hr).symm
    show (f (u ++ v)).bind g = some (r ++ v)
    rw [hf.1 m hm hm', Option.bind_some]
    exact (hg m hm hm').1 r hr hne
  · intro hr x hx
    obtain ⟨m, hm, hr⟩ := Option.bind_eq_some_iff.mp hr
    obtain ⟨y, hy, hx⟩ := Option.bind_eq_some_iff.mp hx
    -- where the first part came to the end, the second one starts inside `v`
    by_cases hm' : m = []
    · subst hm'
      exact (hsuffix hx).trans (hf.2 hm y hy)
    · rw [hf.1 m hm hm', Option.some.injEq] at hy
      subst hy
      exact (hg m hm hm').2 hr x hx

theorem Continues.bind_eq_none {f g : Text → Option Text} {u v : Text} (hf : Continues f u v)
    (hnone : f u = none → f (u ++ v) = none)
    (hg : ∀ r, f u = some r → r ≠ [] → g r = none → g (r ++ v) = none)
    (hnil : g [] = some []) (h : (f u).bind g = none) : (f (u ++ v)).bind g = none := by
  cases hm : f u with
  | none => rw [hnone hm, Option.bind_none]
  | some m =>
    rw [hm, Option.bind_some] at h
    have hm' : m ≠ [] := by
      rintro rfl
      rw [hnil] at h
      exact absurd h (by simp)
    rw [hf.1 m hm hm', Option.bind_some]
    exact hg m hm hm' h

/-- Nothing at the end of `u` is completed by what directly follows it in `v`: no name stands behind
the mark `@`, and no colon behind a colon. -/
structure Apart (u v : Text) : Prop where
  mark : u.getLast? = some '@' → v.head?.any (fun c ↦ isNamePart c || c == ':') = false
  colon : u.getLast? = some ':' → v.head? ≠ some ':'

theorem Apart.of_getLast? {u : Text} (hmark : u.getLast? ≠ some '@')
    (hcolon : u.getLast? ≠ some ':') (v : Text) : Apart u v :=
  ⟨fun h ↦ absurd h hmark, fun h ↦ absurd h hcolon⟩

theorem Apart.of_isBlank {v : Text} (hv : v.head?.any isBlank = true) (u : Text) : Apart u v := by
  rcases v with - | ⟨d, v⟩
  · simp at hv
  · have hblank : isBlank d = true := by simpa using hv
    have hcolon : d ≠ ':' := ne_of_isBlank hblank (by decide)
    exact ⟨fun _ ↦ by simp [Text.isNamePart_of_isBlank hblank, hcolon],
      fun _ ↦ by simpa using hcolon⟩

theorem Apart.of_suffix {u v r : Text} (h : Apart u v) (hr : r <:+ u) (hne : r ≠ []) :
    Apart r v := by
  have hlast := Text.getLast?_of_suffix hr hne
  exact ⟨fun hmark ↦ h.mark (hlast ▸ hmark), fun hcolon ↦ h.colon (hlast ▸ hcolon)⟩

/-! ## The type -/

theorem afterQualified_append_nil {u : Text} (h : afterQualified u = []) (v : Text) :
    afterQualified (u ++ v) = afterQualified v := by
  fun_induction afterQualified u with
  | case1 => rfl
  | case2 t ih => rw [List.cons_append, List.cons_append, afterQualified, ih h]
  | case3 c t hcolon hc ih =>
    have hne : ¬c = ':' := by
      rintro rfl
      exact absurd hc (by decide)
    rw [List.cons_append, afterQualified, if_pos hc, ih h]
    simp [hne]
  | case4 => simp at h

theorem afterQualified_append {u : Text} (hne : afterQualified u ≠ []) {v : Text}
    (hmark : afterQualified u = [':'] → v.head? ≠ some ':') :
    afterQualified (u ++ v) = afterQualified u ++ v := by
  fun_induction afterQualified u with
  | case1 => exact absurd rfl hne
  | case2 t ih => rw [List.cons_append, List.cons_append, afterQualified, ih hne hmark]
  | case3 c t hcolon hc ih =>
    have hne' : ¬c = ':' := by
      rintro rfl
      exact absurd hc (by decide)
    rw [List.cons_append, afterQualified, if_pos hc, ih hne hmark]
    simp [hne']
  | case4 c t hcolon hc =>
    rw [List.cons_append, afterQualified, if_neg hc]
    -- a colon goes on only with a second one, which would have to come from `v`
    rintro r rfl hr
    cases t with
    | nil => exact hmark rfl (by rw [List.nil_append] at hr; rw [hr]; rfl)
    | cons d t =>
      obtain ⟨rfl, -⟩ := List.cons.inj hr
      exact hcolon t rfl rfl

/-- Only the mark `@` alone leaves nothing. -/
theorem eq_mark_of_unmarked {u : Text} (hu : u ≠ []) (h : unmarked u = []) : u = ['@'] := by
  unfold unmarked at h
  split at h
  · rw [h]
  · exact absurd h hu

private theorem any_isNamePart_eq_false {v : Text}
    (h : v.head?.any (fun c ↦ isNamePart c || c == ':') = false) :
    v.head?.any isNamePart = false := by
  rcases v with - | ⟨c, v⟩
  · rfl
  · exact (Bool.or_eq_false_iff.mp h).1

theorem unmarked_append {u : Text} (h : u ≠ []) (v : Text) :
    unmarked (u ++ v) = unmarked u ++ v := by
  obtain ⟨c, u, rfl⟩ := List.exists_cons_of_ne_nil h
  by_cases hc : c = '@'
  · subst hc
    rfl
  · rw [unmarked_of_ne (by simpa using hc), unmarked_of_ne (by simpa using hc)]

theorem afterTypeName?_continues {u : Text} (hu : u ≠ []) {v : Text}
    (hmark : afterTypeName? u = some [':'] → v.head? ≠ some ':') :
    Continues afterTypeName? u v := by
  rw [Continues, afterTypeName?_eq, afterTypeName?_eq, unmarked_append hu]
  split
  · next hlt =>
    rw [afterTypeName?_eq, if_pos hlt] at hmark
    constructor
    · intro r hr hne
      rw [Option.some.injEq] at hr
      subst hr
      rw [afterQualified_append hne fun h ↦ hmark (by rw [h]), if_pos]
      simpa using hlt
    · intro hnil x hx
      rw [afterQualified_append_nil (Option.some.inj hnil)] at hx
      split at hx
      · rw [← Option.some.inj hx]
        exact afterQualified_suffix v
      · simp at hx
  · exact ⟨by simp, by simp⟩

/-- A part that always leaves something goes on if what it leaves does. -/
theorem Continues.of_forall {f : Text → Text} {u v : Text}
    (hne : f u ≠ [] → f (u ++ v) = f u ++ v) (hnil : f u = [] → f (u ++ v) <:+ v) :
    Continues (fun t ↦ some (f t)) u v := by
  constructor
  · intro r hr hr'
    obtain rfl : f u = r := Option.some.inj hr
    exact congrArg some (hne hr')
  · intro h x hx
    rw [← Option.some.inj hx]
    exact hnil (Option.some.inj h)

theorem trimStart_continues (u v : Text) :
    Continues (fun t ↦ some (Text.trimStart t)) u v := by
  refine .of_forall (fun h ↦ Text.trimStart_append_of_ne_nil h v) fun h ↦ ?_
  rw [Text.trimStart_allBlank_append (Text.trimStart_eq_nil_iff.mp h)]
  exact Text.trimStart_suffix v

theorem afterGroup_continues (u v : Text) :
    Continues (fun t ↦ some (Text.afterGroup t)) u v :=
  .of_forall (fun h ↦ Text.afterGroup_append_of_ne_nil h v)
    fun h ↦ Text.afterGroup_append_suffix h v

theorem dropWhile_continues (p : Char → Bool) (u v : Text) :
    Continues (fun t ↦ some (t.dropWhile p)) u v := by
  refine .of_forall (fun h ↦ ?_) fun h ↦ ?_
  · rw [List.dropWhile_append, if_neg (by simpa using h)]
  · rw [List.dropWhile_append, if_pos (by simpa using h)]
    exact List.dropWhile_suffix p

theorem parametersEnd_continues (u v : Text) :
    Continues (fun t ↦ some (parametersEnd t)) u v := by
  cases u with
  | nil => exact .of_forall (fun h ↦ absurd rfl h) fun _ ↦ parametersEnd_suffix v
  | cons c u =>
    by_cases hc : c = '<'
    · have heq : ∀ w, parametersEnd (c :: u ++ w) = Text.afterGroup (c :: u ++ w) := by
        intro w
        rw [parametersEnd, if_pos (by simp [hc])]
      have heq' := heq []
      rw [List.append_nil] at heq'
      have hgroup := afterGroup_continues (c :: u) v
      rw [Continues] at hgroup ⊢
      rwa [heq, heq']
    · refine .of_forall (fun _ ↦ ?_) fun h ↦ ?_
      · rw [parametersEnd, if_neg (by simpa using hc), parametersEnd, if_neg (by simpa using hc)]
      · rw [parametersEnd, if_neg (by simpa using hc)] at h
        exact absurd h (by simp)

/-- The last part of a name, its type parameters and the blanks after them. -/
theorem nameRest_continues (u v : Text) :
    Continues (fun t ↦ some (parametersEnd (t.dropWhile isNamePart)).trimStart) u v := by
  have hparameters : Continues (fun t ↦ some (parametersEnd (t.dropWhile isNamePart))) u v :=
    (dropWhile_continues isNamePart u v).bind (fun r _ _ ↦ parametersEnd_continues r v) rfl
      fun h ↦ by rw [← Option.some.inj h]; exact parametersEnd_suffix _
  exact hparameters.bind (fun r _ _ ↦ trimStart_continues r v) rfl
    fun h ↦ by rw [← Option.some.inj h]; exact Text.trimStart_suffix _

theorem suffixEnd_continues (u v : Text) : Continues (fun t ↦ some (suffixEnd t)) u v := by
  induction u using afterSuffixes?.induct with
  | case1 => exact .of_forall (fun h ↦ absurd suffixEnd_nil h) fun _ ↦ suffixEnd_suffix v
  | case2 t ih =>
    have hgroup := (afterGroup_continues ('<' :: t) v).bind (g := fun t ↦ some (suffixEnd t))
      (fun r hr _ ↦ Option.some.inj hr ▸ ih) (by rw [suffixEnd_nil])
      fun h ↦ by rw [← Option.some.inj h]; exact suffixEnd_suffix _
    rw [Continues] at hgroup ⊢
    rwa [List.cons_append, suffixEnd_angle, suffixEnd_angle, ← List.cons_append]
  | case3 c t _ hc ih =>
    rw [Continues] at ih ⊢
    rwa [List.cons_append, suffixEnd_mark hc, suffixEnd_mark hc]
  | case4 t hnone _ _ =>
    -- a rank that is not closed takes all of `u`, and is closed by `v` if at all
    refine .of_forall ?_ fun _ ↦ ?_
    · intro hne
      rw [suffixEnd_rank, hnone] at hne
      exact absurd rfl hne
    · rw [List.cons_append, suffixEnd_rank]
      cases hx : Text.after? ']' (t ++ v) with
      | none => exact List.nil_suffix
      | some x => exact (suffixEnd_suffix x).trans (Text.after?_append_suffix hnone hx)
  | case5 t rest hrest _ _ ih =>
    rw [Continues] at ih ⊢
    rwa [List.cons_append, suffixEnd_rank, suffixEnd_rank, hrest, Text.after?_append hrest]
  | case6 c t h₁ h₂ h₃ =>
    have hc : c ∉ ['<', '?', '*', '['] := by
      simp only [List.mem_cons, List.not_mem_nil, or_false]
      grind
    refine .of_forall (fun _ ↦ ?_) fun h ↦ ?_
    · rw [List.cons_append, suffixEnd_other hc, suffixEnd_other hc, List.cons_append]
    · rw [suffixEnd_other hc] at h
      exact absurd h (by simp)

/-! ## The name

What is left of a name stays, and a name that is refused stays so when more follows. -/

theorem nameEnd?_continues (isTuple : Bool) (u v : Text) : Continues (nameEnd? isTuple) u v := by
  by_cases hnil : u.trimStart = []
  · constructor
    · intro r hr hne
      rw [nameEnd?, hnil] at hr
      exact absurd (Option.some.inj hr).symm hne
    · intro _ x hx
      have hsuffix := nameEnd?_suffix_trimStart hx
      rw [Text.trimStart_allBlank_append (Text.trimStart_eq_nil_iff.mp hnil)] at hsuffix
      exact hsuffix.trans (Text.trimStart_suffix v)
  · obtain ⟨c, t, hct⟩ := List.exists_cons_of_ne_nil hnil
    have hu : u ≠ [] := by
      rintro rfl
      exact hnil rfl
    have happ : Text.trimStart (u ++ v) = u.trimStart ++ v :=
      Text.trimStart_append_of_ne_nil hnil v
    have hhead : (u ++ v).head? = u.head? := by
      rw [List.head?_append_of_ne_nil _ hu]
    rw [Continues, nameEnd?, nameEnd?, happ, hhead, hct]
    by_cases hparen : (!isTuple) = true ∧ c = '('
    · simp [hparen]
    · simp only [List.cons_append, List.isEmpty_cons, Bool.false_eq_true, if_false,
        List.head?_cons, Option.some.injEq, if_neg hparen]
      rw [← List.cons_append, unmarked_append (by simp)]
      -- the mark `@` alone is refused, so there is nothing to keep
      by_cases hmark : unmarked (c :: t) = []
      · simp [hmark]
      · rw [List.head?_append_of_ne_nil _ hmark]
        split
        · exact nameRest_continues (unmarked (c :: t)) v
        · exact ⟨by simp, by simp⟩

private theorem nameEnd?_append_eq_none {isTuple : Bool} {u v : Text}
    (h : nameEnd? isTuple u = none) (hv : Apart u v) : nameEnd? isTuple (u ++ v) = none := by
  have hnil : u.trimStart ≠ [] := by
    intro hnil
    rw [nameEnd?, hnil] at h
    exact absurd h (by simp)
  obtain ⟨c, t, hct⟩ := List.exists_cons_of_ne_nil hnil
  have hu : u ≠ [] := by
    rintro rfl
    exact hnil rfl
  have happ : Text.trimStart (u ++ v) = u.trimStart ++ v := Text.trimStart_append_of_ne_nil hnil v
  have hhead : (u ++ v).head? = u.head? := by rw [List.head?_append_of_ne_nil _ hu]
  rw [nameEnd?, hct] at h
  rw [nameEnd?, happ, hhead, hct]
  simp only [List.cons_append, List.isEmpty_cons, Bool.false_eq_true, if_false,
    List.head?_cons, Option.some.injEq] at h ⊢
  split at h
  · simp at h
  · next hparen =>
    rw [if_neg hparen, ← List.cons_append, unmarked_append (by simp)]
    split at h
    · simp at h
    · next hname =>
      refine if_neg fun hname' ↦ hname ⟨?_, hname'.2⟩
      have hany := hname'.1
      by_cases hmark : unmarked (c :: t) = []
      · -- the mark `@` alone, and no name after it
        have hlast : u.getLast? = some '@' := by
          rw [← Text.getLast?_of_suffix (Text.trimStart_suffix u) hnil, hct,
            eq_mark_of_unmarked (by simp) hmark]
          rfl
        rw [hmark, List.nil_append] at hany
        exact absurd hany (by rw [any_isNamePart_eq_false (hv.mark hlast)]; decide)
      · rwa [List.head?_append_of_ne_nil _ hmark] at hany

/-! ## The type and the name -/

/-- A single colon after a type name is refused. -/
theorem nameEnd?_colon : nameEnd? false (suffixEnd [':']) = none := by
  rw [suffixEnd_other (by decide)]
  decide

private theorem typeAndName_continues {u : Text} (hu : u ≠ []) {v : Text}
    (hmark : afterTypeName? u = some [':'] → v.head? ≠ some ':') :
    Continues (fun t ↦ (afterTypeName? t).bind fun rest ↦ nameEnd? false (suffixEnd rest)) u v := by
  refine (afterTypeName?_continues hu hmark).bind (fun r _ _ ↦ ?_) ?_ fun h ↦ ?_
  · exact (suffixEnd_continues r v).bind (fun r _ _ ↦ nameEnd?_continues false r v) rfl
      nameEnd?_suffix
  · rw [suffixEnd_nil, nameEnd?_nil]
  · exact (nameEnd?_suffix h).trans (suffixEnd_suffix _)

private theorem typedEnd?_continues (u v : Text) : Continues typedEnd? u v := by
  cases u with
  | nil =>
    constructor
    · intro r hr hne
      exact absurd (Option.some.inj hr).symm hne
    · intro _ x hx
      exact typedEnd?_suffix hx
  | cons c u =>
    by_cases hc : c = '('
    · subst hc
      have hsuffix := (afterGroup_continues ('(' :: u) v).bind
        (fun r _ _ ↦ suffixEnd_continues r v) (by rw [suffixEnd_nil])
        fun h ↦ by rw [← Option.some.inj h]; exact suffixEnd_suffix _
      have hname := hsuffix.bind (fun r _ _ ↦ nameEnd?_continues true r v) rfl nameEnd?_suffix
      rw [Continues] at hname ⊢
      rwa [List.cons_append, typedEnd?_paren, typedEnd?_paren]
    · by_cases hmark : afterTypeName? (c :: u) = some [':']
      · -- nothing to keep: the text is refused as it stands
        rw [Continues, typedEnd?_cons hc, hmark, Option.bind_some, nameEnd?_colon]
        exact ⟨by simp, by simp⟩
      · have hname := typeAndName_continues (u := c :: u) (v := v) (by simp)
          fun h ↦ absurd h hmark
        rw [Continues] at hname ⊢
        rwa [List.cons_append, typedEnd?_cons hc, typedEnd?_cons hc]

theorem afterQualified_of_head {t : Text}
    (h : t.head?.any (fun c ↦ isNamePart c || c == ':') = false) : afterQualified t = t := by
  cases t with
  | nil => rfl
  | cons c t =>
    obtain ⟨hname, hcolon⟩ : isNamePart c = false ∧ c ≠ ':' := by simpa using h
    rw [afterQualified, if_neg (by rw [hname]; decide)]
    rintro r rfl
    exact absurd rfl hcolon

theorem afterQualified_of_blank {v : Text} (hv : v.head?.any isBlank = true) :
    afterQualified v = v :=
  afterQualified_of_head ((Apart.of_isBlank hv ['@']).mark rfl)

private theorem afterTypeName?_append_eq_none {u v : Text} (hu : u ≠ [])
    (h : afterTypeName? u = none) (hv : Apart u v) : afterTypeName? (u ++ v) = none := by
  rw [afterTypeName?_eq] at h ⊢
  rw [unmarked_append hu]
  have hkept : afterQualified (unmarked u) = unmarked u := by
    refine (afterQualified_suffix _).eq_of_length_le ?_
    split at h
    · simp at h
    · omega
  by_cases hnil : unmarked u = []
  · have hmark : u.getLast? = some '@' := by rw [eq_mark_of_unmarked hu hnil]; rfl
    rw [hnil, List.nil_append, afterQualified_of_head (hv.mark hmark), if_neg (Nat.lt_irrefl _)]
  · rw [afterQualified_append (by rwa [hkept]), hkept, if_neg (Nat.lt_irrefl _)]
    intro hcolon
    refine hv.colon ?_
    rw [← Text.getLast?_of_suffix (unmarked_suffix u) hnil, ← hkept, hcolon]
    rfl

private theorem suffixEnd_append_eq_none {isTuple : Bool} {u v : Text}
    (h : nameEnd? isTuple (suffixEnd u) = none) (hv : Apart u v) :
    nameEnd? isTuple (suffixEnd (u ++ v)) = none := by
  refine (suffixEnd_continues u v).bind_eq_none (fun h ↦ absurd h (by simp))
    (fun r hr hne hnone ↦ ?_) (nameEnd?_nil isTuple) h
  have hsuffix : r <:+ u := Option.some.inj hr ▸ suffixEnd_suffix u
  exact nameEnd?_append_eq_none hnone (hv.of_suffix hsuffix hne)

private theorem typedEnd?_append_eq_none {u v : Text} (h : typedEnd? u = none) (hv : Apart u v) :
    typedEnd? (u ++ v) = none := by
  cases u with
  | nil => simp [typedEnd?] at h
  | cons c u =>
    by_cases hc : c = '('
    · subst hc
      rw [typedEnd?_paren] at h
      rw [List.cons_append, typedEnd?_paren]
      refine (afterGroup_continues ('(' :: u) v).bind_eq_none
        (g := fun t ↦ nameEnd? true (suffixEnd t)) (fun h ↦ absurd h (by simp))
        (fun r hr hne hnone ↦ ?_) (by rw [suffixEnd_nil, nameEnd?_nil]) h
      have hsuffix : r <:+ '(' :: u := Option.some.inj hr ▸ Text.afterGroup_suffix _
      exact suffixEnd_append_eq_none hnone (hv.of_suffix hsuffix hne)
    · have hcolon : afterTypeName? (c :: u) = some [':'] → v.head? ≠ some ':' := by
        intro hrest
        refine hv.colon ?_
        rw [← Text.getLast?_of_suffix (afterTypeName?_suffix hrest) (by simp)]
        rfl
      rw [typedEnd?_cons hc] at h
      rw [List.cons_append, typedEnd?_cons hc]
      refine (afterTypeName?_continues (by simp) hcolon).bind_eq_none
        (g := fun t ↦ nameEnd? false (suffixEnd t))
        (fun h ↦ afterTypeName?_append_eq_none (by simp) h hv)
        (fun r hr hne hnone ↦ ?_) (by rw [suffixEnd_nil, nameEnd?_nil]) h
      exact suffixEnd_append_eq_none hnone (hv.of_suffix (afterTypeName?_suffix hr) hne)

/-! ## Keywords

A keyword may be complete only with what is added. Then the text is the start of it, which is read
as a type that may go on. -/

/-- Whether keywords are words: not empty, and made of word characters. -/
def areWords (keywords : List Text) : Bool := keywords.all fun k ↦ !k.isEmpty && k.all isWord

theorem ne_nil_of_areWords {keywords : List Text} (hwords : areWords keywords = true) {k : Text}
    (hk : k ∈ keywords) : k ≠ [] := by
  have h := List.all_eq_true.mp hwords k hk
  rw [Bool.and_eq_true] at h
  simpa using h.1

theorem isWord_of_areWords {keywords : List Text} (hwords : areWords keywords = true) {k : Text}
    (hk : k ∈ keywords) {c : Char} (hc : c ∈ k) : isWord c = true := by
  have h := List.all_eq_true.mp hwords k hk
  rw [Bool.and_eq_true] at h
  exact List.all_eq_true.mp h.2 c hc

theorem areWords_memberModifiers : areWords memberModifiers = true := by decide

theorem isWord_of_mem_keyword {k : Text} (hk : k ∈ memberModifiers) {c : Char} (hc : c ∈ k) :
    isWord c = true :=
  isWord_of_areWords areWords_memberModifiers hk hc

/-- The start of a keyword is read as a type that may go on. -/
theorem typedEnd?_of_prefix_keyword {u k : Text} (hk : k ∈ memberModifiers) (hu : u <+: k) :
    typedEnd? u = some [] := by
  have hall : ∀ c ∈ u, isWord c = true := fun c hc ↦ isWord_of_mem_keyword hk (hu.subset hc)
  have hqualified : ∀ t : Text, (∀ c ∈ t, isWord c = true) → afterQualified t = [] := by
    intro t ht
    induction t with
    | nil => rfl
    | cons c t ih =>
      have hc : isWord c = true := ht c List.mem_cons_self
      have hcolon : ∀ r, c = ':' → t = ':' :: r → False := by
        rintro r rfl _
        exact absurd hc (by decide)
      rw [afterQualified, if_pos (by simp [isNamePart, hc])]
      · exact ih fun d hd ↦ ht d (List.mem_cons_of_mem _ hd)
      · exact hcolon
  cases u with
  | nil => rfl
  | cons c u =>
    have hc : isWord c = true := hall c List.mem_cons_self
    have hparen : c ≠ '(' := by
      rintro rfl
      exact absurd hc (by decide)
    have hmark : unmarked (c :: u) = c :: u := by
      refine unmarked_of_ne ?_
      rintro r heq
      obtain ⟨rfl, -⟩ := List.cons.inj heq
      exact absurd hc (by decide)
    rw [typedEnd?_cons hparen, afterTypeName?_eq, hmark, hqualified _ hall, if_pos (by simp),
      Option.bind_some, suffixEnd_nil, nameEnd?_nil]

private theorem declaredEnd?_continues (u v : Text) : Continues declaredEnd? u v := by
  -- each keyword makes the text shorter
  induction hn : u.length using Nat.strongRecOn generalizing u with
  | ind n ih =>
    cases hu : Text.afterKeyword? memberModifiers u with
    | some rest =>
      obtain ⟨r, rfl, hv⟩ := Text.afterKeyword?_append hu v
      have hlt := Text.length_lt_of_afterKeyword? hu
      have hrest := (trimStart_continues r v).bind
        (fun s hs _ ↦ Option.some.inj hs ▸ ih _ (by omega) (Text.trimStart r) rfl)
        declaredEnd?_nil declaredEnd?_suffix
      rw [Continues] at hrest ⊢
      rwa [declaredEnd?_of_keyword hu, declaredEnd?_of_keyword hv]
    | none =>
      rw [Continues, declaredEnd?_of_none hu]
      cases hv : Text.afterKeyword? memberModifiers (u ++ v) with
      | none =>
        rw [declaredEnd?_of_none hv]
        exact typedEnd?_continues u v
      | some rest =>
        -- what looks like a type that may go on turns out to be a keyword
        obtain ⟨k, hk, hprefix, hsuffix⟩ := Text.afterKeyword?_append_of_none hu hv
        rw [typedEnd?_of_prefix_keyword hk hprefix, declaredEnd?_of_keyword hv]
        refine ⟨fun r hr hne ↦ absurd (Option.some.inj hr).symm hne, fun _ x hx ↦ ?_⟩
        exact (declaredEnd?_suffix hx).trans hsuffix

private theorem declaredEnd?_append_eq_none {u v : Text} (h : declaredEnd? u = none)
    (hv : Apart u v) : declaredEnd? (u ++ v) = none := by
  induction hn : u.length using Nat.strongRecOn generalizing u with
  | ind n ih =>
    cases hu : Text.afterKeyword? memberModifiers u with
    | some rest =>
      obtain ⟨r, rfl, hr⟩ := Text.afterKeyword?_append hu v
      have hlt := Text.length_lt_of_afterKeyword? hu
      rw [declaredEnd?_of_keyword hu] at h
      have hne : Text.trimStart r ≠ [] := by
        intro hnil
        rw [hnil, declaredEnd?_nil] at h
        exact absurd h (by simp)
      rw [declaredEnd?_of_keyword hr, Text.trimStart_append_of_ne_nil hne]
      exact ih _ (by omega) h (hv.of_suffix (Text.afterKeyword?_suffix hu) hne) rfl
    | none =>
      rw [declaredEnd?_of_none hu] at h
      cases hr : Text.afterKeyword? memberModifiers (u ++ v) with
      | none =>
        rw [declaredEnd?_of_none hr]
        exact typedEnd?_append_eq_none h hv
      | some rest =>
        obtain ⟨k, hk, hprefix, -⟩ := Text.afterKeyword?_append_of_none hu hr
        rw [typedEnd?_of_prefix_keyword hk hprefix] at h
        exact absurd h (by simp)

/-! ## The whole head -/

theorem afterAttributes?_continues (u v : Text) : Continues afterAttributes? u v := by
  -- each attribute makes the text shorter
  induction hn : u.length using Nat.strongRecOn generalizing u with
  | ind n ih =>
    cases u with
    | nil =>
      refine ⟨fun r hr hne ↦ ?_, fun _ x hx ↦ afterAttributes?_suffix hx⟩
      rw [afterAttributes?_nil] at hr
      exact absurd (Option.some.inj hr).symm hne
    | cons c u =>
      by_cases hc : c = '['
      · subst hc
        rw [Continues, List.cons_append, afterAttributes?_bracket, afterAttributes?_bracket]
        cases hr : Text.after? ']' u with
        | none => exact ⟨by simp, by simp⟩
        | some rest =>
          have hlt := Text.length_lt_of_after? hr
          have hle := Text.length_trimStart_le rest
          rw [List.length_cons] at hn
          rw [Text.after?_append hr]
          exact (trimStart_continues rest v).bind
            (fun s hs _ ↦ Option.some.inj hs ▸ ih _ (by omega) rest.trimStart rfl)
            afterAttributes?_nil afterAttributes?_suffix
      · rw [Continues, List.cons_append, afterAttributes?_cons_of_ne hc,
          afterAttributes?_cons_of_ne hc]
        exact ⟨fun r hr _ ↦ by rw [← Option.some.inj hr]; rfl, fun h ↦ absurd h (by simp)⟩

theorem boundaryAt?_continues (u v : Text) : Continues boundaryAt? u v := by
  have hattributes := (trimStart_continues u v).bind
    (fun r _ _ ↦ afterAttributes?_continues r v) afterAttributes?_nil afterAttributes?_suffix
  exact hattributes.bind (fun r _ _ ↦ declaredEnd?_continues r v) declaredEnd?_nil
    declaredEnd?_suffix

/-- A text that declares no member still declares none when more follows, provided its attributes
are closed. -/
theorem boundaryAt?_append_eq_none {u v : Text} (h : boundaryAt? u = none)
    (hclosed : (afterAttributes? u.trimStart).isSome) (hv : Apart u v) :
    boundaryAt? (u ++ v) = none := by
  have hattributes := (trimStart_continues u v).bind
    (fun r _ _ ↦ afterAttributes?_continues r v) afterAttributes?_nil afterAttributes?_suffix
  refine hattributes.bind_eq_none (fun hnone ↦ ?_) (fun r hr hne hnone ↦ ?_) declaredEnd?_nil h
  · rw [Option.bind_some] at hnone
    rw [hnone] at hclosed
    exact absurd hclosed (by simp)
  · have hsuffix := (afterAttributes?_suffix hr).trans (Text.trimStart_suffix u)
    exact declaredEnd?_append_eq_none hnone (hv.of_suffix hsuffix hne)

end CSharpOutline.Head
