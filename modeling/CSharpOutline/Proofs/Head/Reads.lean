import CSharpOutline.Proofs.Head.Extend

/-!
# The stages of reading a head

The parser goes through a declaration from left to right and hands on what it has not read yet:
first the attributes are taken off, then the modifiers, the type, its suffixes and the name.
`Reads` lists these stages. A text that goes on behind its name is read (`exists_reads`), and what
is read is what the parser gives (`Reads.parse?`).

Each stage looks only at what it takes off. So a text that is cut off behind its name, or anywhere
behind its boundary, is read up to the cut as it was before (`Reads.of_append`).
-/

namespace CSharpOutline.Head

/-- What follows the type at the start of a text, a tuple or a name, without its suffixes. -/
def afterType? (typed : Text) : Option Text :=
  if typed.head? = some '(' then some typed.afterGroup else afterTypeName? typed

/-- The name of the member and the text from its boundary on, when `rest` follows the type that
`typed` starts with. -/
def named? (typed rest : Text) : Option (Text × Text) :=
  if typed.head? ≠ some '(' ∧ rest.trimStart.head? = some '(' then
    some (typed.take (typed.length - rest.length), rest.trimStart)
  else if typed.head? = some '(' ∨ rest.head?.any isBlank then
    (Text.name? isNamePart rest.trimStart).map fun p ↦ (p.1, (parametersEnd p.2).trimStart)
  else none

def namedText (typed rest : Text) : Text :=
  if typed.head? ≠ some '(' ∧ rest.trimStart.head? = some '(' then typed else rest.trimStart

/-- The head of a text is read up to the name, and `rest` is the text from the boundary on. -/
def Reads (text : Text) (hasModifiers : Bool) (name rest : Text) : Prop :=
  ∃ declared typed suffixed after,
    afterAttributes? text.trimStart = some declared ∧
    Text.dropKeywords memberModifiers declared = (hasModifiers, typed) ∧
    afterType? typed = some suffixed ∧ afterSuffixes? suffixed = some after ∧
    named? typed after = some (name, rest)

/-- The head of a text is read, and `named` is the text from the name on. -/
def ReadsFrom (text : Text) (hasModifiers : Bool) (named name rest : Text) : Prop :=
  ∃ declared typed suffixed after,
    afterAttributes? text.trimStart = some declared ∧
    Text.dropKeywords memberModifiers declared = (hasModifiers, typed) ∧
    afterType? typed = some suffixed ∧ afterSuffixes? suffixed = some after ∧
    namedText typed after = named ∧ named? typed after = some (name, rest)

theorem Reads.exists_readsFrom {text name rest : Text} {hasModifiers : Bool}
    (h : Reads text hasModifiers name rest) :
    ∃ named, ReadsFrom text hasModifiers named name rest := by
  obtain ⟨declared, typed, suffixed, after, hdeclared, htyped, hsuffixed, hafter, hname⟩ := h
  exact ⟨_, declared, typed, suffixed, after, hdeclared, htyped, hsuffixed, hafter, rfl, hname⟩

private theorem length_lt_of_afterTypeName? {t r : Text} (h : afterTypeName? t = some r) :
    r.length < t.length := by
  rw [afterTypeName?_eq] at h
  split at h
  · next hlt =>
    rw [← Option.some.inj h]
    exact Nat.lt_of_lt_of_le hlt (unmarked_suffix t).length_le
  · simp at h

theorem length_lt_of_afterType? {t r : Text} (h : afterType? t = some r) :
    r.length < t.length := by
  rw [afterType?] at h
  split at h
  · next hparen =>
    obtain ⟨s, rfl⟩ := List.head?_eq_some_iff.mp hparen
    rw [← Option.some.inj h]
    exact Text.length_afterGroup_lt s (.inr rfl)
  · exact length_lt_of_afterTypeName? h

theorem afterType?_suffix {t r : Text} (h : afterType? t = some r) : r <:+ t := by
  rw [afterType?] at h
  split at h
  · rw [← Option.some.inj h]
    exact Text.afterGroup_suffix t
  · exact afterTypeName?_suffix h

/-- A name is what stands in front of the rest that it leaves, which is shorter than the text
without its mark. -/
theorem name?_eq_some_iff {p : Char → Bool} {t name rest : Text} :
    Text.name? p t = some (name, rest) ↔
      t = name ++ rest ∧ (unmarked t).dropWhile p = rest ∧ rest.length < (unmarked t).length := by
  unfold Text.name?
  split
  next mark body heq =>
    obtain ⟨hmark, hunmarked⟩ : t = mark ++ body ∧ unmarked t = body := by
      split at heq
      · obtain ⟨rfl, rfl⟩ := Prod.mk.inj heq
        exact ⟨rfl, rfl⟩
      · next hne =>
        obtain ⟨rfl, rfl⟩ := Prod.mk.inj heq
        exact ⟨rfl, unmarked_of_ne hne⟩
    have hbody := List.takeWhile_append_dropWhile (p := p) (l := body)
    have hlength := congrArg List.length hbody
    rw [List.length_append] at hlength
    rw [hunmarked]
    cases hrun : body.takeWhile p with
    | nil =>
      rw [hrun, List.length_nil] at hlength
      constructor
      · intro h
        simp at h
      · rintro ⟨-, rfl, hlt⟩
        omega
    | cons c run =>
      rw [hrun] at hbody
      simp only [Option.some.injEq, Prod.mk.injEq]
      constructor
      · rintro ⟨rfl, rfl⟩
        rw [hrun, List.length_cons] at hlength
        exact ⟨by rw [List.append_assoc, hbody]; exact hmark, rfl, by omega⟩
      · rintro ⟨heq, rfl, -⟩
        rw [← hbody, ← List.append_assoc] at hmark
        exact ⟨List.append_cancel_right (hmark.symm.trans heq), rfl⟩

theorem named?_suffix {typed after name rest : Text} (h : named? typed after = some (name, rest)) :
    rest <:+ after := by
  rw [named?] at h
  split at h
  · rw [← (Prod.mk.inj (Option.some.inj h)).2]
    exact Text.trimStart_suffix after
  · split at h
    · obtain ⟨p, hp, heq⟩ := Option.map_eq_some_iff.mp h
      obtain ⟨hname, -⟩ := name?_eq_some_iff.mp hp
      have hsuffix : p.2 <:+ after.trimStart := ⟨p.1, hname.symm⟩
      rw [← (Prod.mk.inj heq).2]
      refine (Text.trimStart_suffix _).trans ((parametersEnd_suffix _).trans ?_)
      exact hsuffix.trans (Text.trimStart_suffix after)
    · simp at h

/-! ## Agreement with the parser

A name is read wherever a boundary is found, and what is read is what the parser gives, with the
offsets of both. -/

/-- A name is read wherever a boundary is found. -/
theorem exists_named {typed rest r : Text}
    (h : nameEnd? (typed.head? == some '(') rest = some r) (hne : r ≠ []) :
    ∃ name, named? typed rest = some (name, r) := by
  have hsnd := map_snd_name? isNamePart rest.trimStart
  rw [nameEnd?] at h
  rw [named?]
  split at h
  · exact absurd (Option.some.inj h).symm hne
  · split at h
    · next hparen =>
      rw [if_pos (by simpa using hparen)]
      exact ⟨_, by rw [Option.some.inj h]⟩
    · next hparen =>
      rw [if_neg (by simpa using hparen)]
      split at h
      · next hname =>
        rw [if_pos (by simpa using hname.2)]
        rw [if_pos hname.1] at hsnd
        obtain ⟨p, hp, hrest⟩ := Option.map_eq_some_iff.mp hsnd
        exact ⟨p.1, by rw [hp, Option.map_some, hrest, Option.some.inj h]⟩
      · simp at h

theorem exists_reads {text r : Text} (h : boundaryAt? text = some r) (hne : r ≠ []) :
    ∃ hasModifiers name, Reads text hasModifiers name r := by
  obtain ⟨declared, hdeclared, h⟩ := Option.bind_eq_some_iff.mp h
  rw [declaredEnd?] at h
  have hnil : ¬(Text.dropKeywords memberModifiers declared).2.isEmpty = true := by
    intro hnil
    rw [typedEnd?, if_pos hnil] at h
    exact hne (Option.some.inj h).symm
  rw [typedEnd?_eq_bind hnil] at h
  obtain ⟨suffixed, hsuffixed, h⟩ := Option.bind_eq_some_iff.mp h
  rw [suffixEnd] at h
  cases hafter : afterSuffixes? suffixed with
  | none =>
    rw [hafter, Option.getD_none, nameEnd?_nil] at h
    exact absurd (Option.some.inj h).symm hne
  | some after =>
    rw [hafter, Option.getD_some] at h
    obtain ⟨name, hname⟩ := exists_named h hne
    have htype : afterType? (Text.dropKeywords memberModifiers declared).2 = some suffixed := by
      simpa [afterType?] using hsuffixed
    exact ⟨_, name, declared, _, suffixed, after, hdeclared, rfl, htype, hafter, hname⟩

theorem ofType?_of_named? {text typed after name rest : Text}
    (h : named? typed after = some (name, rest)) (hasModifiers : Bool) :
    ofType? text typed after (typed.head? == some '(') hasModifiers =
      (Boundary.read? rest).map fun boundary ↦
        { name, boundary, hasModifiers
          nameStart := text.length - (namedText typed after).length
          boundaryStart := text.length - rest.length } := by
  rw [named?] at h
  rw [ofType?, namedText]
  split at h
  · next hparen =>
    obtain ⟨rfl, rfl⟩ := Prod.mk.inj (Option.some.inj h)
    obtain ⟨t, ht⟩ := List.head?_eq_some_iff.mp hparen.2
    rw [if_pos (by simpa using hparen), if_pos hparen, ht]
    rfl
  · next hparen =>
    rw [if_neg (by simpa using hparen), if_neg hparen]
    split at h
    · next hblank =>
      obtain ⟨p, hp, heq⟩ := Option.map_eq_some_iff.mp h
      obtain ⟨rfl, rfl⟩ := Prod.mk.inj heq
      have hne : after ≠ [] := by
        rintro rfl
        exact absurd hp (by simp [Text.trimStart, Text.name?])
      rw [hp]
      dsimp only
      rw [if_neg, ofName?]
      · rfl
      · rw [Text.length_trimStart_eq_iff hne]
        simp only [Bool.not_eq_true', beq_eq_false_iff_ne, ne_eq, not_and, Bool.not_eq_false]
        exact fun hne ↦ hblank.resolve_left hne
    · simp at h

/-- What is read is what the parser gives, with the offsets of the name and the boundary. -/
theorem ReadsFrom.parse? {text named name rest : Text} {hasModifiers : Bool}
    (h : ReadsFrom text hasModifiers named name rest) :
    parse? text = (Boundary.read? rest).map fun boundary ↦
      { name, boundary, hasModifiers
        nameStart := text.length - named.length
        boundaryStart := text.length - rest.length } := by
  obtain ⟨declared, typed, suffixed, after, hdeclared, htyped, hsuffixed, hafter, rfl, hname⟩ := h
  have hne : ¬typed.isEmpty = true := by
    intro hnil
    have hlt := length_lt_of_afterType? hsuffixed
    rw [List.isEmpty_iff.mp hnil] at hlt
    exact absurd hlt (by simp)
  have htype : (if (typed.head? == some '(') = true then some typed.afterGroup
      else afterTypeName? typed) = some suffixed := by
    simpa [afterType?] using hsuffixed
  rw [Head.parse?, hdeclared]
  simp only [htyped, if_neg hne, htype, hafter]
  exact ofType?_of_named? hname hasModifiers

theorem Reads.parse? {text name rest : Text} {hasModifiers : Bool}
    (h : Reads text hasModifiers name rest) :
    (parse? text).map (fun h ↦ (h.name, h.hasModifiers, h.boundary)) =
      (Boundary.read? rest).map fun b ↦ (name, hasModifiers, b) := by
  obtain ⟨named, h⟩ := h.exists_readsFrom
  rw [h.parse?, Option.map_map]
  rfl

theorem Reads.trimStart {text name rest : Text} {hasModifiers : Bool}
    (h : Reads text hasModifiers name rest) : Reads text.trimStart hasModifiers name rest := by
  rw [Reads] at h ⊢
  rwa [Text.trimStart_trimStart]

/-! ## Cutting a text off

If a part of the parser leaves `r ++ v` of a text `u ++ v`, then it has not looked at `v`, and
leaves `r` of `u`. -/

theorem exists_eq_append {m r v : Text} (h : r ++ v <:+ m) : ∃ s, m = s ++ v ∧ r <:+ s := by
  obtain ⟨q, rfl⟩ := h
  exact ⟨q ++ r, by simp, List.suffix_append q r⟩

theorem eq_nil_of_suffix {r v : Text} (h : r ++ v <:+ v) : r = [] := by
  have hle := h.length_le
  rw [List.length_append] at hle
  exact List.length_eq_zero_iff.mp (by omega)

theorem Continues.cancel {f : Text → Text} {u v r : Text}
    (h : Continues (fun t ↦ some (f t)) u v) (hr : f (u ++ v) = r ++ v) : f u = r := by
  by_cases hnil : f u = []
  · have hsuffix := h.2 (congrArg some hnil) _ rfl
    rw [hr] at hsuffix
    rw [hnil, eq_nil_of_suffix hsuffix]
  · have happ := Option.some.inj (h.1 _ rfl hnil)
    exact List.append_cancel_right (happ.symm.trans hr)

theorem after?_cancel {c : Char} {u v r : Text} (h : Text.after? c (u ++ v) = some (r ++ v)) :
    Text.after? c u = some r := by
  obtain ⟨before, hmem, heq⟩ := Text.after?_eq_some_iff.mp h
  rw [← List.cons_append, ← List.append_assoc] at heq
  exact Text.after?_eq_some_iff.mpr ⟨before, hmem, List.append_cancel_right heq⟩

private theorem afterAttributes?_cancel {u v r : Text}
    (h : afterAttributes? (u ++ v) = some (r ++ v)) : afterAttributes? u = some r := by
  induction hn : u.length using Nat.strongRecOn generalizing u with
  | ind n ih =>
    cases u with
    | nil => rw [eq_nil_of_suffix (afterAttributes?_suffix h), afterAttributes?_nil]
    | cons c u =>
      by_cases hc : c = '['
      · subst hc
        rw [List.cons_append, afterAttributes?_bracket] at h
        obtain ⟨m, hm, h⟩ := Option.bind_eq_some_iff.mp h
        obtain ⟨t, ht, -⟩ := exists_eq_append (afterAttributes?_suffix h)
        obtain ⟨s, rfl, -⟩ := exists_eq_append (ht ▸ Text.trimStart_suffix m)
        have hs := after?_cancel hm
        have htrim : s.trimStart = t := (trimStart_continues s v).cancel ht
        have hlt := Text.length_lt_of_after? hs
        have hle := Text.length_trimStart_le s
        rw [List.length_cons] at hn
        rw [ht] at h
        rw [afterAttributes?_bracket, hs, Option.bind_some, htrim]
        exact ih t.length (by rw [← htrim]; omega) h rfl
      · rw [List.cons_append, afterAttributes?_cons_of_ne hc, Option.some.injEq,
          ← List.cons_append] at h
        rw [afterAttributes?_cons_of_ne hc, List.append_cancel_right h]

private theorem afterKeyword?_cancel {keywords : List Text} {u v r : Text}
    (h : Text.afterKeyword? keywords (u ++ v) = some (r ++ v)) :
    Text.afterKeyword? keywords u = some r := by
  obtain ⟨k, b, s, hk, hblank, hb, heq, hr⟩ := Text.afterKeyword?_eq_some_iff.mp h
  obtain ⟨s, rfl, -⟩ := exists_eq_append (hr ▸ Text.trimStart_suffix s)
  have htrim : s.trimStart = r := (trimStart_continues s v).cancel hr.symm
  rw [← List.cons_append, ← List.append_assoc] at heq
  exact Text.afterKeyword?_eq_some_iff.mpr
    ⟨k, b, s, hk, hblank, hb, List.append_cancel_right heq, htrim.symm⟩

private theorem dropKeywords_cancel {keywords : List Text} {u v r : Text} {found : Bool}
    (h : Text.dropKeywords keywords (u ++ v) = (found, r ++ v)) :
    Text.dropKeywords keywords u = (found, r) := by
  induction hn : u.length using Nat.strongRecOn generalizing u found with
  | ind n ih =>
    cases hk : Text.afterKeyword? keywords (u ++ v) with
    | none =>
      rw [Text.dropKeywords_of_none hk] at h
      obtain ⟨rfl, heq⟩ := Prod.mk.inj h
      obtain rfl : u = r := List.append_cancel_right heq
      refine Text.dropKeywords_of_none (Option.eq_none_iff_forall_not_mem.mpr fun s hs ↦ ?_)
      obtain ⟨t, -, ht⟩ := Text.afterKeyword?_append hs v
      rw [hk] at ht
      exact absurd ht (by simp)
    | some s =>
      rw [Text.dropKeywords_of_some hk] at h
      obtain ⟨rfl, heq⟩ := Prod.mk.inj h
      obtain ⟨s, rfl, -⟩ := exists_eq_append (heq ▸ Text.dropKeywords_suffix keywords s)
      have hs := afterKeyword?_cancel hk
      have hrest := ih s.length (hn ▸ Text.length_lt_of_afterKeyword? hs) (Prod.ext rfl heq) rfl
      rw [Text.dropKeywords_of_some hs, hrest]

private theorem afterTypeName?_cancel {u v r : Text} (hu : u ≠ []) (hcolon : v.head? ≠ some ':')
    (h : afterTypeName? (u ++ v) = some (r ++ v)) : afterTypeName? u = some r := by
  rw [afterTypeName?_eq, unmarked_append hu] at h
  rw [afterTypeName?_eq]
  split at h
  · next hlt =>
    have hrest : afterQualified (unmarked u) = r := by
      have h := Option.some.inj h
      by_cases hnil : afterQualified (unmarked u) = []
      · rw [afterQualified_append_nil hnil] at h
        have hsuffix := afterQualified_suffix v
        rw [h] at hsuffix
        rw [hnil, eq_nil_of_suffix hsuffix]
      · rw [afterQualified_append hnil fun _ ↦ hcolon] at h
        exact List.append_cancel_right h
    rw [Option.some.inj h, List.length_append, List.length_append] at hlt
    rw [hrest, if_pos (by omega)]
  · simp at h

private theorem afterType?_cancel {u v r : Text} (hcolon : v.head? ≠ some ':')
    (h : afterType? (u ++ v) = some (r ++ v)) : afterType? u = some r ∧ u ≠ [] := by
  have hu : u ≠ [] := by
    rintro rfl
    have hlt := length_lt_of_afterType? h
    rw [List.length_append, List.nil_append] at hlt
    omega
  refine ⟨?_, hu⟩
  rw [afterType?, List.head?_append_of_ne_nil u hu] at h
  rw [afterType?]
  split at h
  · next hparen =>
    rw [if_pos hparen, (afterGroup_continues u v).cancel (Option.some.inj h)]
  · next hparen =>
    rw [if_neg hparen]
    exact afterTypeName?_cancel hu hcolon h

private theorem afterSuffixes?_cancel {u v r : Text} (h : afterSuffixes? (u ++ v) = some (r ++ v)) :
    afterSuffixes? u = some r := by
  induction u using afterSuffixes?.induct with
  | case1 =>
    rw [eq_nil_of_suffix (afterSuffixes?_suffix h), afterSuffixes?]
  | case2 t ih =>
    rw [List.cons_append, afterSuffixes?, dif_pos rfl, ← List.cons_append] at h
    obtain ⟨s, hs, -⟩ := exists_eq_append (afterSuffixes?_suffix h)
    have hgroup := (afterGroup_continues ('<' :: t) v).cancel hs
    rw [hs] at h
    rw [afterSuffixes?, dif_pos rfl]
    rw [hgroup] at ih ⊢
    exact ih h
  | case3 c t hc hmark ih =>
    rw [List.cons_append, afterSuffixes?, dif_neg hc, if_pos hmark] at h
    rw [afterSuffixes?, dif_neg hc, if_pos hmark]
    exact ih h
  | case4 t hnone h₁ h₂ =>
    rw [List.cons_append, afterSuffixes?, dif_neg h₁, if_neg h₂, if_pos rfl] at h
    split at h
    · simp at h
    · next m hm =>
      obtain ⟨s, rfl, -⟩ := exists_eq_append (afterSuffixes?_suffix h)
      rw [after?_cancel hm] at hnone
      exact absurd hnone (by simp)
  | case5 t rest hrest h₁ h₂ ih =>
    rw [List.cons_append, afterSuffixes?, dif_neg h₁, if_neg h₂, if_pos rfl] at h
    rw [afterSuffixes?, dif_neg h₁, if_neg h₂, if_pos rfl]
    split at h
    · simp at h
    · next m hm =>
      rw [Text.after?_append hrest, Option.some.injEq] at hm
      rw [hrest]
      exact ih (hm ▸ h)
  | case6 c t h₁ h₂ h₃ =>
    rw [List.cons_append, afterSuffixes?, dif_neg h₁, if_neg h₂, if_neg h₃, Option.some.injEq,
      ← List.cons_append] at h
    rw [afterSuffixes?, dif_neg h₁, if_neg h₂, if_neg h₃, List.append_cancel_right h]

private theorem name?_cancel {p : Char → Bool} {u v name r : Text}
    (h : Text.name? p (u ++ v) = some (name, r ++ v)) : Text.name? p u = some (name, r) := by
  obtain ⟨heq, hrest, hlt⟩ := name?_eq_some_iff.mp h
  have hu : u ≠ [] := by
    rintro rfl
    have hle := (unmarked_suffix v).length_le
    rw [List.nil_append, List.length_append] at hlt
    omega
  rw [unmarked_append hu] at hrest hlt
  rw [← List.append_assoc] at heq
  rw [List.length_append, List.length_append] at hlt
  exact name?_eq_some_iff.mpr ⟨List.append_cancel_right heq,
    (dropWhile_continues p _ v).cancel hrest, by omega⟩

private theorem named?_cancel {typed rest v name r : Text} (hne : typed ≠ [])
    (hparen : v.head? ≠ some '(') (h : named? (typed ++ v) (rest ++ v) = some (name, r ++ v)) :
    named? typed rest = some (name, r) := by
  rw [named?, List.head?_append_of_ne_nil typed hne] at h
  rw [named?]
  split at h
  · next hcall =>
    obtain ⟨rfl, hr⟩ := Prod.mk.inj (Option.some.inj h)
    have htrim := (trimStart_continues rest v).cancel hr
    have hr' : r ≠ [] := by
      rintro rfl
      rw [hr] at hcall
      exact hparen hcall.2
    rw [hr, List.head?_append_of_ne_nil r hr', ← htrim] at hcall
    rw [if_pos hcall, htrim, List.length_append, List.length_append, Nat.add_sub_add_right,
      List.take_append_of_le_length (Nat.sub_le _ _)]
  · next hcall =>
    split at h
    · next hblank =>
      obtain ⟨⟨n, a⟩, hp, heq⟩ := Option.map_eq_some_iff.mp h
      obtain ⟨rfl, hr⟩ := Prod.mk.inj heq
      -- what is left behind the name, and all that is handed on before, ends in `v`
      obtain ⟨s, hs, -⟩ := exists_eq_append (hr ▸ Text.trimStart_suffix (parametersEnd a))
      obtain ⟨a, rfl, -⟩ := exists_eq_append (hs ▸ parametersEnd_suffix a)
      obtain ⟨heq, -⟩ := name?_eq_some_iff.mp hp
      obtain ⟨m, hm⟩ : ∃ m, Text.trimStart (rest ++ v) = m ++ v :=
        ⟨n ++ a, by rw [heq, List.append_assoc]⟩
      have htrim := (trimStart_continues rest v).cancel hm
      have hparameters := (parametersEnd_continues a v).cancel hs
      have hend : s.trimStart = r := (trimStart_continues s v).cancel (by rw [← hs]; exact hr)
      rw [hm] at hp hcall
      have hname := name?_cancel hp
      have hm' : m ≠ [] := by
        rintro rfl
        exact absurd hname (by simp [Text.name?])
      have hrest : rest ≠ [] := by
        rintro rfl
        exact hm' htrim.symm
      rw [List.head?_append_of_ne_nil m hm', ← htrim] at hcall
      rw [List.head?_append_of_ne_nil rest hrest] at hblank
      rw [if_neg hcall, if_pos hblank, htrim, hname, Option.map_some, hparameters, hend]
    · simp at h

/-- A text that is cut off behind its boundary, or in place of it, is read up to the cut as it was
before. -/
theorem Reads.of_append {u v name r : Text} {hasModifiers : Bool} (hparen : v.head? ≠ some '(')
    (hcolon : v.head? ≠ some ':') (h : Reads (u ++ v) hasModifiers name (r ++ v)) :
    Reads u hasModifiers name r := by
  obtain ⟨declared, typed, suffixed, after, hdeclared, htyped, hsuffixed, hafter, hname⟩ := h
  -- every stage hands on a text that ends in `v`
  obtain ⟨after, rfl, -⟩ := exists_eq_append (named?_suffix hname)
  obtain ⟨suffixed, rfl, -⟩ := exists_eq_append (afterSuffixes?_suffix hafter)
  obtain ⟨typed, rfl, -⟩ := exists_eq_append (afterType?_suffix hsuffixed)
  have hkeywords := Text.dropKeywords_suffix memberModifiers declared
  rw [htyped] at hkeywords
  obtain ⟨declared, rfl, -⟩ := exists_eq_append hkeywords
  obtain ⟨s, hs, -⟩ := exists_eq_append (afterAttributes?_suffix hdeclared)
  have htrim := (trimStart_continues u v).cancel hs
  obtain ⟨htype, hne⟩ := afterType?_cancel hcolon hsuffixed
  rw [hs] at hdeclared
  exact ⟨declared, typed, suffixed, after, htrim ▸ afterAttributes?_cancel hdeclared,
    dropKeywords_cancel htyped, htype, afterSuffixes?_cancel hafter,
    named?_cancel hne hparen hname⟩

end CSharpOutline.Head
