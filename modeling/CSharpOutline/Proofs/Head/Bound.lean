import CSharpOutline.Member.Head
import CSharpOutline.Proofs.Code.Gap

/-!
# The text at the boundary of a head

A head gives its boundary by an offset. Read from left to right, the boundary is instead the part
of the text that is left once the name has been read: a suffix that the parts of the parser hand on
to each other. `Head.boundaryAt?` is the parser in this form, with all offsets left out, and
`parse?_boundary` says that the two agree.

Two answers count as failures of a different kind. No suffix means that the text declares no
member, whatever may follow. The empty suffix means that the text ended first, and more of it may
still show anything; a type that is cut short in a rank or a group ends the text in this sense too.
Every part of the parser hands the empty suffix on.
-/

namespace CSharpOutline.Text

/-! ## Readers of texts -/

theorem dropKeywords_of_some {keywords : List Text} {t rest : Text}
    (h : afterKeyword? keywords t = some rest) :
    dropKeywords keywords t = (true, (dropKeywords keywords rest).2) := by
  rw [dropKeywords]
  split
  · next hnone =>
    rw [hnone] at h
    exact absurd h (by simp)
  · next r hr =>
    rw [hr, Option.some.injEq] at h
    rw [h]

theorem dropKeywords_of_none {keywords : List Text} {t : Text}
    (h : afterKeyword? keywords t = none) : dropKeywords keywords t = (false, t) := by
  rw [dropKeywords]
  split
  · rfl
  · next r hr =>
    rw [h] at hr
    exact absurd hr (by simp)

theorem length_trimStart_eq_iff {t : Text} (h : t ≠ []) :
    (trimStart t).length = t.length ↔ t.head?.any isBlank = false := by
  obtain ⟨c, t, rfl⟩ := List.exists_cons_of_ne_nil h
  by_cases hc : isBlank c = true
  · have hle := length_trimStart_le t
    have heq : trimStart (c :: t) = trimStart t := by
      rw [trimStart, List.dropWhile_cons, if_pos hc, trimStart]
    rw [heq, List.length_cons]
    simp [hc]
    omega
  · have heq : trimStart (c :: t) = c :: t := trimStart_of_head (by simpa using hc)
    rw [heq]
    simpa using hc

theorem after?_suffix {c : Char} {t r : Text} (h : after? c t = some r) : r <:+ t := by
  obtain ⟨before, -, rfl⟩ := after?_eq_some_iff.mp h
  exact ⟨before ++ [c], by simp⟩

theorem skipBlanks?_suffix {t r : Text} (h : skipBlanks? t = some r) : r <:+ t := by
  cases t with
  | nil => simp [skipBlanks?] at h
  | cons c t =>
    rw [skipBlanks?] at h
    split at h
    · rw [← Option.some.inj h]
      exact (trimStart_suffix t).trans (List.suffix_cons _ _)
    · simp at h

theorem afterKeyword?_suffix {keywords : List Text} {t r : Text}
    (h : afterKeyword? keywords t = some r) : r <:+ t := by
  rw [afterKeyword?] at h
  split at h
  · exact (skipBlanks?_suffix h).trans (List.dropWhile_suffix _)
  · simp at h

theorem dropKeywords_suffix (keywords : List Text) (t : Text) :
    (dropKeywords keywords t).2 <:+ t := by
  fun_induction dropKeywords keywords t with
  | case1 t _ => exact List.suffix_refl _
  | case2 t rest hrest ih => exact ih.trans (afterKeyword?_suffix hrest)

end CSharpOutline.Text

namespace CSharpOutline.Head

def unmarked (t : Text) : Text :=
  match t with
  | '@' :: r => r
  | _ => t

/-- What follows the suffixes of a type. The text ends with a rank that is not closed. -/
def suffixEnd (t : Text) : Text := (afterSuffixes? t).getD []

def parametersEnd (t : Text) : Text := if t.head? = some '<' then t.afterGroup else t

/-- What follows the name, when `rest` follows the type: the boundary, if the text goes on. A name
that stands directly after a type which is no tuple is part of it, so there is none. -/
def nameEnd? (isTuple : Bool) (rest : Text) : Option Text :=
  let named := rest.trimStart
  if named.isEmpty then some []
  else if !isTuple ∧ named.head? = some '(' then some named
  else if (unmarked named).head?.any isNamePart ∧ (isTuple ∨ rest.head?.any isBlank) then
    some (parametersEnd ((unmarked named).dropWhile isNamePart)).trimStart
  else none

/-- What follows the type and the name at the start of `typed`. -/
def typedEnd? (typed : Text) : Option Text :=
  if typed.isEmpty then some []
  else if typed.head? = some '(' then nameEnd? true (suffixEnd typed.afterGroup)
  else (afterTypeName? typed).bind fun rest ↦ nameEnd? false (suffixEnd rest)

/-- What follows the modifiers, the type and the name at the start of a text. -/
def declaredEnd? (t : Text) : Option Text := typedEnd? (Text.dropKeywords memberModifiers t).2

/-- The text from the boundary on: empty if the text ends before its boundary. -/
def boundaryAt? (text : Text) : Option Text :=
  (afterAttributes? text.trimStart).bind declaredEnd?

theorem unmarked_of_ne {t : Text} (h : ∀ r, t ≠ '@' :: r) : unmarked t = t := by
  unfold unmarked
  split
  · next r => exact absurd rfl (h r)
  · rfl

@[simp] theorem suffixEnd_nil : suffixEnd [] = [] := by
  rw [suffixEnd, afterSuffixes?]
  rfl

theorem suffixEnd_angle (t : Text) :
    suffixEnd ('<' :: t) = suffixEnd (Text.afterGroup ('<' :: t)) := by
  rw [suffixEnd, afterSuffixes?, dif_pos rfl, suffixEnd]

theorem suffixEnd_mark {c : Char} (hc : c = '?' ∨ c = '*') (t : Text) :
    suffixEnd (c :: t) = suffixEnd t := by
  have hne : ¬c = '<' := by rcases hc with rfl | rfl <;> decide
  rw [suffixEnd, afterSuffixes?, dif_neg hne, if_pos hc, suffixEnd]

theorem suffixEnd_rank (t : Text) :
    suffixEnd ('[' :: t) = ((Text.after? ']' t).map suffixEnd).getD [] := by
  rw [suffixEnd, afterSuffixes?, dif_neg (by decide), if_neg (by decide), if_pos rfl]
  split
  · next h => rw [h]; rfl
  · next h => rw [h]; rfl

theorem afterSuffixes?_other {c : Char} (hc : c ∉ ['<', '?', '*', '[']) (t : Text) :
    afterSuffixes? (c :: t) = some (c :: t) := by
  simp only [List.mem_cons, List.not_mem_nil, or_false, not_or] at hc
  obtain ⟨h₁, h₂, h₃, h₄⟩ := hc
  rw [afterSuffixes?, dif_neg h₁, if_neg (not_or.mpr ⟨h₂, h₃⟩), if_neg h₄]

theorem suffixEnd_other {c : Char} (hc : c ∉ ['<', '?', '*', '[']) (t : Text) :
    suffixEnd (c :: t) = c :: t := by
  rw [suffixEnd, afterSuffixes?_other hc, Option.getD_some]

@[simp] theorem nameEnd?_nil (isTuple : Bool) : nameEnd? isTuple [] = some [] := by
  cases isTuple <;> rfl

theorem typedEnd?_cons {c : Char} (hc : c ≠ '(') (t : Text) :
    typedEnd? (c :: t) =
      (afterTypeName? (c :: t)).bind fun rest ↦ nameEnd? false (suffixEnd rest) := by
  rw [typedEnd?, if_neg (by simp), if_neg (by simpa using hc)]

theorem typedEnd?_paren (t : Text) :
    typedEnd? ('(' :: t) = nameEnd? true (suffixEnd (Text.afterGroup ('(' :: t))) := by
  rw [typedEnd?, if_neg (by simp), if_pos (by simp)]

theorem declaredEnd?_of_keyword {t rest : Text}
    (h : Text.afterKeyword? memberModifiers t = some rest) :
    declaredEnd? t = declaredEnd? rest := by
  rw [declaredEnd?, Text.dropKeywords_of_some h, declaredEnd?]

theorem declaredEnd?_of_none {t : Text} (h : Text.afterKeyword? memberModifiers t = none) :
    declaredEnd? t = typedEnd? t := by
  rw [declaredEnd?, Text.dropKeywords_of_none h]

@[simp] theorem declaredEnd?_nil : declaredEnd? [] = some [] := by
  rw [declaredEnd?_of_none (by decide)]
  rfl

theorem afterAttributes?_cons_of_ne {c : Char} (hc : c ≠ '[') (t : Text) :
    afterAttributes? (c :: t) = some (c :: t) := by
  rw [afterAttributes?]
  simpa using hc

theorem afterAttributes?_bracket (t : Text) :
    afterAttributes? ('[' :: t) =
      (Text.after? ']' t).bind fun rest ↦ afterAttributes? rest.trimStart := by
  rw [afterAttributes?]
  split
  · next h => rw [h]; rfl
  · next h => rw [h]; rfl

@[simp] theorem afterAttributes?_nil : afterAttributes? [] = some [] := by
  rw [afterAttributes?]
  simp

/-! ## Agreement with the parser

The offsets of a head are differences of lengths, so the parser and its form without offsets read
the same suffixes stage by stage. -/

theorem afterTypeName?_eq (t : Text) :
    afterTypeName? t =
      if (afterQualified (unmarked t)).length < (unmarked t).length
      then some (afterQualified (unmarked t)) else none := rfl

theorem map_snd_name? (p : Char → Bool) (t : Text) :
    (Text.name? p t).map Prod.snd =
      if (unmarked t).head?.any p then some ((unmarked t).dropWhile p) else none := by
  unfold Text.name?
  split
  next mark body heq =>
    have hbody : body = unmarked t := by
      split at heq
      · exact (Prod.mk.inj heq).2.symm
      · next hne => rw [unmarked_of_ne hne, (Prod.mk.inj heq).2]
    rw [← hbody]
    cases body with
    | nil => rfl
    | cons c body => by_cases hc : p c = true <;> simp [hc]

private theorem ofType?_boundary (text typed rest : Text) (isTuple hasModifiers : Bool) :
    (ofType? text typed rest isTuple hasModifiers).map (fun h ↦ (h.boundary, h.boundaryStart)) =
      (nameEnd? isTuple rest).bind fun r ↦
        (Boundary.read? r).map fun b ↦ (b, text.length - r.length) := by
  have hsnd := map_snd_name? isNamePart rest.trimStart
  rw [ofType?, nameEnd?]
  by_cases hnil : rest.trimStart = []
  · cases isTuple <;> simp [hnil, Text.name?, incomplete, Boundary.read?]
  · have hempty : ¬List.isEmpty rest.trimStart = true := by simpa using hnil
    have hrest : rest ≠ [] := by
      rintro rfl
      exact hnil rfl
    rw [if_neg hempty, if_neg hempty]
    by_cases hparen : (!isTuple) = true ∧ rest.trimStart.head? = some '('
    · rw [if_pos hparen, if_pos hparen]
      obtain ⟨t, ht⟩ : ∃ t, rest.trimStart = '(' :: t := by
        cases hr : rest.trimStart with
        | nil => exact absurd hr hnil
        | cons c t => exact ⟨t, by simpa [hr] using hparen.2⟩
      rw [ht]
      rfl
    · rw [if_neg hparen, if_neg hparen]
      cases hname : Text.name? isNamePart rest.trimStart with
      | none =>
        rw [hname, Option.map_none] at hsnd
        split at hsnd
        · simp at hsnd
        · next hp => simp [hp]
      | some p =>
        obtain ⟨name, afterName⟩ := p
        rw [hname, Option.map_some] at hsnd
        split at hsnd
        · next hp =>
          obtain rfl : afterName = _ := Option.some.inj hsnd
          simp only [Text.length_trimStart_eq_iff hrest, hp, true_and]
          by_cases hglued : isTuple = true ∨ rest.head?.any isBlank = true
          · rw [if_pos hglued, if_neg (by grind), ofName?, Option.map_map]
            rfl
          · rw [if_neg hglued, if_pos (by grind)]
            rfl
        · simp at hsnd

/-- The type is read first, as a tuple or by its name. -/
theorem typedEnd?_eq_bind {typed : Text} (h : ¬typed.isEmpty = true) :
    typedEnd? typed =
      (if typed.head? == some '(' then some typed.afterGroup else afterTypeName? typed).bind
        fun rest ↦ nameEnd? (typed.head? == some '(') (suffixEnd rest) := by
  rw [typedEnd?, if_neg h]
  by_cases htuple : typed.head? = some '('
  · simp [htuple]
  · have hbeq : (typed.head? == some '(') = false := by simpa using htuple
    rw [if_neg htuple, hbeq]
    rfl

/-- The parser finds the boundary at the end of the suffix that `boundaryAt?` leaves. -/
theorem parse?_boundary (text : Text) :
    (parse? text).map (fun h ↦ (h.boundary, h.boundaryStart)) =
      (boundaryAt? text).bind fun r ↦
        (Boundary.read? r).map fun b ↦ (b, text.length - r.length) := by
  rw [parse?, boundaryAt?]
  cases afterAttributes? text.trimStart with
  | none => rfl
  | some declared =>
    rw [Option.bind_some, declaredEnd?]
    dsimp only
    generalize (Text.dropKeywords memberModifiers declared).1 = hasModifiers
    generalize (Text.dropKeywords memberModifiers declared).2 = typed
    by_cases hnil : typed.isEmpty = true
    · rw [if_pos hnil, typedEnd?, if_pos hnil]
      rfl
    · rw [if_neg hnil, typedEnd?_eq_bind hnil]
      generalize (typed.head? == some '(') = isTuple
      cases if isTuple then some typed.afterGroup else afterTypeName? typed with
      | none => rfl
      | some suffixed =>
        rw [Option.bind_some, suffixEnd]
        dsimp only
        cases afterSuffixes? suffixed with
        | none =>
          rw [Option.getD_none, nameEnd?_nil]
          rfl
        | some rest => exact ofType?_boundary ..

/-! ## Suffixes

Each part of the parser leaves a suffix of what it is given. -/

theorem afterQualified_suffix (t : Text) : afterQualified t <:+ t := by
  fun_induction afterQualified t with
  | case1 => exact List.suffix_refl _
  | case2 t ih => exact ih.trans ⟨[':', ':'], rfl⟩
  | case3 c t _ _ ih => exact ih.trans (List.suffix_cons _ _)
  | case4 => exact List.suffix_refl _

theorem unmarked_suffix (t : Text) : unmarked t <:+ t := by
  unfold unmarked
  split
  · exact List.suffix_cons _ _
  · exact List.suffix_refl _

theorem afterTypeName?_suffix {t r : Text} (h : afterTypeName? t = some r) : r <:+ t := by
  rw [afterTypeName?_eq] at h
  split at h
  · rw [← Option.some.inj h]
    exact (afterQualified_suffix _).trans (unmarked_suffix t)
  · simp at h

theorem afterSuffixes?_suffix {t r : Text} (h : afterSuffixes? t = some r) : r <:+ t := by
  fun_induction afterSuffixes? t generalizing r with
  | case1 => exact Option.some.inj h ▸ List.suffix_refl _
  | case2 t ih => exact (ih h).trans (Text.afterGroup_suffix _)
  | case3 c t _ _ ih => exact (ih h).trans (List.suffix_cons _ _)
  | case4 => simp at h
  | case5 t rest hrest _ _ ih =>
    exact ((ih h).trans (Text.after?_suffix hrest)).trans (List.suffix_cons _ _)
  | case6 => exact Option.some.inj h ▸ List.suffix_refl _

theorem suffixEnd_suffix (t : Text) : suffixEnd t <:+ t := by
  rw [suffixEnd]
  cases h : afterSuffixes? t with
  | none => exact List.nil_suffix
  | some r => exact afterSuffixes?_suffix h

theorem parametersEnd_suffix (t : Text) : parametersEnd t <:+ t := by
  rw [parametersEnd]
  split
  · exact Text.afterGroup_suffix t
  · exact List.suffix_refl _

theorem nameEnd?_suffix_trimStart {isTuple : Bool} {t r : Text} (h : nameEnd? isTuple t = some r) :
    r <:+ t.trimStart := by
  rw [nameEnd?] at h
  split at h
  · rw [← Option.some.inj h]
    exact List.nil_suffix
  · split at h
    · exact Option.some.inj h ▸ List.suffix_refl _
    · split at h
      · rw [← Option.some.inj h]
        refine (Text.trimStart_suffix _).trans ((parametersEnd_suffix _).trans ?_)
        exact (List.dropWhile_suffix _).trans (unmarked_suffix _)
      · simp at h

theorem nameEnd?_suffix {isTuple : Bool} {t r : Text} (h : nameEnd? isTuple t = some r) :
    r <:+ t :=
  (nameEnd?_suffix_trimStart h).trans (Text.trimStart_suffix t)

theorem typedEnd?_suffix {t r : Text} (h : typedEnd? t = some r) : r <:+ t := by
  rw [typedEnd?] at h
  split at h
  · rw [← Option.some.inj h]
    exact List.nil_suffix
  · split at h
    · exact (nameEnd?_suffix h).trans ((suffixEnd_suffix _).trans (Text.afterGroup_suffix t))
    · obtain ⟨rest, hrest, h⟩ := Option.bind_eq_some_iff.mp h
      exact (nameEnd?_suffix h).trans ((suffixEnd_suffix _).trans (afterTypeName?_suffix hrest))

theorem afterAttributes?_suffix {t r : Text} (h : afterAttributes? t = some r) : r <:+ t := by
  fun_induction afterAttributes? t generalizing r with
  | case1 => simp at h
  | case2 t rest hrest ih =>
    exact (((ih h).trans (Text.trimStart_suffix _)).trans (Text.after?_suffix hrest)).trans
      (List.suffix_cons _ _)
  | case3 => exact Option.some.inj h ▸ List.suffix_refl _

theorem declaredEnd?_suffix {t r : Text} (h : declaredEnd? t = some r) : r <:+ t :=
  (typedEnd?_suffix h).trans (Text.dropKeywords_suffix _ t)

theorem boundaryAt?_suffix {t r : Text} (h : boundaryAt? t = some r) : r <:+ t := by
  obtain ⟨declared, hdeclared, h⟩ := Option.bind_eq_some_iff.mp h
  exact (((typedEnd?_suffix h).trans (Text.dropKeywords_suffix _ _)).trans
    (afterAttributes?_suffix hdeclared)).trans (Text.trimStart_suffix t)

/-- A head that has been parsed is that of the text at its boundary. -/
theorem exists_boundaryAt_of_parse? {text : Text} {h : Head} (hparse : parse? text = some h) :
    ∃ r, boundaryAt? text = some r ∧ Boundary.read? r = some h.boundary ∧
      h.boundaryStart = text.length - r.length := by
  have heq := parse?_boundary text
  rw [hparse, Option.map_some, eq_comm] at heq
  obtain ⟨r, hr, hread⟩ := Option.bind_eq_some_iff.mp heq
  obtain ⟨b, hb, hfields⟩ := Option.map_eq_some_iff.mp hread
  obtain ⟨rfl, hstart⟩ := Prod.mk.inj hfields
  exact ⟨r, hr, hb, hstart.symm⟩

end CSharpOutline.Head
