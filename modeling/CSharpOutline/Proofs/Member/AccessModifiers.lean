import CSharpOutline.Member.Method
import CSharpOutline.Proofs.Head.Parts
import CSharpOutline.Proofs.Head.Places
import CSharpOutline.Proofs.Head.Squeeze

/-!
# Leaving out the access modifiers

The signature that is shown of a member is its text without the access modifiers in front. One
reader takes them off, while the parser of heads skips them among the other modifiers, behind the
attributes. The parser finds in the shorter text what it finds in the whole, only earlier
(`Text.withoutAccess_keeps`).

What is taken off are blanks and keywords, each with blanks behind it (`Text.withoutAccess_cases`).
Such a text ends no parameter list and opens no body, so it does not matter to the question whether
a signature is a method's (`Text.endsWithParameters_append`).
-/

namespace CSharpOutline

open Written

/-! ## Keywords in front of a text -/

theorem Text.head?_any_trimStart (t : Text) : (trimStart t).head?.any isBlank = false := by
  rw [Option.any_eq_false]
  exact fun c hc ↦ head?_trimStart hc

namespace Written

variable {keywords : List Text}

/-- What is dropped from a text are keywords that are written in front of the rest. -/
theorem exists_keywords {t : Text} (ht : t.head?.any isBlank = false) :
    ∃ ks : List (Keyword keywords),
      t = ks.flatMap Keyword.text ++ (Text.dropKeywords keywords t).2 ∧
        (Text.dropKeywords keywords t).1 = !ks.isEmpty ∧
        (Text.dropKeywords keywords t).2.head?.any isBlank = false ∧
        Text.afterKeyword? keywords (Text.dropKeywords keywords t).2 = none := by
  fun_induction Text.dropKeywords keywords t with
  | case1 t hnone => exact ⟨[], rfl, rfl, ht, hnone⟩
  | case2 t rest hrest ih =>
    obtain ⟨k, c, r, hk, -, hc, rfl, rfl⟩ := Text.afterKeyword?_eq_some_iff.mp hrest
    obtain ⟨b, hb, hr⟩ := Text.exists_eq_append_trimStart r
    obtain ⟨ks, hks, -, hvisible, hnone⟩ := ih (Text.head?_any_trimStart r)
    have hblanks : Text.allBlank (c :: b) = true := by
      rw [Text.allBlank_cons, hc, hb, Bool.and_self]
    refine ⟨⟨k, hk, ⟨c :: b, hblanks⟩, List.cons_ne_nil c b⟩ :: ks, ?_, rfl, hvisible, hnone⟩
    rw [List.flatMap_cons, List.append_assoc, ← hks, Keyword.text, List.append_assoc,
      List.cons_append, ← hr]

theorem not_mem_blanks (b : Blanks) {c : Char} (hc : isBlank c = false) : c ∉ b.1 := by
  intro hmem
  rw [Text.allBlank_iff.mp b.2 c hmem] at hc
  exact absurd hc (by decide)

/-- An access modifier is a modifier of members. -/
def Keyword.ofAccess (k : Keyword accessModifiers) : Keyword memberModifiers :=
  { k with mem := List.mem_append_left _ k.mem }

private theorem flatMap_ofAccess (ks : List (Keyword accessModifiers)) :
    (ks.map Keyword.ofAccess).flatMap Keyword.text = ks.flatMap Keyword.text := by
  rw [List.flatMap_map]
  rfl

private theorem not_mem_keywords (ks : List (Keyword accessModifiers)) {c : Char}
    (hblank : isBlank c = false) (hword : isWord c = false) : c ∉ ks.flatMap Keyword.text := by
  intro hmem
  obtain ⟨k, -, hk⟩ := List.mem_flatMap.mp hmem
  rcases List.mem_append.mp hk with hin | hin
  · have hmember : k.word ∈ memberModifiers := List.mem_append_left _ k.mem
    rw [Head.isWord_of_mem_keyword hmember hin] at hword
    exact absurd hword (by decide)
  · exact not_mem_blanks k.blanks hblank hin

end Written

namespace Text

/-! ## What is taken off

Either nothing is taken off, or blanks and access modifiers up to a visible character. All of them
are taken off at once, so doing it again changes nothing. -/

/-- Either nothing is taken off, or blanks and access modifiers up to a visible character. -/
theorem withoutAccess_cases (t : Text) :
    t.withoutAccess = t ∨
      ∃ (b : Blanks) (ks : List (Keyword accessModifiers)), ks ≠ [] ∧
        t = b.1 ++ (ks.flatMap Keyword.text ++ t.withoutAccess) ∧
        t.withoutAccess.head?.any isBlank = false ∧
        afterKeyword? accessModifiers t.withoutAccess = none := by
  obtain ⟨b, hb, ht⟩ := exists_eq_append_trimStart t
  obtain ⟨ks, hks, hfound, hvisible, hnone⟩ :
      ∃ ks : List (Keyword accessModifiers), _ := exists_keywords (head?_any_trimStart t)
  rw [withoutAccess]
  split
  · next rest hdrop =>
    rw [hdrop] at hks hfound hvisible hnone
    refine .inr ⟨⟨b, hb⟩, ks, ?_, ?_, hvisible, hnone⟩
    · rintro rfl
      exact absurd hfound (by simp)
    · rw [← hks]
      exact ht
  · exact .inl rfl

private theorem withoutAccess_suffix (t : Text) : t.withoutAccess <:+ t := by
  rcases withoutAccess_cases t with heq | ⟨b, ks, -, heq, -⟩
  · exact ⟨[], heq⟩
  · exact ⟨b.1 ++ ks.flatMap Keyword.text, by rw [List.append_assoc, ← heq]⟩

private theorem withoutAccess_withoutAccess (t : Text) :
    t.withoutAccess.withoutAccess = t.withoutAccess := by
  rcases withoutAccess_cases t with heq | ⟨-, -, -, -, hvisible, hnone⟩
  · rw [heq, heq]
  · have htrim : trimStart t.withoutAccess = t.withoutAccess := dropWhile_of_head hvisible
    conv => lhs; rw [withoutAccess, htrim, Text.dropKeywords_of_none hnone]

end Text

/-! ## The head of what is left -/

/-- The head `h` stands in a text where `h'` stands after its first `k` characters are taken off. -/
structure Head.IsBehind (k : Nat) (h h' : Head) : Prop where
  name : h.name = h'.name
  nameStart : h.nameStart = h'.nameStart + k
  boundary : h.boundary = h'.boundary
  boundaryStart : h.boundaryStart = h'.boundaryStart + k

namespace Head

private theorem isBehind_ofShown {front text : Text} {shown : Option NamedPart}
    (hshown : ∀ p, shown = some p → p.IsPlaced ∧ p.text <:+ text) (m m' : Bool) :
    IsBehind front.length (ofShown (front ++ text) m shown) (ofShown text m' shown) := by
  cases shown with
  | none =>
    refine ⟨rfl, ?_, rfl, ?_⟩
    all_goals
      dsimp only [ofShown, incomplete]
      rw [List.length_append, Nat.add_comm]
  | some p =>
    obtain ⟨hplaced, hsuffix⟩ := hshown p rfl
    obtain ⟨between, hname⟩ := hplaced.name
    have htext := hsuffix.length_le
    have hrest : p.rest.length ≤ p.text.length := by
      rw [hname, List.length_append, List.length_append]
      omega
    refine ⟨rfl, ?_, rfl, ?_⟩
    all_goals
      dsimp only [ofShown]
      rw [List.length_append]
      omega

/-- Neither a modifier nor a type starts with a bracket. -/
theorem shown?_bracket (t : Text) :
    shown? (Text.dropKeywords memberModifiers ('[' :: t)).2 = none := by
  have htype : afterTypeName? ('[' :: t) = none := by
    have hname : isNamePart '[' = false := by decide
    simp [afterTypeName?, afterQualified, hname]
  have hword : ('[' :: t).head?.any isWord = false := rfl
  rw [Text.dropKeywords_of_none (afterKeyword?_of_head hword), shown?, if_neg (by simp), afterType?,
    if_neg (by simp), htype]
  rfl

/-- Behind a modifier no attributes are read. -/
theorem parse?_keywords (b : Blanks) {ks : List (Keyword memberModifiers)} (hne : ks ≠ [])
    {r : Text} (hr : r.head?.any isBlank = false) :
    parse? (b.1 ++ (ks.flatMap Keyword.text ++ r)) =
      (shown? (Text.dropKeywords memberModifiers r).2).map
        (ofShown (b.1 ++ (ks.flatMap Keyword.text ++ r)) true) := by
  have hbracket : (ks.flatMap Keyword.text ++ r).head? ≠ some '[' := by
    obtain ⟨k, ks, rfl⟩ := List.exists_cons_of_ne_nil hne
    have hne (c : Char) (hc : isWord c = true) : (c == '[') = false := by
      refine beq_eq_false_iff_ne.mpr ?_
      rintro rfl
      exact absurd hc (by decide)
    intro hhead
    have hword := head?_keyword areWords_memberModifiers k hne (ks.flatMap Keyword.text ++ r)
    rw [← List.append_assoc, ← List.flatMap_cons, hhead] at hword
    exact absurd hword (by decide)
  rw [parse?_eq_shown?, trimStart_blanks, trimStart_keywords areWords_memberModifiers ks hr,
    afterAttributes?_of_head hbracket, Option.bind_some,
    dropKeywords_append_keywords areWords_memberModifiers ks hr, List.isEmpty_eq_false_iff.mpr hne]
  rfl

private theorem exists_parse?_withoutAccess {t : Text} {h : Head} (hparse : parse? t = some h) :
    ∃ h', parse? t.withoutAccess = some h' ∧
      IsBehind (t.length - t.withoutAccess.length) h h' := by
  rcases Text.withoutAccess_cases t with heq | ⟨b, ks, hne, heq, hvisible, -⟩
  · refine ⟨h, by rw [heq, hparse], ?_⟩
    rw [heq, Nat.sub_self]
    exact ⟨rfl, rfl, rfl, rfl⟩
  · generalize t.withoutAccess = r at heq hvisible ⊢
    subst heq
    rw [← flatMap_ofAccess] at hparse ⊢
    have hne' : ks.map Keyword.ofAccess ≠ [] := by simpa using hne
    rw [parse?_keywords b hne' hvisible, Option.map_eq_some_iff] at hparse
    obtain ⟨shown, hshown, rfl⟩ := hparse
    have hbracket : r.head? ≠ some '[' := by
      intro hhead
      obtain ⟨r, rfl⟩ := List.head?_eq_some_iff.mp hhead
      rw [shown?_bracket] at hshown
      exact absurd hshown (by simp)
    have htrim : Text.trimStart r = r := Text.dropWhile_of_head hvisible
    refine ⟨ofShown r (Text.dropKeywords memberModifiers r).1 shown, ?_, ?_⟩
    · rw [parse?_eq_shown?, htrim, afterAttributes?_of_head hbracket, Option.bind_some, hshown]
      rfl
    · rw [← List.append_assoc, List.length_append, Nat.add_sub_cancel]
      refine isBehind_ofShown (fun p hp ↦ ?_) _ _
      rw [hp] at hshown
      obtain ⟨hplaced, hsuffix⟩ := isPlaced_of_shown? hshown
      exact ⟨hplaced, hsuffix.trans (Text.dropKeywords_suffix _ r)⟩

end Head

/-! ## The question for a parameter list

A text in front in which no parenthesis is closed and no brace stands holds no clause of its own and
ends no signature. -/

namespace Text

private theorem hasConstraintAfterParen_append {front : Text} (hparen : ')' ∉ front) (t : Text) :
    (front ++ t).hasConstraintAfterParen = t.hasConstraintAfterParen := by
  induction front with
  | nil => rfl
  | cons c front ih =>
    rw [List.mem_cons, not_or] at hparen
    rw [List.cons_append, hasConstraintAfterParen, ih hparen.2,
      beq_eq_false_iff_ne.mpr (Ne.symm hparen.1), Bool.false_and, Bool.false_or]

/-- Only characters of `s` and blanks stand in `front`. -/
def IsFrontOf (front s : Text) : Prop := ∀ c ∈ front, c ∈ s ∨ isBlank c = true

theorem IsFrontOf.not_mem {front s : Text} (h : IsFrontOf front s) {c : Char}
    (hc : isBlank c = false) (hs : c ∉ s) : c ∉ front := by
  intro hmem
  rcases h c hmem with hin | hblank
  · exact hs hin
  · exact absurd (hc.symm.trans hblank) (by decide)

theorem exists_trimEnd_append (s t : Text) :
    ∃ front, front <+: s ∧ trimEnd (s ++ t) = front ++ trimEnd t := by
  obtain ⟨e, he, ht⟩ := exists_eq_trimEnd_append t
  have htrim : trimEnd (s ++ t) = trimEnd (s ++ trimEnd t) := by
    conv => lhs; rw [ht, ← List.append_assoc, trimEnd_append_allBlank _ he]
  by_cases hnil : trimEnd t = []
  · obtain ⟨e, -, hs⟩ := exists_eq_trimEnd_append s
    refine ⟨trimEnd s, ⟨e, hs.symm⟩, ?_⟩
    rw [htrim, hnil, List.append_nil, List.append_nil]
  · refine ⟨s, List.prefix_refl s, ?_⟩
    rw [htrim, trimEnd_of_last fun c hc ↦ ?_]
    rw [List.getLast?_append_of_ne_nil s hnil] at hc
    exact getLast?_trimEnd hc

private theorem exists_trim_append (s t : Text) :
    ∃ front, IsFrontOf front s ∧ trim (s ++ t) = front ++ trim t := by
  obtain ⟨b, hb, ht⟩ := exists_eq_append_trimStart t
  by_cases hnil : trimStart s = []
  · refine ⟨[], fun c hc ↦ absurd hc List.not_mem_nil, ?_⟩
    rw [trim, trimStart_allBlank_append (trimStart_eq_nil_iff.mp hnil)]
    rfl
  · obtain ⟨front, hfront, htrim⟩ := exists_trimEnd_append (trimStart s ++ b) (trimStart t)
    refine ⟨front, fun c hc ↦ ?_, ?_⟩
    · rcases List.mem_append.mp (hfront.subset hc) with hs | hblank
      · exact .inl ((trimStart_suffix s).subset hs)
      · exact .inr (allBlank_iff.mp hb c hblank)
    · rw [List.append_assoc, ← ht, ← trim] at htrim
      rw [trim, trimStart_append_of_ne_nil hnil, htrim]

private theorem exists_withoutBodyBrace_append {s : Text} (hbrace : '{' ∉ s) (t : Text) :
    ∃ front, IsFrontOf front s ∧ withoutBodyBrace (s ++ t) = front ++ withoutBodyBrace t := by
  obtain ⟨front, hfront, htrim⟩ := exists_trim_append s t
  rw [withoutBodyBrace, withoutBodyBrace, htrim]
  by_cases hnil : trim t = []
  · refine ⟨front, hfront, ?_⟩
    have hlast : ¬(front ++ []).getLast? = some '{' := by
      rw [List.append_nil]
      exact fun h ↦ hfront.not_mem (by decide) hbrace (List.mem_of_getLast? h)
    rw [hnil, if_neg hlast, if_neg (by simp)]
  · rw [List.getLast?_append_of_ne_nil front hnil]
    split
    · obtain ⟨front', hfront', hend⟩ := exists_trimEnd_append front (trim t).dropLast
      refine ⟨front', fun c hc ↦ hfront c (hfront'.subset hc), ?_⟩
      rw [List.dropLast_append_of_ne_nil hnil, hend]
    · exact ⟨front, hfront, rfl⟩

theorem endsWithParameters_append {s : Text} (hparen : ')' ∉ s) (hbrace : '{' ∉ s) (t : Text) :
    (s ++ t).endsWithParameters = t.endsWithParameters := by
  obtain ⟨front, hfront, hbody⟩ := exists_withoutBodyBrace_append hbrace t
  have hparen' : ')' ∉ front := hfront.not_mem (by decide) hparen
  rw [endsWithParameters, endsWithParameters, hbody, hasConstraintAfterParen_append hparen']
  by_cases hnil : withoutBodyBrace t = []
  · have hlast : front.getLast? ≠ some ')' := fun h ↦ hparen' (List.mem_of_getLast? h)
    rw [hnil, List.append_nil, beq_eq_false_iff_ne.mpr hlast]
    rfl
  · rw [List.getLast?_append_of_ne_nil front hnil]

private theorem endsWithParameters_withoutAccess (t : Text) :
    t.withoutAccess.endsWithParameters = t.endsWithParameters := by
  rcases withoutAccess_cases t with heq | ⟨b, ks, -, heq, -⟩
  · rw [heq]
  · have hmark {c : Char} (hblank : isBlank c = false) (hword : isWord c = false) :
        c ∉ b.1 ++ ks.flatMap Keyword.text := by
      rw [List.mem_append, not_or]
      exact ⟨not_mem_blanks b hblank, not_mem_keywords ks hblank hword⟩
    conv => rhs; rw [heq, ← List.append_assoc]
    exact (endsWithParameters_append (hmark (by decide) (by decide))
      (hmark (by decide) (by decide)) _).symm

/-- Leaving out the access modifiers of a declaration keeps all that is read of it: the text is cut
at the end of the modifiers, the same name and boundary stand in what is left, and it is a method's
signature if it was one before. -/
theorem withoutAccess_keeps {t : Text} {h : Head} (hparse : Head.parse? t = some h) :
    t.drop (t.length - t.withoutAccess.length) = t.withoutAccess ∧
      (∃ h', Head.parse? t.withoutAccess = some h' ∧
        h.IsBehind (t.length - t.withoutAccess.length) h') ∧
      t.withoutAccess.withoutAccess = t.withoutAccess ∧
      t.withoutAccess.endsWithParameters = t.endsWithParameters :=
  ⟨List.suffix_iff_eq_drop.mp (withoutAccess_suffix t) |>.symm,
    Head.exists_parse?_withoutAccess hparse, withoutAccess_withoutAccess t,
    endsWithParameters_withoutAccess t⟩

theorem withoutAccess_keeps_method :
    withoutAccess "  protected internal\tstatic Task<int> Load(int id) \x7b".toList =
        "static Task<int> Load(int id) \x7b".toList ∧
      ∃ h', Head.parse? "static Task<int> Load(int id) \x7b".toList = some h' ∧
        Head.IsBehind 21 ⟨"Load".toList, 38, some .parameters, 42, true⟩ h' := by
  have hparse : Head.parse? "  protected internal\tstatic Task<int> Load(int id) \x7b".toList =
      some ⟨"Load".toList, 38, some .parameters, 42, true⟩ := by
    decide +kernel
  have haccess : withoutAccess "  protected internal\tstatic Task<int> Load(int id) \x7b".toList =
      "static Task<int> Load(int id) \x7b".toList := by
    decide +kernel
  obtain ⟨-, hkept, -⟩ := withoutAccess_keeps hparse
  rw [haccess] at hkept
  exact ⟨haccess, hkept⟩

end Text

end CSharpOutline
