import CSharpOutline.Proofs.Head.Parts
import CSharpOutline.Proofs.Head.Squeeze
import CSharpOutline.Proofs.Member.Reading

/-!
# Every declaration is read

A `Written.Declaration` is a declaration by the grammar: attributes, modifiers, a return type, a
name, type parameters, and the boundary with anything behind it. The parser reads each of them as
it was written (`Declaration.parse?_text`), whatever the return type looks like.

Three things could be taken for one another, and the proof keeps them apart. A type name may be
spelled like a modifier, but then it is one, which the grammar leaves out; with a suffix behind it
the name is no modifier any more (`ReturnType.afterKeyword?_eq_none`). A tuple looks like a
parameter list, but a declaration starts with it, so it is read as a group first. And a name in
front of a parenthesis is a constructor only if no other name follows, which is why the text behind
the type is always asked for its first character that is not blank.
-/

namespace CSharpOutline.Written

/-! ## Return types

A return type is read as far as it was written, and it is not read as a modifier: a keyword would
end at a blank inside the name, or be the whole name. -/

/-- What may follow the name of a type. -/
inductive TypeSuffix where
  | arguments (group : Group '<')
  | optional
  | pointer
  | rank (body : Text) (closed : ']' ∉ body)

def TypeSuffix.text : TypeSuffix → Text
  | .arguments group => group.text
  | .optional => ['?']
  | .pointer => ['*']
  | .rank body _ => '[' :: (body ++ [']'])

/-- The characters that a suffix starts with. -/
def suffixStarts : List Char := ['<', '?', '*', '[']

private theorem head?_suffix (s : TypeSuffix) (r : Text) :
    ∃ c ∈ suffixStarts, (s.text ++ r).head? = some c := by
  rcases s with group | - | - | ⟨body, -⟩
  · exact ⟨'<', by decide, head?_group group r⟩
  · exact ⟨'?', by decide, rfl⟩
  · exact ⟨'*', by decide, rfl⟩
  · exact ⟨'[', by decide, rfl⟩

private theorem afterSuffixes?_suffixes (suffixes : List TypeSuffix) {r : Text}
    (hr : r.head?.any (suffixStarts.contains ·) = false) :
    Head.afterSuffixes? (suffixes.flatMap TypeSuffix.text ++ r) = some r := by
  induction suffixes with
  | nil =>
    rcases r with - | ⟨c, r⟩
    · rw [List.flatMap_nil, List.nil_append, Head.afterSuffixes?]
    · exact Head.afterSuffixes?_other (by simpa [suffixStarts] using hr) r
  | cons s suffixes ih =>
    rw [List.flatMap_cons, List.append_assoc]
    rcases s with group | - | - | ⟨body, closed⟩
    · have hafter := afterGroup_angles group (suffixes.flatMap TypeSuffix.text ++ r)
      obtain ⟨t, ht⟩ := List.head?_eq_some_iff.mp group.opens
      rw [TypeSuffix.text, ht, List.cons_append, Head.afterSuffixes?, dif_pos rfl,
        ← List.cons_append, ← ht, hafter, ih]
    · rw [TypeSuffix.text, List.singleton_append, Head.afterSuffixes?, dif_neg (by decide),
        if_pos (by decide), ih]
    · rw [TypeSuffix.text, List.singleton_append, Head.afterSuffixes?, dif_neg (by decide),
        if_pos (by decide), ih]
    · have hafter : Text.after? ']' (body ++ [']'] ++ (suffixes.flatMap TypeSuffix.text ++ r)) =
          some (suffixes.flatMap TypeSuffix.text ++ r) :=
        Text.after?_eq_some_iff.mpr ⟨body, closed, by simp⟩
      rw [TypeSuffix.text, List.cons_append, Head.afterSuffixes?, dif_neg (by decide),
        if_neg (by decide), if_pos rfl]
      split
      · next hnone =>
        rw [hafter] at hnone
        exact absurd hnone (by simp)
      · next rest hrest =>
        rw [hafter] at hrest
        rw [← Option.some.inj hrest, ih]

/-- The return type of a member: a name or a tuple, and suffixes. -/
inductive ReturnType where
  | named (name : QualifiedName) (free : name.text ∉ memberModifiers) (suffixes : List TypeSuffix)
  | tuple (group : Group '(') (suffixes : List TypeSuffix)

namespace ReturnType

def isTuple : ReturnType → Bool
  | .named .. => false
  | .tuple .. => true

def text : ReturnType → Text
  | .named name _ suffixes => name.text ++ suffixes.flatMap TypeSuffix.text
  | .tuple group suffixes => group.text ++ suffixes.flatMap TypeSuffix.text

variable (type : ReturnType) {r : Text}

theorem exists_head : ∃ c t, type.text = c :: t ∧
    if type.isTuple then c = '(' else isNamePart c = true ∨ c = ':' := by
  rcases type with ⟨name, -, suffixes⟩ | ⟨group, suffixes⟩
  · obtain ⟨c, t, hname⟩ := List.exists_cons_of_ne_nil name.ne_nil
    refine ⟨c, t ++ suffixes.flatMap TypeSuffix.text, by rw [text, hname, List.cons_append], ?_⟩
    exact name.qualified.isNamePart_or_colon c (by rw [hname]; exact List.mem_cons_self)
  · obtain ⟨t, ht⟩ := List.head?_eq_some_iff.mp group.opens
    exact ⟨'(', t ++ suffixes.flatMap TypeSuffix.text, by rw [text, ht, List.cons_append], rfl⟩

theorem head?_text_eq_paren_iff :
    (type.text ++ r).head? = some '(' ↔ type.isTuple = true := by
  obtain ⟨c, t, htext, hc⟩ := type.exists_head
  rw [htext, List.cons_append, List.head?_cons, Option.some.injEq]
  constructor
  · rintro rfl
    by_contra htuple
    rw [if_neg htuple] at hc
    exact absurd hc (by decide)
  · intro htuple
    rwa [if_pos htuple] at hc

theorem isWord_head?_suffixes (suffixes : List TypeSuffix)
    (hr : r.head?.any (fun c ↦ isNamePart c || c == ':') = false) :
    (suffixes.flatMap TypeSuffix.text ++ r).head?.any (fun c ↦ isNamePart c || c == ':') =
      false := by
  rcases suffixes with - | ⟨s, suffixes⟩
  · exact hr
  · have hstarts : suffixStarts.all (fun c ↦ !(isNamePart c || c == ':')) = true := by decide
    obtain ⟨c, hc, hhead⟩ := head?_suffix s (suffixes.flatMap TypeSuffix.text ++ r)
    rw [List.flatMap_cons, List.append_assoc, hhead, Option.any_some]
    simpa using List.all_eq_true.mp hstarts c hc

/-- A return type is read as far as it was written. Behind a name there has to be something that
does not go on with it. -/
theorem exists_afterType? (hsuffix : r.head?.any (suffixStarts.contains ·) = false)
    (hname : type.isTuple = false →
      r.head?.any (fun c ↦ isNamePart c || c == ':') = false) :
    ∃ suffixed, Head.afterType? (type.text ++ r) = some suffixed ∧
      Head.afterSuffixes? suffixed = some r := by
  have hparen := type.head?_text_eq_paren_iff (r := r)
  rcases type with ⟨name, free, suffixes⟩ | ⟨group, suffixes⟩
  · refine ⟨suffixes.flatMap TypeSuffix.text ++ r, ?_, afterSuffixes?_suffixes suffixes hsuffix⟩
    rw [Head.afterType?, if_neg (by rw [hparen]; exact Bool.false_ne_true), text, List.append_assoc]
    exact afterTypeName?_qualified name (isWord_head?_suffixes suffixes (hname rfl))
  · refine ⟨suffixes.flatMap TypeSuffix.text ++ r, ?_, afterSuffixes?_suffixes suffixes hsuffix⟩
    rw [Head.afterType?, if_pos (by rw [hparen]; rfl), text, List.append_assoc, afterGroup_parens]

/-- A return type is not read as a modifier: a keyword would end at a blank inside the name, or be
the whole name. -/
theorem afterKeyword?_eq_none (hname : type.isTuple = false →
      r.head?.any (fun c ↦ isNamePart c || c == ':') = false) :
    Text.afterKeyword? memberModifiers (type.text ++ r) = none := by
  refine Option.eq_none_iff_forall_not_mem.mpr fun rest hrest ↦ ?_
  obtain ⟨k, b, s, hk, hblank, hb, heq, -⟩ := Text.afterKeyword?_eq_some_iff.mp hrest
  have hword : ∀ c ∈ k, isWord c = true := fun c hc ↦ Head.isWord_of_mem_keyword hk hc
  rcases type with ⟨name, free, suffixes⟩ | ⟨group, suffixes⟩
  · have hhead := isWord_head?_suffixes suffixes (hname rfl)
    rw [text, List.append_assoc] at heq
    rcases List.append_eq_append_iff.mp heq with ⟨m, hm, hs⟩ | ⟨m, hm, hs⟩
    · rcases m with - | ⟨d, m⟩
      · exact free (by rw [← List.append_nil name.text, ← hm]; exact hk)
      · -- the keyword would go on behind the name
        have hd : isWord d = true := hword d (by rw [hm]; simp)
        rw [hs, List.cons_append, List.head?_cons, Option.any_some, isNamePart, hd] at hhead
        exact absurd hhead (by simp)
    · rcases m with - | ⟨d, m⟩
      · exact free (by rw [hm, List.append_nil]; exact hk)
      · -- the keyword would end inside the name
        have hd : isBlank d = false :=
          name.qualified.isBlank_eq_false (by rw [hm]; simp)
        rw [← (List.cons.inj hs).1, hb] at hd
        exact absurd hd (by decide)
  · obtain ⟨c, t, hc⟩ := List.exists_cons_of_ne_nil
      (Head.ne_nil_of_areWords Head.areWords_memberModifiers hk)
    obtain ⟨u, hu⟩ := List.head?_eq_some_iff.mp group.opens
    rw [text, hu, hc, List.cons_append, List.cons_append, List.cons_append] at heq
    have hparen := hword c (by rw [hc]; exact List.mem_cons_self)
    rw [← (List.cons.inj heq).1] at hparen
    exact absurd hparen (by decide)

end ReturnType

/-! ## The boundary -/

/-- The marks that may follow a name. -/
inductive Mark where
  | parenthesis
  | brace
  | arrow
  | semicolon
  | equals
  | comma
  deriving DecidableEq

namespace Mark

def text : Mark → Text
  | .parenthesis => ['(']
  | .brace => ['{']
  | .arrow => ['=', '>']
  | .semicolon => [';']
  | .equals => ['=']
  | .comma => [',']

/-- The boundary that a mark is read as. A comma ends the name of a field as a semicolon does. -/
def boundary : Mark → Boundary
  | .parenthesis => .parameters
  | .brace => .accessors
  | .arrow => .arrow
  | .semicolon => .terminator
  | .equals => .initializer
  | .comma => .terminator

private theorem read?_text {m : Mark} {r : Text} (h : m = .equals → r.head? ≠ some '>') :
    Boundary.read? (m.text ++ r) = some (some m.boundary) := by
  rw [Boundary.looksAtFirst_read?.append]
  · cases m <;> rfl
  · cases m <;> exact List.cons_ne_nil _ _
  · cases m <;> simp [text] at h ⊢
    exact h

/-- The characters that a mark starts with. -/
def starts : List Char := ['(', '{', '=', ';', ',']

theorem head?_text (m : Mark) {p : Char → Bool} (hp : starts.all (!p ·) = true) (r : Text) :
    (m.text ++ r).head?.any p = false := by
  have hnot : ∀ c ∈ starts, p c = false := fun c hc ↦ by simpa using List.all_eq_true.mp hp c hc
  cases m <;> exact hnot _ (by decide)

end Mark

/-! ## Declarations

Each part is read behind the parts in front of it, so what has to be known of a part is only the
character that it starts with: no bracket behind the attributes, no suffix behind the type, a part
of no name behind the name. -/

/-- A declaration up to its boundary, and what follows it. -/
structure Declaration where
  lead : Blanks
  attributes : List Attribute
  modifiers : List (Keyword memberModifiers)
  type : ReturnType
  gap : Blanks
  /-- A name does not stand directly behind another one. -/
  apart : type.isTuple = false → gap.1 ≠ []
  name : Name
  parameters : Option (Group '<')
  blanks : Blanks
  mark : Mark
  rest : Text
  /-- An equals sign is not the first half of an arrow. -/
  whole : mark = .equals → rest.head? ≠ some '>'

namespace Declaration

variable (d : Declaration)

/-- What stands in front of the name. -/
def beforeName : Text :=
  d.lead.1 ++ d.attributes.flatMap Attribute.text ++ d.modifiers.flatMap Keyword.text ++
    d.type.text ++ d.gap.1

def parametersText : Text := d.parameters.elim [] Group.text

/-- What stands in front of the boundary. -/
def beforeBoundary : Text := d.beforeName ++ d.name.text ++ d.parametersText ++ d.blanks.1

def text : Text := d.beforeBoundary ++ d.mark.text ++ d.rest

/-- The head of a declaration, by its parts. -/
def head : Head where
  name := d.name.text
  nameStart := d.beforeName.length
  boundary := some d.mark.boundary
  boundaryStart := d.beforeBoundary.length
  hasModifiers := !d.modifiers.isEmpty

/-- The text from the boundary on. -/
def fromBoundary : Text := d.mark.text ++ d.rest

def afterName : Text := d.parametersText ++ (d.blanks.1 ++ d.fromBoundary)

/-- The text from the return type on. -/
def typed : Text := d.type.text ++ (d.gap.1 ++ (d.name.text ++ d.afterName))

private theorem text_eq : d.text = d.lead.1 ++ (d.attributes.flatMap Attribute.text ++
    (d.modifiers.flatMap Keyword.text ++ d.typed)) := by
  simp [text, beforeBoundary, beforeName, typed, afterName, fromBoundary]

private theorem trimStart_fromBoundary : d.fromBoundary.trimStart = d.fromBoundary :=
  Text.dropWhile_of_head (d.mark.head?_text (by decide) d.rest)

theorem head?_blanks_fromBoundary {p : Char → Bool} (hblank : ∀ c, isBlank c = true → p c = false)
    (hmark : Mark.starts.all (!p ·) = true) :
    (d.blanks.1 ++ d.fromBoundary).head?.any p = false :=
  head?_blanks_append d.blanks hblank fun _ ↦ d.mark.head?_text hmark d.rest

private theorem parametersEnd_afterName :
    Text.trimStart (Head.parametersEnd d.afterName) = d.fromBoundary := by
  rw [afterName, parametersText]
  cases d.parameters with
  | some group =>
    rw [Head.parametersEnd, Option.elim_some, if_pos (head?_group group _), afterGroup_angles,
      trimStart_blanks, trimStart_fromBoundary]
  | none =>
    have hangle : (d.blanks.1 ++ d.fromBoundary).head? ≠ some '<' := by
      have hhead := d.head?_blanks_fromBoundary (p := (· == '<'))
        (fun c hc ↦ beq_eq_false_iff_ne.mpr (ne_of_isBlank hc (by decide))) (by decide)
      intro hangle
      rw [hangle] at hhead
      exact absurd hhead (by decide)
    rw [Head.parametersEnd, Option.elim_none, List.nil_append, if_neg hangle, trimStart_blanks,
      trimStart_fromBoundary]

private theorem head?_afterName : d.afterName.head?.any isNamePart = false := by
  rw [afterName, parametersText]
  cases d.parameters with
  | some group =>
    rw [Option.elim_some, head?_group]
    decide
  | none =>
    rw [Option.elim_none, List.nil_append]
    exact d.head?_blanks_fromBoundary (fun _ ↦ Text.isNamePart_of_isBlank) (by decide)

private theorem head?_gap (p : Char → Bool) (hblank : ∀ c, isBlank c = true → p c = false)
    (hname : d.type.isTuple = true → p '@' = false ∧ ∀ c, isWord c = true → p c = false) :
    (d.gap.1 ++ (d.name.text ++ d.afterName)).head?.any p = false := by
  refine head?_blanks_append d.gap hblank fun hnil ↦ ?_
  have htuple : d.type.isTuple = true := by
    by_contra htuple
    exact d.apart (by simpa using htuple) hnil
  exact d.name.head?_text (hname htuple).1 (hname htuple).2 _

private theorem named?_typed :
    Head.named? d.typed (d.gap.1 ++ (d.name.text ++ d.afterName)) =
        some (d.name.text, d.fromBoundary) ∧
      Head.namedText d.typed (d.gap.1 ++ (d.name.text ++ d.afterName)) =
        d.name.text ++ d.afterName := by
  have htrim : Text.trimStart (d.gap.1 ++ (d.name.text ++ d.afterName)) =
      d.name.text ++ d.afterName := by
    rw [trimStart_blanks, Name.trimStart_text]
  have hhead : (d.name.text ++ d.afterName).head? ≠ some '(' := by
    obtain ⟨c, t, htext, hc⟩ := d.name.exists_head
    rw [htext, List.cons_append, List.head?_cons]
    intro hparen
    rw [Option.some.inj hparen] at hc
    exact absurd hc (by decide)
  have hcall : ¬(d.typed.head? ≠ some '(' ∧ (d.name.text ++ d.afterName).head? = some '(') :=
    fun hcall ↦ hhead hcall.2
  have hblank : d.typed.head? = some '(' ∨
      (d.gap.1 ++ (d.name.text ++ d.afterName)).head?.any isBlank = true := by
    by_cases hnil : d.gap.1 = []
    · refine .inl (d.type.head?_text_eq_paren_iff.mpr ?_)
      by_contra htuple
      exact d.apart (by simpa using htuple) hnil
    · exact .inr (head?_blanks hnil _)
  have hword (c : Char) (hc : isWord c = true) : isNamePart c = true := by
    rw [isNamePart, hc, Bool.true_or]
  rw [Head.named?, Head.namedText, htrim, if_neg hcall, if_neg hcall, if_pos hblank,
    d.name.name?_text hword d.head?_afterName, Option.map_some]
  exact ⟨by rw [parametersEnd_afterName], rfl⟩

private theorem head?_typed {p : Char → Bool} (hpart : ∀ c, isNamePart c = true → p c = false)
    (hcolon : p ':' = false) (hparen : p '(' = false) : d.typed.head?.any p = false := by
  obtain ⟨c, t, htext, hc⟩ := d.type.exists_head
  rw [typed, htext, List.cons_append, List.head?_cons, Option.any_some]
  split at hc
  · rwa [hc]
  · rcases hc with hc | rfl
    · exact hpart c hc
    · exact hcolon

private theorem readsFrom :
    Head.ReadsFrom d.text (!d.modifiers.isEmpty) (d.name.text ++ d.afterName) d.name.text
      d.fromBoundary := by
  have hqualified : d.type.isTuple = false →
      (d.gap.1 ++ (d.name.text ++ d.afterName)).head?.any
        (fun c ↦ isNamePart c || c == ':') = false := by
    intro htuple
    refine d.head?_gap _ (fun c hc ↦ ?_) fun htuple' ↦ absurd htuple' (by rw [htuple]; decide)
    simp [Text.isNamePart_of_isBlank hc, ne_of_isBlank hc (d := ':') (by decide)]
  have hsuffix : (d.gap.1 ++ (d.name.text ++ d.afterName)).head?.any
      (suffixStarts.contains ·) = false := by
    have hstarts : suffixStarts.all (fun c ↦ !isBlank c && !isWord c) = true := by decide
    refine d.head?_gap _ (fun c hc ↦ ?_) fun _ ↦ ⟨by decide, fun c hc ↦ ?_⟩
    · by_contra hmem
      have h := List.all_eq_true.mp hstarts c (by simpa using hmem)
      simp [hc] at h
    · by_contra hmem
      have h := List.all_eq_true.mp hstarts c (by simpa using hmem)
      simp [hc] at h
  obtain ⟨suffixed, htype, hafter⟩ := d.type.exists_afterType? hsuffix hqualified
  obtain ⟨hname, hnamed⟩ := d.named?_typed
  have hblank : d.typed.head?.any isBlank = false :=
    d.head?_typed (fun _ ↦ Text.isBlank_of_isNamePart) (by decide) (by decide)
  have hbracket : (d.modifiers.flatMap Keyword.text ++ d.typed).head?.any (· == '[') = false := by
    have hne (c : Char) (hc : isNamePart c = true) : (c == '[') = false := by
      refine beq_eq_false_iff_ne.mpr ?_
      rintro rfl
      exact absurd hc (by decide)
    refine head?_keywords Head.areWords_memberModifiers _ (fun c hc ↦ hne c ?_)
      (d.head?_typed hne (by decide) (by decide))
    rw [isNamePart, hc, Bool.true_or]
  refine ⟨d.modifiers.flatMap Keyword.text ++ d.typed, d.typed, suffixed, _, ?_, ?_, htype,
    hafter, hnamed, hname⟩
  · rw [text_eq, trimStart_blanks, afterAttributes?_attributes,
      trimStart_keywords Head.areWords_memberModifiers _ hblank]
    refine Head.afterAttributes?_of_head fun hhead ↦ ?_
    rw [hhead] at hbracket
    exact absurd hbracket (by decide)
  · exact dropKeywords_keywords Head.areWords_memberModifiers _ hblank
      (d.type.afterKeyword?_eq_none hqualified)

/-- The head of every written declaration is read by its parts: the name, what follows it, where
both stand, and whether there is a modifier. -/
theorem parse?_text : Head.parse? d.text = some d.head := by
  have hread : Boundary.read? d.fromBoundary = some (some d.mark.boundary) :=
    Mark.read?_text d.whole
  rw [d.readsFrom.parse?, hread, Option.map_some, head]
  have hbefore : d.text.length - d.fromBoundary.length = d.beforeBoundary.length := by
    rw [text, List.append_assoc, ← fromBoundary, List.length_append, Nat.add_sub_cancel]
  have hname : d.text.length - (d.name.text ++ d.afterName).length = d.beforeName.length := by
    have htext : d.text = d.beforeName ++ (d.name.text ++ d.afterName) := by
      simp [text, beforeBoundary, afterName, fromBoundary]
    rw [htext, List.length_append, Nat.add_sub_cancel]
  rw [hbefore, hname]

/-- A declaration with an attribute, modifiers, a tuple of generic types with suffixes, a marked
name with type parameters and an arrow. -/
theorem parse?_text_tupleArrow : ∃ d : Declaration,
    d.text = " [A(1)] public static (int, Map<K, (V, W)>)[,]? @get<T> => x(=>".toList ∧
      Head.parse? d.text = some ⟨"@get".toList, 48, some .arrow, 56, true⟩ := by
  let group : Group '(' := ⟨"(int, Map<K, (V, W)>)".toList, by decide, by decide⟩
  let d : Declaration := {
    lead := ⟨[' '], by decide⟩
    attributes := [⟨"A(1)".toList, by decide, ⟨[' '], by decide⟩⟩]
    modifiers := [⟨"public".toList, by decide, ⟨[' '], by decide⟩, by decide⟩,
      ⟨"static".toList, by decide, ⟨[' '], by decide⟩, by decide⟩]
    type := .tuple group [.rank [','] (by decide), .optional]
    gap := ⟨[' '], by decide⟩
    apart := fun h ↦ absurd h (by decide)
    name := ⟨true, "get".toList, by decide, by decide⟩
    parameters := some ⟨"<T>".toList, by decide, by decide⟩
    blanks := ⟨[' '], by decide⟩
    mark := .arrow
    rest := " x(=>".toList
    whole := fun h ↦ absurd h (by decide) }
  have htext : d.text =
      " [A(1)] public static (int, Map<K, (V, W)>)[,]? @get<T> => x(=>".toList := by decide
  exact ⟨d, htext, d.parse?_text⟩

end Declaration

end CSharpOutline.Written
