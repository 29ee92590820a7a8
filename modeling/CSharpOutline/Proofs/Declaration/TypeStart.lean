import CSharpOutline.Declaration.Bases
import CSharpOutline.Proofs.Head.Parts
import CSharpOutline.Proofs.Text.Returns

/-!
# Finding the type declaration

A type declaration is looked for at every place where one can begin, and at each of them attributes
and modifiers are skipped first. So a search that begins lines before the declaration may come to it
in two ways: by arriving at its line, or from an earlier place, when nothing but attributes and
modifiers stands in between. Both ways lead to the same keyword.

The argument is about what readers leave of a text `p ++ d` that is cut at the end of a line. An
attribute of `p` does not reach over the cut, because it would have to hold the line break, and
neither does a keyword. So either something of `p` is left in front of `d`, or `d` is left without
its leading blanks (`Text.Leaves`). In the first case no type keyword follows, provided that `p`
holds none.

The second half reads a declaration that is written by the grammar, up to the colon in front of its
base list.
-/

namespace CSharpOutline

namespace Text

/-! ## Reading over the end of a line

An attribute on one line ends on that line, and so does a keyword, because there is no blank in it.
So either something of the first part is left, or the second one without its leading blanks. -/

/-- What readers leave of `p ++ d`: some of `p`, or `d` without its leading blanks. -/
def Leaves (p d r : Text) : Prop := (∃ q, q ≠ [] ∧ q <:+ p ∧ r = q ++ d) ∨ r = d.trimStart

variable {p q d r : Text}

theorem Leaves.mono (h : Leaves q d r) (hq : q <:+ p) : Leaves p d r := by
  obtain ⟨s, hne, hs, rfl⟩ | h := h
  · exact .inl ⟨s, hne, hs.trans hq, rfl⟩
  · exact .inr h

theorem leaves_trimStart (p d : Text) : Leaves p d (trimStart (p ++ d)) := by
  by_cases hp : trimStart p = []
  · exact .inr (trimStart_allBlank_append (trimStart_eq_nil_iff.mp hp) d)
  · exact .inl ⟨trimStart p, hp, trimStart_suffix p, trimStart_append_of_ne_nil hp d⟩

/-- Two cuts of one text: the one behind a character that the first part of the other lacks is the
later one. -/
theorem exists_of_append_eq {c x : Char} {s t : Text} (hp : c ∈ p) (hs : c ∉ s)
    (h : p ++ d = s ++ x :: t) : ∃ m, p = s ++ x :: m ∧ t = m ++ d := by
  obtain ⟨m, rfl, -⟩ | ⟨m, rfl, hm⟩ := List.append_eq_append_iff.mp h
  · exact absurd (List.mem_append_left m hp) hs
  · rcases m with - | ⟨y, m⟩
    · rw [List.append_nil] at hp
      exact absurd hp hs
    · obtain ⟨rfl, rfl⟩ := List.cons.inj hm
      exact ⟨m, rfl, rfl⟩

private theorem leaves_afterLineAttributes (hp : p.getLast? = some '\n')
    (hd : d.trimStart.head? ≠ some '[') : Leaves p d (afterLineAttributes (p ++ d)) := by
  induction hn : p.length using Nat.strongRecOn generalizing p with
  | ind n ih =>
    have hmem := List.mem_of_getLast? hp
    have hstay : Leaves p d (p ++ d) :=
      .inl ⟨p, List.ne_nil_of_mem hmem, List.suffix_rfl, rfl⟩
    obtain ⟨c, s, rfl⟩ := List.exists_cons_of_ne_nil (List.ne_nil_of_mem hmem)
    by_cases hc : c = '['
    · subst hc
      rw [List.cons_append] at hstay ⊢
      cases hafter : after? ']' (s ++ d) with
      | none => rwa [afterLineAttributes_of_none hafter]
      | some rest =>
        obtain ⟨before, hbefore, heq⟩ := after?_eq_some_iff.mp hafter
        rw [heq] at hstay ⊢
        rw [afterLineAttributes_bracket hbefore]
        split
        · exact hstay
        · next hbreak =>
          obtain ⟨m, rfl, rfl⟩ := exists_of_append_eq (List.mem_of_ne_of_mem (by decide) hmem)
            hbreak heq
          have hsuffix : m <:+ '[' :: (before ++ ']' :: m) := ⟨'[' :: before ++ [']'], by simp⟩
          obtain ⟨q, hq, hsub, hrest⟩ | hrest := leaves_trimStart m d
          · have hlength : q.length < n := by
              have hle := hsub.length_le
              rw [← hn]
              simp only [List.length_append, List.length_cons]
              omega
            have hlast := (getLast?_of_suffix (hsub.trans hsuffix) hq).trans hp
            rw [hrest]
            exact (ih q.length hlength hlast rfl).mono (hsub.trans hsuffix)
          · rw [hrest, afterLineAttributes_of_head hd]
            exact .inr rfl
    · rw [afterLineAttributes_of_head (by simpa using hc)]
      exact hstay

private theorem leaves_dropKeywords (keywords : List Text) (hp : p.getLast? = some '\n') :
    (∃ q, q ≠ [] ∧ q <:+ p ∧ (dropKeywords keywords (p ++ d)).2 = q ++ d) ∨
      (dropKeywords keywords (p ++ d)).2 = (dropKeywords keywords d.trimStart).2 := by
  induction hn : p.length using Nat.strongRecOn generalizing p with
  | ind n ih =>
    have hmem := List.mem_of_getLast? hp
    cases hafter : afterKeyword? keywords (p ++ d) with
    | none =>
      rw [Text.dropKeywords_of_none hafter]
      exact .inl ⟨p, List.ne_nil_of_mem hmem, List.suffix_rfl, rfl⟩
    | some rest =>
      obtain ⟨k, b, s, hk, hblank, hb, heq, rfl⟩ := Text.afterKeyword?_eq_some_iff.mp hafter
      have hbreak : '\n' ∉ k := fun h ↦ absurd (hblank _ h) (by decide)
      obtain ⟨m, rfl, rfl⟩ := exists_of_append_eq hmem hbreak heq
      have hsuffix : m <:+ k ++ b :: m := ⟨k ++ [b], by simp⟩
      rw [Text.dropKeywords_of_some hafter]
      obtain ⟨q, hq, hsub, hrest⟩ | hrest := leaves_trimStart m d
      · have hlength : q.length < n := by
          have hle := hsub.length_le
          rw [← hn, List.length_append, List.length_cons]
          omega
        have hlast := (getLast?_of_suffix (hsub.trans hsuffix) hq).trans hp
        rw [hrest]
        obtain ⟨r, hr, hsub', heq'⟩ | heq' := ih q.length hlength hlast rfl
        · exact .inl ⟨r, hr, hsub'.trans (hsub.trans hsuffix), heq'⟩
        · exact .inr heq'
      · exact .inr (by rw [hrest])

/-! ## The search

From a place in front of the declaration either nothing is found or the declaration, so the search
finds it behind any lines without a type keyword. -/

theorem isBlank_of_isGap {c : Char} (h : isGap c = true) : isBlank c = true := by
  rw [isGap, Bool.or_eq_true, beq_iff_eq, beq_iff_eq] at h
  rcases h with rfl | rfl <;> decide

private theorem afterTypeHere?_nil : afterTypeHere? [] = none := by
  have hmodifiers : afterTypeModifiers [] = [] := by
    rw [afterTypeModifiers, List.dropWhile_nil, afterLineAttributes_of_head (by simp),
      Text.dropKeywords_of_none (by decide)]
  rw [afterTypeHere?, hmodifiers]
  rfl

/-- The spaces and tabulators in front of a declaration. -/
abbrev Indent := { g : Text // g.all isGap = true }

section
variable (g : Indent) {body : Text} (hbody : body.head?.any (fun c ↦ !isWord c) = false)

include hbody

private theorem trimStart_body : body.trimStart = body := by
  refine trimStart_of_head fun c hc ↦ ?_
  rw [hc] at hbody
  exact isBlank_of_isWord (by simpa using hbody)

private theorem trimStart_indent : trimStart (g.1 ++ body) = body := by
  have hblank : allBlank g.1 = true :=
    allBlank_iff.mpr fun c hc ↦ isBlank_of_isGap (List.all_eq_true.mp g.2 c hc)
  rw [trimStart_allBlank_append hblank, trimStart_body hbody]

private theorem dropWhile_indent : (g.1 ++ body).dropWhile isGap = body := by
  rw [List.dropWhile_append_of_pos fun c hc ↦ List.all_eq_true.mp g.2 c hc]
  refine dropWhile_of_head ?_
  rw [← Bool.not_eq_true, Option.any_eq_true]
  rintro ⟨c, hc, hgap⟩
  have hblank := isBlank_of_isGap hgap
  rw [hc] at hbody
  rw [isBlank_of_isWord (by simpa using hbody)] at hblank
  exact absurd hblank (by decide)

theorem head?_ne_bracket : body.head? ≠ some '[' := by
  intro hhead
  rw [hhead] at hbody
  exact absurd hbody (by decide)

theorem afterTypeModifiers_indent :
    afterTypeModifiers (g.1 ++ body) = (dropKeywords typeModifiers body).2 := by
  rw [afterTypeModifiers, dropWhile_indent g hbody,
    afterLineAttributes_of_head (head?_ne_bracket hbody)]

/-- Attributes and modifiers are skipped up to some place in front of the declaration, or over all
of its own modifiers. -/
theorem afterTypeModifiers_append (hp : p.getLast? = some '\n') :
    (∃ q, q ≠ [] ∧ q <:+ p ∧ afterTypeModifiers (p ++ (g.1 ++ body)) = q ++ (g.1 ++ body)) ∨
      afterTypeModifiers (p ++ (g.1 ++ body)) = afterTypeModifiers (g.1 ++ body) := by
  have hne : p.dropWhile isGap ≠ [] := by
    intro hnil
    exact absurd (List.dropWhile_eq_nil_iff.mp hnil _ (List.mem_of_getLast? hp)) (by decide)
  have hdrop : (p ++ (g.1 ++ body)).dropWhile isGap = p.dropWhile isGap ++ (g.1 ++ body) := by
    rw [List.dropWhile_append, if_neg (by simpa using hne)]
  have hsuffix : p.dropWhile isGap <:+ p := List.dropWhile_suffix _
  have htrim := trimStart_indent g hbody
  have hattributes := leaves_afterLineAttributes (d := g.1 ++ body)
    ((getLast?_of_suffix hsuffix hne).trans hp) (by rw [htrim]; exact head?_ne_bracket hbody)
  rw [afterTypeModifiers, hdrop, afterTypeModifiers_indent g hbody]
  obtain ⟨q, hq, hsub, hrest⟩ | hrest := hattributes
  · rw [hrest]
    have hlast := (getLast?_of_suffix (hsub.trans hsuffix) hq).trans hp
    obtain ⟨r, hr, hsub', heq⟩ | heq := leaves_dropKeywords (d := g.1 ++ body) typeModifiers hlast
    · exact .inl ⟨r, hr, hsub'.trans (hsub.trans hsuffix), heq⟩
    · rw [htrim] at heq
      exact .inr heq
  · rw [hrest, htrim]
    exact .inr rfl

private theorem afterTypeHere?_append (hp : p.getLast? = some '\n')
    (hfree : ∀ k ∈ typeKeywords, ¬k <:+: p) :
    afterTypeHere? (p ++ (g.1 ++ body)) = none ∨
      afterTypeHere? (p ++ (g.1 ++ body)) = afterTypeHere? (g.1 ++ body) := by
  obtain ⟨q, hq, hsub, hrest⟩ | hrest := afterTypeModifiers_append g hbody hp
  · have hbreaks : ∀ k ∈ typeKeywords, '\n' ∉ k := by decide
    have hlast := (getLast?_of_suffix hsub hq).trans hp
    have hnone : afterOneOf? typeKeywords (q ++ (g.1 ++ body)) = none := by
      refine List.findSome?_eq_none_iff.mpr fun k hk ↦ ?_
      refine Option.eq_none_iff_forall_not_mem.mpr fun rest hrest ↦ ?_
      -- a keyword would lie inside `q`, or reach over the end of its last line
      obtain ⟨m, heq, -⟩ | ⟨m, heq, -⟩ :=
        List.append_eq_append_iff.mp (expect?_eq_some_iff.mp hrest)
      · exact hbreaks k hk (by rw [heq]; exact List.mem_append_left m (List.mem_of_getLast? hlast))
      · exact hfree k hk (List.IsInfix.trans ⟨[], m, by rw [heq]; rfl⟩ hsub.isInfix)
    left
    rw [afterTypeHere?, hrest, hnone]
    rfl
  · right
    rw [afterTypeHere?, hrest, afterTypeHere?]

private theorem afterTypeFrom?_append {before : Option Char} {rest : Text}
    (hbefore : p = [] → beginsDeclaration before = true)
    (hp : p ≠ [] → p.getLast? = some '\n') (hfree : ∀ k ∈ typeKeywords, ¬k <:+: p)
    (hhere : afterTypeHere? (g.1 ++ body) = some rest) :
    afterTypeFrom? before (p ++ (g.1 ++ body)) = some rest := by
  induction p generalizing before with
  | nil =>
    obtain ⟨c, t, hd⟩ : ∃ c t, g.1 ++ body = c :: t := by
      refine List.exists_cons_of_ne_nil fun hnil ↦ ?_
      rw [hnil, afterTypeHere?_nil] at hhere
      exact absurd hhere (by simp)
    rw [List.nil_append, hd, afterTypeFrom?, if_pos (hbefore rfl), ← hd, hhere, Option.some_or]
  | cons c p ih =>
    have hlast := hp (List.cons_ne_nil c p)
    have hrest : afterTypeFrom? (some c) (p ++ (g.1 ++ body)) = some rest := by
      refine ih (fun hnil ↦ ?_) (fun hne ↦ ?_) fun k hk hsub ↦ ?_
      · rw [hnil, List.getLast?_singleton, Option.some.injEq] at hlast
        rw [hlast]
        decide
      · exact (getLast?_of_suffix (List.suffix_cons c p) hne).trans hlast
      · exact hfree k hk (hsub.trans (List.suffix_cons c p).isInfix)
    rw [List.cons_append, afterTypeFrom?, hrest, ← List.cons_append]
    split
    · obtain hnone | hsome := afterTypeHere?_append g hbody hlast hfree
      · rw [hnone, Option.none_or]
      · rw [hsome, hhere, Option.some_or]
    · rfl

end

/-! ## The name -/

private theorem afterTypeHere?_of_keyword {t rest : Text}
    (h : afterOneOf? typeKeywords t.afterTypeModifiers = some rest) :
    afterTypeHere? t =
      (((rest.skipBlanks?.bind (afterOneOf? secondTypeKeywords)).bind nameAfterBlanks?).or
        (nameAfterBlanks? rest)).map Prod.snd := by
  rw [afterTypeHere?, h]
  simp only [bind, Option.bind_some]
  cases ((rest.skipBlanks?.bind (afterOneOf? secondTypeKeywords)).bind nameAfterBlanks?).or
      (nameAfterBlanks? rest) with
  | none => rfl
  | some named => rfl

private theorem skipBlanks?_eq_some {t r : Text} (h : t.skipBlanks? = some r) :
    r = t.trimStart := by
  cases t with
  | nil => exact absurd h (by simp [skipBlanks?])
  | cons c t =>
    rw [skipBlanks?] at h
    split at h
    · next hc => rw [← Option.some.inj h, trimStart, trimStart, List.dropWhile_cons_of_pos hc]
    · exact absurd h (by simp)

private theorem nameAfterBlanks?_eq_none {t : Text}
    (h : t.trimStart.head?.any (fun c ↦ isWord c || c == '@') = false) :
    nameAfterBlanks? t = none := by
  refine Option.bind_eq_none_iff.mpr fun r hr ↦ ?_
  rw [← skipBlanks?_eq_some hr] at h
  rcases r with - | ⟨c, r⟩
  · rfl
  · obtain ⟨hword, hmark⟩ : isWord c = false ∧ c ≠ '@' := by simpa using h
    rw [name?_cons_of_ne hmark, List.takeWhile_cons_of_neg (by simp [hword])]

private theorem afterOneOf?_typeKeyword {k : Text} (hk : k ∈ typeKeywords) (r : Text) :
    afterOneOf? typeKeywords (k ++ r) = some r := by
  have hcases : k = "class".toList ∨ k = "struct".toList ∨ k = "interface".toList ∨
      k = "record".toList := by simpa [typeKeywords] using hk
  rcases hcases with rfl | rfl | rfl | rfl <;> rfl

private theorem afterOneOf?_secondTypeKeyword {k : Text} (hk : k ∈ secondTypeKeywords) (r : Text) :
    afterOneOf? secondTypeKeywords (k ++ r) = some r := by
  have hcases : k = "class".toList ∨ k = "struct".toList := by simpa [secondTypeKeywords] using hk
  rcases hcases with rfl | rfl <;> rfl

private theorem head?_any_of_trimStart {p : Char → Bool} (hp : ∀ c, isBlank c = true → p c = false)
    {t : Text} (h : t.trimStart.head?.any p = false) : t.head?.any p = false := by
  rcases t with - | ⟨c, t⟩
  · rfl
  · by_cases hc : isBlank c = true
    · exact hp c hc
    · rwa [trimStart_cons (by simpa using hc)] at h

end Text

namespace Written

theorem areWords_typeModifiers : Head.areWords typeModifiers = true := by decide

theorem areWords_typeKeywords : Head.areWords Text.typeKeywords = true := by decide

theorem areWords_secondTypeKeywords : Head.areWords Text.secondTypeKeywords = true := by decide

theorem skipBlanks?_blanks {b : Blanks} (hb : b.1 ≠ []) {r : Text}
    (hr : r.head?.any isBlank = false) : Text.skipBlanks? (b.1 ++ r) = some r :=
  skipBlanks?_eq_some_iff.mpr ⟨b, hb, rfl, hr⟩

theorem afterGroup_blanks {b : Blanks} (hb : b.1 ≠ []) (r : Text) :
    Text.afterGroup (b.1 ++ r) = b.1 ++ r := by
  obtain ⟨c, t, htext⟩ := List.exists_cons_of_ne_nil hb
  have hc := head?_blanks hb r
  rw [htext, List.cons_append, List.head?_cons, Option.any_some] at hc
  rw [htext, List.cons_append, Text.afterGroup, if_neg]
  rintro (rfl | rfl) <;> exact absurd hc (by decide)

private theorem nameAfterBlanks?_name {b : Blanks} (hb : b.1 ≠ []) (n : Name) {r : Text}
    (hr : r.head?.any isWord = false) :
    Text.nameAfterBlanks? (b.1 ++ (n.text ++ r)) = some (n.text, r) := by
  rw [Text.nameAfterBlanks?, skipBlanks?_blanks hb
    (n.head?_text (by decide) (fun _ ↦ Text.isBlank_of_isWord) r), Option.bind_some,
    n.name?_text (fun _ hc ↦ hc) hr]

/-- A type declaration up to the colon in front of its base list. -/
structure TypeHeader where
  indent : Text.Indent
  modifiers : List (Keyword typeModifiers)
  keyword : Keyword Text.typeKeywords
  /-- A second keyword, as in `record struct`. -/
  second : Option (Keyword Text.secondTypeKeywords)
  name : Name
  parameters : Option (Group '<')
  blanks : Blanks
  /-- The parameters of a primary constructor. -/
  primary : Option (Group '(')
  gap : Blanks

namespace TypeHeader

variable (h : TypeHeader) (list : Text)

/-- The text behind the primary constructor, with a base list. -/
def fromGap : Text := h.gap.1 ++ ':' :: list

/-- The text from the primary constructor on, with a base list. -/
def fromPrimary : Text := h.primary.elim [] Group.text ++ h.fromGap list

/-- The text behind the name, with a base list. -/
def afterName : Text :=
  h.parameters.elim [] Group.text ++ (h.blanks.1 ++ h.fromPrimary list)

/-- The text behind the first keyword, with a base list. -/
def afterKeyword : Text :=
  h.second.elim [] Keyword.text ++ (h.name.text ++ h.afterName list)

/-- The text behind the modifiers, with a base list. -/
def fromKeyword : Text := h.keyword.text ++ h.afterKeyword list

def text : Text := h.indent.1 ++ (h.modifiers.flatMap Keyword.text ++ h.fromKeyword list)

theorem exists_text_eq : ∃ u : Text, h.text list = u ++ ':' :: list := by
  refine ⟨h.indent.1 ++ (h.modifiers.flatMap Keyword.text ++ (h.keyword.text ++
    (h.second.elim [] Keyword.text ++ (h.name.text ++ (h.parameters.elim [] Group.text ++
      (h.blanks.1 ++ (h.primary.elim [] Group.text ++ h.gap.1))))))), ?_⟩
  simp only [text, fromKeyword, afterKeyword, afterName, fromPrimary, fromGap, List.append_assoc]

theorem head?_body : (h.modifiers.flatMap Keyword.text ++ h.fromKeyword list).head?.any
    (fun c ↦ !isWord c) = false :=
  head?_keywords areWords_typeModifiers _ (fun _ hc ↦ by rw [hc]; rfl)
    (head?_keyword areWords_typeKeywords h.keyword (fun _ hc ↦ by rw [hc]; rfl) _)

theorem trimStart_fromGap : (h.fromGap list).trimStart = ':' :: list := by
  rw [fromGap, trimStart_blanks, Text.trimStart_cons (by decide)]

private theorem afterGroup_fromGap : Text.afterGroup (h.fromGap list) = h.fromGap list := by
  rw [fromGap]
  by_cases hnil : h.gap.1 = []
  · rw [hnil]
    rfl
  · exact afterGroup_blanks hnil _

theorem trimStart_afterGroup_colon :
    Text.trimStart (Text.afterGroup (':' :: list)) = ':' :: list := rfl

private theorem afterGroup_fromPrimary :
    Text.trimStart (Text.afterGroup (h.fromPrimary list)) = ':' :: list ∧
      Text.trimStart (Text.afterGroup (h.fromPrimary list).trimStart) = ':' :: list := by
  rw [fromPrimary]
  cases h.primary with
  | some group =>
    rw [Option.elim_some, trimStart_group (by decide), afterGroup_parens, trimStart_fromGap]
    exact ⟨rfl, rfl⟩
  | none =>
    rw [Option.elim_none, List.nil_append, afterGroup_fromGap, trimStart_fromGap]
    exact ⟨rfl, trimStart_afterGroup_colon list⟩

/-- Behind the name, type parameters and a primary constructor are skipped up to the colon. -/
theorem afterTypeParameters_afterName :
    Text.afterTypeParameters (h.afterName list) = ':' :: list := by
  obtain ⟨hbare, htrimmed⟩ := h.afterGroup_fromPrimary list
  rw [Text.afterTypeParameters, afterName]
  cases h.parameters with
  | some group => rw [Option.elim_some, afterGroup_angles, trimStart_blanks, htrimmed]
  | none =>
    rw [Option.elim_none, List.nil_append]
    by_cases hnil : h.blanks.1 = []
    · rw [hnil, List.nil_append, hbare, trimStart_afterGroup_colon]
    · rw [afterGroup_blanks hnil, trimStart_blanks, htrimmed]

theorem head?_trimStart_afterName {p : Char → Bool} (hangle : p '<' = false)
    (hparen : p '(' = false) (hcolon : p ':' = false) :
    (h.afterName list).trimStart.head?.any p = false := by
  rw [afterName]
  cases h.parameters with
  | some group =>
    rw [Option.elim_some, trimStart_group (by decide), head?_group]
    exact hangle
  | none =>
    rw [Option.elim_none, List.nil_append, trimStart_blanks, fromPrimary]
    cases h.primary with
    | some group =>
      rw [Option.elim_some, trimStart_group (by decide), head?_group]
      exact hparen
    | none =>
      rw [Option.elim_none, List.nil_append, trimStart_fromGap]
      exact hcolon

theorem head?_afterName : (h.afterName list).head?.any isWord = false :=
  Text.head?_any_of_trimStart Text.isWord_of_isBlank
    (h.head?_trimStart_afterName list (by decide) (by decide) (by decide))

/-- A name that is spelled like a keyword, or starts like one, is not read as one, because no other
name follows it. -/
theorem bind_nameAfterBlanks?_eq_none :
    (Text.afterOneOf? Text.secondTypeKeywords (h.name.text ++ h.afterName list)).bind
      Text.nameAfterBlanks? = none := by
  have hafter : Text.nameAfterBlanks? (h.afterName list) = none :=
    Text.nameAfterBlanks?_eq_none
      (h.head?_trimStart_afterName list (by decide) (by decide) (by decide))
  refine Option.bind_eq_none_iff.mpr fun r hr ↦ ?_
  obtain ⟨k, hk, hr⟩ := List.exists_of_findSome?_eq_some hr
  have heq := Text.expect?_eq_some_iff.mp hr
  obtain ⟨m, hm, hrest⟩ | ⟨m, hm, rfl⟩ := List.append_eq_append_iff.mp heq
  · rcases m with - | ⟨d, m⟩
    · rw [← hafter, hrest, List.nil_append]
    · -- the keyword would go on behind the name
      have hd := Head.isWord_of_areWords areWords_secondTypeKeywords hk (c := d) (by rw [hm]; simp)
      have hhead := h.head?_afterName list
      rw [hrest, List.cons_append, List.head?_cons, Option.any_some, hd] at hhead
      exact absurd hhead (by decide)
  · rcases m with - | ⟨d, m⟩
    · exact hafter
    · -- the name goes on behind the keyword, without a blank
      have hd : isBlank d = false := h.name.isBlank_of_mem (by rw [hm]; simp)
      rw [Text.nameAfterBlanks?, List.cons_append, Text.skipBlanks?, if_neg (by simp [hd])]
      rfl

private theorem afterTypeModifiers_text : Text.afterTypeModifiers
    (h.text list) = h.fromKeyword list := by
  have hblank : (h.fromKeyword list).head?.any isBlank = false :=
    head?_keyword areWords_typeKeywords h.keyword (fun _ ↦ Text.isBlank_of_isWord) _
  have hfree : ∀ k ∈ Text.typeKeywords, k ∉ typeModifiers := by decide
  have hnone : Text.afterKeyword? typeModifiers (h.fromKeyword list) = none :=
    afterKeyword?_of_not_mem areWords_typeKeywords h.keyword (hfree _ h.keyword.mem) _
  rw [text, Text.afterTypeModifiers_indent h.indent (h.head?_body list),
    dropKeywords_keywords areWords_typeModifiers _ hblank hnone]

/-- A declaration that starts a text is read up to the end of its name. -/
theorem afterTypeHere?_text : Text.afterTypeHere? (h.text list) = some (h.afterName list) := by
  have hkeyword : Text.afterOneOf? Text.typeKeywords (h.text list).afterTypeModifiers =
      some (h.keyword.blanks.1 ++ h.afterKeyword list) := by
    rw [afterTypeModifiers_text, fromKeyword, Keyword.text, List.append_assoc,
      Text.afterOneOf?_typeKeyword h.keyword.mem]
  rw [Text.afterTypeHere?_of_keyword hkeyword, afterKeyword]
  cases h.second with
  | some k =>
    have hskip : Text.skipBlanks? (h.keyword.blanks.1 ++
        (k.text ++ (h.name.text ++ h.afterName list))) =
          some (k.text ++ (h.name.text ++ h.afterName list)) :=
      skipBlanks?_blanks h.keyword.apart
        (head?_keyword areWords_secondTypeKeywords k (fun _ ↦ Text.isBlank_of_isWord) _)
    rw [Option.elim_some, hskip, Option.bind_some, Keyword.text, List.append_assoc,
      Text.afterOneOf?_secondTypeKeyword k.mem, Option.bind_some,
      nameAfterBlanks?_name k.apart h.name (h.head?_afterName list), Option.some_or,
      Option.map_some]
  | none =>
    have hskip : Text.skipBlanks? (h.keyword.blanks.1 ++ (h.name.text ++ h.afterName list)) =
        some (h.name.text ++ h.afterName list) :=
      skipBlanks?_blanks h.keyword.apart
        (h.name.head?_text (by decide) (fun _ ↦ Text.isBlank_of_isWord) _)
    rw [Option.elim_none, List.nil_append, hskip, Option.bind_some,
      bind_nameAfterBlanks?_eq_none, Option.none_or,
      nameAfterBlanks?_name h.keyword.apart h.name (h.head?_afterName list), Option.map_some]

/-- Behind lines that hold no type keyword a declaration is found, and its base list begins where
it was written. -/
theorem afterTypeFrom?_text {p : Text} (hp : p ≠ [] → p.getLast? = some '\n')
    (hfree : ∀ k ∈ Text.typeKeywords, ¬k <:+: p) :
    Text.afterTypeFrom? none (p ++ h.text list) = some (h.afterName list) :=
  Text.afterTypeFrom?_append h.indent (h.head?_body list) (fun _ ↦ rfl) hp hfree
    (h.afterTypeHere?_text list)

end TypeHeader

end Written

end CSharpOutline
