import CSharpOutline.Proofs.Code.Nesting
import CSharpOutline.Proofs.Head.Reads
import CSharpOutline.Proofs.Text.Words

/-!
# The parts of a written declaration

What a reader takes off the start of a text is given here from the other side, as it is written:
runs of blanks, attributes, keywords, groups and qualified names. Each of them is a type whose
values carry what makes them readable, and for each there is one lemma that says how it is read: a
reader that is given the written part with some text behind it leaves exactly that text.

The only conditions are on the text behind, and they say that it does not go on with the part: no
further bracket after an attribute, no part of a name after a name. Nothing is asked of what stands
inside a group except that it nests.
-/

namespace CSharpOutline.Written

/-- A run of blanks, possibly empty. -/
abbrev Blanks := { b : Text // b.allBlank = true }

theorem trimStart_blanks (b : Blanks) (r : Text) : Text.trimStart (b.1 ++ r) = Text.trimStart r :=
  Text.trimStart_allBlank_append b.2 r

theorem head?_blanks {b : Blanks} (h : b.1 ≠ []) (r : Text) :
    (b.1 ++ r).head?.any isBlank = true := by
  obtain ⟨c, t, hb⟩ := List.exists_cons_of_ne_nil h
  have hblank := b.2
  rw [hb, Text.allBlank_cons, Bool.and_eq_true] at hblank
  rw [hb, List.cons_append, List.head?_cons, Option.any_some, hblank.1]

/-- Blanks are skipped if there are any, up to the first visible character. -/
theorem skipBlanks?_eq_some_iff {t r : Text} :
    Text.skipBlanks? t = some r ↔
      ∃ b : Blanks, b.1 ≠ [] ∧ t = b.1 ++ r ∧ r.head?.any isBlank = false := by
  constructor
  · intro h
    rcases t with - | ⟨c, t⟩
    · exact absurd h (by simp [Text.skipBlanks?])
    · rw [Text.skipBlanks?] at h
      split at h
      · next hc =>
        obtain ⟨b, hb, ht⟩ := Text.exists_eq_append_trimStart t
        rw [Option.some.inj h] at ht
        refine ⟨⟨c :: b, by rw [Text.allBlank_cons, hc, hb]; rfl⟩, List.cons_ne_nil c b, ?_, ?_⟩
        · rw [ht, List.cons_append]
        · rw [← Option.some.inj h, Option.any_eq_false]
          exact fun d hd ↦ Text.head?_trimStart hd
      · exact absurd h (by simp)
  · rintro ⟨b, hb, rfl, hr⟩
    obtain ⟨c, t, htext⟩ := List.exists_cons_of_ne_nil hb
    have hall := b.2
    rw [htext, Text.allBlank_cons, Bool.and_eq_true] at hall
    rw [htext, List.cons_append, Text.skipBlanks?, if_pos hall.1,
      Text.trimStart_allBlank_append hall.2, Text.trimStart, Text.dropWhile_of_head hr]

/-- A run of blanks starts with a blank; an empty one with what follows it. -/
theorem head?_blanks_append (b : Blanks) {p : Char → Bool}
    (hp : ∀ c, isBlank c = true → p c = false) {r : Text}
    (hr : b.1 = [] → r.head?.any p = false) : (b.1 ++ r).head?.any p = false := by
  by_cases hnil : b.1 = []
  · rw [hnil]
    exact hr hnil
  · obtain ⟨c, t, hb⟩ := List.exists_cons_of_ne_nil hnil
    have hc := head?_blanks hnil r
    rw [hb] at hc ⊢
    exact hp c hc

/-! ## Attributes -/

/-- An attribute in square brackets, and the blanks behind it. -/
structure Attribute where
  body : Text
  closed : ']' ∉ body
  blanks : Blanks

def Attribute.text (a : Attribute) : Text := '[' :: (a.body ++ ']' :: a.blanks.1)

theorem afterAttributes?_attributes (attributes : List Attribute) (r : Text) :
    Head.afterAttributes? (Text.trimStart (attributes.flatMap Attribute.text ++ r)) =
      Head.afterAttributes? r.trimStart := by
  induction attributes with
  | nil => rfl
  | cons a attributes ih =>
    have hafter : Text.after? ']' (a.body ++ ']' :: (a.blanks.1 ++
        (attributes.flatMap Attribute.text ++ r))) =
          some (a.blanks.1 ++ (attributes.flatMap Attribute.text ++ r)) :=
      Text.after?_eq_some_iff.mpr ⟨a.body, a.closed, rfl⟩
    have htext : (a :: attributes).flatMap Attribute.text ++ r =
        '[' :: (a.body ++ ']' :: (a.blanks.1 ++ (attributes.flatMap Attribute.text ++ r))) := by
      simp [Attribute.text]
    rw [htext, Text.trimStart_cons (by decide), Head.afterAttributes?_bracket, hafter,
      Option.bind_some, trimStart_blanks, ih]

/-! ## Keywords

A keyword brings the blank that ends it. So keywords are dropped with those that the text behind
them starts with, and one that is not among those asked for is not dropped. -/

/-- One of some keywords, and the blanks behind it, of which there is at least one. -/
structure Keyword (keywords : List Text) where
  word : Text
  mem : word ∈ keywords
  blanks : Blanks
  apart : blanks.1 ≠ []

def Keyword.text {keywords : List Text} (k : Keyword keywords) : Text := k.word ++ k.blanks.1

section
variable {keywords : List Text} (hwords : Head.areWords keywords = true)

include hwords

theorem isBlank_of_mem_keyword {k : Text} (hk : k ∈ keywords) {c : Char} (hc : c ∈ k) :
    isBlank c = false :=
  Text.isBlank_of_isWord (Head.isWord_of_areWords hwords hk hc)

private theorem afterKeyword?_keyword (k : Keyword keywords) (r : Text) :
    Text.afterKeyword? keywords (k.text ++ r) = some r.trimStart := by
  obtain ⟨b, w, hblanks⟩ := List.exists_cons_of_ne_nil k.apart
  have hall := k.blanks.2
  rw [hblanks, Text.allBlank_cons, Bool.and_eq_true] at hall
  refine Text.afterKeyword?_eq_some_iff.mpr ⟨k.word, b, w ++ r, k.mem, ?_, hall.1, ?_, ?_⟩
  · exact fun c hc ↦ isBlank_of_mem_keyword hwords k.mem hc
  · rw [Keyword.text, hblanks, List.append_assoc, List.cons_append]
  · exact (Text.trimStart_allBlank_append hall.2 r).symm

theorem afterKeyword?_of_not_mem (k : Keyword keywords) {others : List Text}
    (h : k.word ∉ others) (r : Text) : Text.afterKeyword? others (k.text ++ r) = none := by
  have htake : (k.text ++ r).takeWhile (fun c ↦ !isBlank c) = k.word := by
    obtain ⟨b, w, hblanks⟩ := List.exists_cons_of_ne_nil k.apart
    have hall := k.blanks.2
    rw [hblanks, Text.allBlank_cons, Bool.and_eq_true] at hall
    have hword : ∀ c ∈ k.word, (!isBlank c) = true := by
      intro c hc
      rw [isBlank_of_mem_keyword hwords k.mem hc]
      rfl
    rw [Keyword.text, hblanks, List.append_assoc, List.takeWhile_append_of_pos hword,
      List.cons_append, List.takeWhile_cons_of_neg (by simp [hall.1]), List.append_nil]
  rw [Text.afterKeyword?, htake, if_neg (by simpa using h)]

theorem head?_keyword (k : Keyword keywords) {p : Char → Bool}
    (hp : ∀ c, isWord c = true → p c = false) (r : Text) :
    (k.text ++ r).head?.any p = false := by
  obtain ⟨c, w, hword⟩ := List.exists_cons_of_ne_nil (Head.ne_nil_of_areWords hwords k.mem)
  rw [Keyword.text, hword]
  refine hp c (Head.isWord_of_areWords hwords k.mem ?_)
  rw [hword]
  exact List.mem_cons_self

/-- Keywords start with a word character; where there are none, what follows them starts. -/
theorem head?_keywords (ks : List (Keyword keywords)) {p : Char → Bool} {r : Text}
    (hp : ∀ c, isWord c = true → p c = false) (hr : r.head?.any p = false) :
    (ks.flatMap Keyword.text ++ r).head?.any p = false := by
  rcases ks with - | ⟨k, ks⟩
  · exact hr
  · rw [List.flatMap_cons, List.append_assoc]
    exact head?_keyword hwords k hp _

theorem trimStart_keywords (ks : List (Keyword keywords)) {r : Text}
    (hr : r.head?.any isBlank = false) :
    Text.trimStart (ks.flatMap Keyword.text ++ r) = ks.flatMap Keyword.text ++ r :=
  Text.dropWhile_of_head (head?_keywords hwords ks (fun _ ↦ Text.isBlank_of_isWord) hr)

theorem dropKeywords_append_keywords (ks : List (Keyword keywords)) {r : Text}
    (hr : r.head?.any isBlank = false) :
    Text.dropKeywords keywords (ks.flatMap Keyword.text ++ r) =
      (!ks.isEmpty || (Text.dropKeywords keywords r).1, (Text.dropKeywords keywords r).2) := by
  induction ks with
  | nil => rfl
  | cons k ks ih =>
    have hk := afterKeyword?_keyword hwords k (ks.flatMap Keyword.text ++ r)
    rw [trimStart_keywords hwords ks hr] at hk
    rw [List.flatMap_cons, List.append_assoc, Text.dropKeywords_of_some hk, ih]
    rfl

theorem dropKeywords_keywords (ks : List (Keyword keywords)) {r : Text}
    (hr : r.head?.any isBlank = false) (hnone : Text.afterKeyword? keywords r = none) :
    Text.dropKeywords keywords (ks.flatMap Keyword.text ++ r) = (!ks.isEmpty, r) := by
  rw [dropKeywords_append_keywords hwords ks hr, Text.dropKeywords_of_none hnone, Bool.or_false]

end

/-! ## Groups -/

/-- A group that starts with a given bracket. -/
structure Group (opener : Char) where
  text : Text
  nested : text.isGroup = true
  opens : text.head? = some opener

theorem afterGroup_angles (g : Group '<') (r : Text) : Text.afterGroup (g.text ++ r) = r :=
  Text.afterGroup_of_isGroup g.nested (.inl g.opens) r

theorem afterGroup_parens (g : Group '(') (r : Text) : Text.afterGroup (g.text ++ r) = r :=
  Text.afterGroup_of_isGroup g.nested (.inr g.opens) r

theorem head?_group {opener : Char} (g : Group opener) (r : Text) :
    (g.text ++ r).head? = some opener := by
  rw [List.head?_append, g.opens, Option.some_or]

theorem trimStart_group {opener : Char} (h : isBlank opener = false) (g : Group opener) (r : Text) :
    Text.trimStart (g.text ++ r) = g.text ++ r := by
  refine Text.dropWhile_of_head ?_
  rw [head?_group, Option.any_some, h]

/-! ## Names -/

/-- A declared name: word characters behind an optional mark `@`. -/
structure Name where
  marked : Bool
  word : Text
  isWord : word.all isWord = true
  ne_nil : word ≠ []

namespace Name

def text (n : Name) : Text := if n.marked then '@' :: n.word else n.word

variable (n : Name)

theorem isWord_of_mem {c : Char} (hc : c ∈ n.word) : CSharpOutline.isWord c = true :=
  List.all_eq_true.mp n.isWord c hc

/-- A name starts with its mark or a word character, so with nothing that a reader in front of it
could take in. -/
theorem exists_head : ∃ c t, n.text = c :: t ∧ (c = '@' ∨ CSharpOutline.isWord c = true) := by
  rw [text]
  split
  · exact ⟨'@', n.word, rfl, .inl rfl⟩
  · obtain ⟨c, t, hword⟩ := List.exists_cons_of_ne_nil n.ne_nil
    exact ⟨c, t, hword, .inr (n.isWord_of_mem (by rw [hword]; exact List.mem_cons_self))⟩

theorem head?_text {p : Char → Bool} (hmark : p '@' = false)
    (hword : ∀ c, CSharpOutline.isWord c = true → p c = false) (r : Text) :
    (n.text ++ r).head?.any p = false := by
  obtain ⟨c, t, htext, hc⟩ := n.exists_head
  rw [htext, List.cons_append, List.head?_cons, Option.any_some]
  rcases hc with rfl | hc
  · exact hmark
  · exact hword c hc

theorem isBlank_of_mem {c : Char} (hc : c ∈ n.text) : isBlank c = false := by
  rw [text] at hc
  split at hc
  · rcases List.mem_cons.mp hc with rfl | hc
    · decide
    · exact Text.isBlank_of_isWord (n.isWord_of_mem hc)
  · exact Text.isBlank_of_isWord (n.isWord_of_mem hc)

theorem trimStart_text (r : Text) : Text.trimStart (n.text ++ r) = n.text ++ r :=
  Text.dropWhile_of_head (n.head?_text (by decide) (fun _ ↦ Text.isBlank_of_isWord) r)

private theorem unmarked_text (r : Text) : Head.unmarked (n.text ++ r) = n.word ++ r := by
  rw [text]
  split
  · rfl
  · refine Head.unmarked_of_ne fun s heq ↦ ?_
    obtain ⟨c, t, hword⟩ := List.exists_cons_of_ne_nil n.ne_nil
    have hc := n.isWord_of_mem (by rw [hword]; exact List.mem_cons_self)
    rw [hword, List.cons_append] at heq
    rw [(List.cons.inj heq).1] at hc
    exact absurd hc (by decide)

/-- A name is read up to the first character that is not of the class that is asked for. -/
theorem name?_text {p : Char → Bool} (hp : ∀ c, CSharpOutline.isWord c = true → p c = true)
    {r : Text} (hr : r.head?.any p = false) :
    Text.name? p (n.text ++ r) = some (n.text, r) := by
  have hdrop : (n.word ++ r).dropWhile p = r := by
    rw [List.dropWhile_append_of_pos fun c hc ↦ hp c (n.isWord_of_mem hc),
      Text.dropWhile_of_head hr]
  have hpos := List.length_pos_iff.mpr n.ne_nil
  refine Head.name?_eq_some_iff.mpr ⟨rfl, ?_, ?_⟩
  · rw [unmarked_text, hdrop]
  · rw [unmarked_text, List.length_append]
    omega

end Name

/-! ## Qualified names -/

/-- A text made of word characters, dots and double colons. -/
inductive IsQualified : Text → Prop where
  | nil : IsQualified []
  | part {c : Char} {t : Text} : isNamePart c = true → IsQualified t → IsQualified (c :: t)
  | colons {t : Text} : IsQualified t → IsQualified (':' :: ':' :: t)

/-- A name that may be qualified. -/
structure QualifiedName where
  text : Text
  qualified : IsQualified text
  ne_nil : text ≠ []

theorem IsQualified.of_all {t : Text} (h : t.all isNamePart = true) : IsQualified t := by
  induction t with
  | nil => exact .nil
  | cons c t ih =>
    rw [List.all_cons, Bool.and_eq_true] at h
    exact .part h.1 (ih h.2)

theorem IsQualified.isNamePart_or_colon {t : Text} (h : IsQualified t) :
    ∀ c ∈ t, isNamePart c = true ∨ c = ':' := by
  induction h with
  | nil => simp
  | part hc _ ih =>
    intro d hd
    rcases List.mem_cons.mp hd with rfl | hd
    · exact .inl hc
    · exact ih d hd
  | colons _ ih =>
    intro d hd
    rcases List.mem_cons.mp hd with rfl | hd
    · exact .inr rfl
    · rcases List.mem_cons.mp hd with rfl | hd
      · exact .inr rfl
      · exact ih d hd

theorem IsQualified.isBlank_eq_false {t : Text} (h : IsQualified t) {c : Char} (hc : c ∈ t) :
    isBlank c = false := by
  rcases h.isNamePart_or_colon c hc with hname | rfl
  · exact Text.isBlank_of_class (fun _ ↦ Text.isNamePart_of_isBlank) hname
  · decide

private theorem IsQualified.afterQualified {t : Text} (h : IsQualified t) {r : Text}
    (hr : r.head?.any (fun c ↦ isNamePart c || c == ':') = false) :
    Head.afterQualified (t ++ r) = r := by
  induction h with
  | nil => exact Head.afterQualified_of_head hr
  | @part c t hc _ ih =>
    have hcolon : c ≠ ':' := by
      rintro rfl
      exact absurd hc (by decide)
    rw [List.cons_append, Head.afterQualified, if_pos hc, ih]
    simp [hcolon]
  | colons _ ih => rw [List.cons_append, List.cons_append, Head.afterQualified, ih]

theorem afterTypeName?_qualified (name : QualifiedName) {r : Text}
    (hr : r.head?.any (fun c ↦ isNamePart c || c == ':') = false) :
    Head.afterTypeName? (name.text ++ r) = some r := by
  have hunmarked : Head.unmarked (name.text ++ r) = name.text ++ r := by
    refine Head.unmarked_of_ne fun s heq ↦ ?_
    obtain ⟨c, t, hname⟩ := List.exists_cons_of_ne_nil name.ne_nil
    rw [hname, List.cons_append] at heq
    have hc := name.qualified.isNamePart_or_colon c (by rw [hname]; exact List.mem_cons_self)
    rw [(List.cons.inj heq).1] at hc
    exact absurd hc (by decide)
  have hlength := List.length_pos_iff.mpr name.ne_nil
  rw [Head.afterTypeName?_eq, hunmarked, name.qualified.afterQualified hr, if_pos]
  rw [List.length_append]
  omega

end CSharpOutline.Written
