import CSharpOutline.Member.Method
import CSharpOutline.Proofs.Code.Passing
import CSharpOutline.Proofs.Head.Parts
import CSharpOutline.Proofs.Member.SignatureName

/-!
# Telling methods from properties by their signatures

Whether a signature is a method's is decided twice. The scan knows it from the structure of the
declaration, which has a parameter list in the place of its boundary. Of the text alone one can only
ask whether it ends with a closing parenthesis, constraint clauses aside.

For a method the two agree if nothing stands between the parameters and the opener of the body, or a
constraint clause, or something that ends with a closing parenthesis itself, as the initializer of a
constructor does. Collapsing the text keeps each of the three (`Text.endsWithParameters_collapse`).
A property ends with its name or its type parameters, so its signature ends with a character of a
name or with `>` (`Scan.exists_last_of_property`). Then only a constraint clause could make it look
like a method, and a text without the word `where` has none.
-/

namespace CSharpOutline

namespace Written

/-- The start of a constraint clause: the keyword `where`, blanks, a name and a colon. -/
structure Constraint where
  blanks : Blanks
  blanks_ne_nil : blanks.1 ≠ []
  name : Text
  name_ne_nil : name ≠ []
  isWord : ∀ c ∈ name, isWord c = true
  behind : Blanks

namespace Constraint

variable (x : Constraint)

def text : Text := "where".toList ++ (x.blanks.1 ++ (x.name ++ (x.behind.1 ++ [':'])))

-- `delta`, because an equation made by `unfold` would have the keyword evaluated
theorem text_eq : x.text = "where".toList ++ (x.blanks.1 ++ (x.name ++ (x.behind.1 ++ [':']))) := by
  delta text
  rfl

private theorem trimStart_text (r : Text) : Text.trimStart (x.text ++ r) = x.text ++ r :=
  Text.trimStart_cons (c := 'w') (by decide) _

theorem exists_eq_concat : ∃ front, x.text = front ++ [':'] :=
  ⟨"where".toList ++ (x.blanks.1 ++ (x.name ++ x.behind.1)), by
    simp only [text_eq, List.append_assoc]⟩

theorem head?_name (r : Text) : (x.name ++ r).head?.any isBlank = false := by
  obtain ⟨c, t, ht⟩ := List.exists_cons_of_ne_nil x.name_ne_nil
  have hc := x.isWord c (by rw [ht]; exact List.mem_cons_self)
  rw [ht, List.cons_append, List.head?_cons, Option.any_some, Text.isBlank_of_isWord hc]

end Constraint

end Written

namespace Text

open Written

/-! ## Constraint clauses -/

theorem startsConstraint_iff {t : Text} :
    t.startsConstraint = true ↔ ∃ x : Constraint, x.text <+: t.trimStart := by
  unfold startsConstraint
  constructor
  · intro h
    split at h
    · exact absurd h (by decide)
    · next rest hrest =>
      obtain ⟨s, hs, hskip⟩ := Option.bind_eq_some_iff.mp hrest
      obtain ⟨b, hb, rfl, -⟩ := skipBlanks?_eq_some_iff.mp hskip
      split at h
      · exact absurd h (by decide)
      · next hname =>
        obtain ⟨r, hr⟩ := List.head?_eq_some_iff.mp (beq_iff_eq.mp h)
        obtain ⟨w, hw, hbehind⟩ := exists_eq_append_trimStart (rest.dropWhile isWord)
        have hword : ∀ c ∈ rest.takeWhile isWord, isWord c = true :=
          List.all_eq_true.mp List.all_takeWhile
        refine ⟨⟨b, hb, rest.takeWhile isWord, hname, hword, ⟨w, hw⟩⟩, r, ?_⟩
        have hparts : rest.takeWhile isWord ++ (w ++ ':' :: r) = rest := by
          rw [← hr, ← hbehind, List.takeWhile_append_dropWhile]
        rw [expect?_eq_some_iff.mp hs, Constraint.text_eq]
        simp only [List.append_assoc, List.singleton_append, hparts]
  · rintro ⟨x, r, hr⟩
    have hexpect : expect? "where".toList t.trimStart =
        some (x.blanks.1 ++ (x.name ++ (x.behind.1 ++ ':' :: r))) := by
      rw [expect?_eq_some_iff, ← hr, x.text_eq]
      simp
    have hskip := skipBlanks?_eq_some_iff.mpr
      ⟨x.blanks, x.blanks_ne_nil, rfl, x.head?_name (x.behind.1 ++ ':' :: r)⟩
    have htail : (x.behind.1 ++ ':' :: r).dropWhile isWord = x.behind.1 ++ ':' :: r :=
      dropWhile_of_head (head?_blanks_append _ isWord_of_isBlank fun _ ↦ rfl)
    rw [hexpect, Option.bind_some, hskip]
    dsimp only
    split
    · next hnil =>
      rw [List.takeWhile_append_of_pos x.isWord, List.append_eq_nil_iff] at hnil
      exact absurd hnil.1 x.name_ne_nil
    · rw [List.dropWhile_append_of_pos x.isWord, htail, trimStart_allBlank_append x.behind.2,
        trimStart_cons (by decide)]
      rfl

theorem hasConstraintAfterParen_iff {t : Text} :
    t.hasConstraintAfterParen = true ↔ ∃ s r, t = s ++ ')' :: r ∧ startsConstraint r = true := by
  induction t with
  | nil => simp [hasConstraintAfterParen]
  | cons c t ih =>
    rw [hasConstraintAfterParen, Bool.or_eq_true, Bool.and_eq_true, beq_iff_eq, ih]
    constructor
    · rintro (⟨rfl, hstarts⟩ | ⟨s, r, rfl, hstarts⟩)
      · exact ⟨[], t, rfl, hstarts⟩
      · exact ⟨c :: s, r, rfl, hstarts⟩
    · rintro ⟨s, r, heq, hstarts⟩
      rcases s with - | ⟨d, s⟩
      · obtain ⟨rfl, rfl⟩ := List.cons.inj heq
        exact .inl ⟨rfl, hstarts⟩
      · obtain ⟨-, rfl⟩ := List.cons.inj heq
        exact .inr ⟨s, r, rfl, hstarts⟩

private theorem infix_of_hasConstraintAfterParen {t : Text} (h : t.hasConstraintAfterParen = true) :
    "where".toList <:+: t := by
  obtain ⟨s, r, rfl, hstarts⟩ := hasConstraintAfterParen_iff.mp h
  obtain ⟨x, hx⟩ := startsConstraint_iff.mp hstarts
  have hkeyword : "where".toList <+: trimStart r := (List.prefix_append _ _).trans hx
  have hsuffix : trimStart r <:+ s ++ ')' :: r :=
    (trimStart_suffix r).trans ((List.suffix_cons _ r).trans (List.suffix_append s _))
  exact hkeyword.isInfix.trans hsuffix.isInfix

/-! ## The end of a signature

A signature with a constraint clause is a method's whether or not its body is opened, and any other
one is judged by its last character that is not the brace of the body. -/

/-- The brace of the body stands behind each visible character but itself. -/
theorem exists_withoutBodyBrace_eq (u : Text) {d : Char} (hd : isBlank d = false) (hne : d ≠ '{')
    (v : Text) : ∃ v', withoutBodyBrace (u ++ d :: v) = trimStart u ++ d :: v' := by
  obtain ⟨w, hw⟩ := exists_trim_eq u hd v
  rw [withoutBodyBrace, hw]
  split
  · next hlast =>
    have hwne : w ≠ [] := by
      rintro rfl
      rw [List.getLast?_concat] at hlast
      exact hne (Option.some.inj hlast)
    have hdrop : (trimStart u ++ d :: w).dropLast = trimStart u ++ d :: w.dropLast := by
      rw [List.dropLast_append_of_ne_nil (List.cons_ne_nil d w), List.dropLast_cons_of_ne_nil hwne]
    rw [hdrop]
    exact exists_trimEnd_eq _ hd _
  · exact ⟨w, rfl⟩

/-- A signature with a constraint clause is a method's, whether or not its body is opened. -/
theorem endsWithParameters_of_constraint {t : Text} (h : t.hasConstraintAfterParen = true) :
    t.endsWithParameters = true := by
  obtain ⟨s, r, rfl, hstarts⟩ := hasConstraintAfterParen_iff.mp h
  obtain ⟨x, tail, htail⟩ := startsConstraint_iff.mp hstarts
  obtain ⟨b, hb, hr⟩ := exists_eq_append_trimStart r
  -- the colon of the clause stays, and with it all that makes it a clause
  obtain ⟨front, hfront⟩ := x.exists_eq_concat
  have heq : s ++ ')' :: r = (s ++ ')' :: (b ++ front)) ++ ':' :: tail := by
    rw [hr, ← htail, hfront]
    simp
  obtain ⟨v, hv⟩ := exists_withoutBodyBrace_eq (s ++ ')' :: (b ++ front)) (d := ':')
    (by decide) (by decide) tail
  have hkept : b ++ front ++ ':' :: v = b ++ (x.text ++ v) := by
    rw [hfront]
    simp
  rw [endsWithParameters, heq, hv, trimStart_append_cons s (by decide), List.append_assoc,
    List.cons_append, hkept, Bool.or_eq_true]
  refine .inl (hasConstraintAfterParen_iff.mpr ⟨_, _, rfl, startsConstraint_iff.mpr ⟨x, ?_⟩⟩)
  rw [trimStart_allBlank_append hb, x.trimStart_text]
  exact List.prefix_append _ _

theorem endsWithParameters_of_last {t : Text} (ht : t.IsTrimmed) {c : Char}
    (h : t.getLast? = some c) (hc : c ≠ '{') :
    t.endsWithParameters = (t.hasConstraintAfterParen || c == ')') := by
  have hbrace : ¬t.getLast? = some '{' := by
    rw [h, Option.some.injEq]
    exact hc
  rw [endsWithParameters, withoutBodyBrace, ht.trim_eq, if_neg hbrace, h]
  rfl

theorem getLast?_collapse (t : Text) : (collapse t).getLast? = (visible t).getLast? := by
  rw [← (isSpaced_collapse t).getLast?_visible, visible_collapse]

private theorem getLast?_trim (t : Text) : (trim t).getLast? = (visible t).getLast? := by
  rw [← (isTrimmed_trim t).getLast?_visible, visible_trim]

/-! ## Collapsing a signature

Collapsing squeezes the blanks inside a clause and drops those at the ends, so a clause stays one,
and what ends with a closing parenthesis still does. -/

private theorem squeeze_blanks_append {b : Blanks} (hb : b.1 ≠ []) {r : Text} (hr : r ≠ [])
    (hhead : r.head?.any isBlank = false) : squeeze (b.1 ++ r) = ' ' :: squeeze r := by
  obtain ⟨c, t, ht⟩ := List.exists_cons_of_ne_nil hb
  have hall := b.2
  rw [ht, allBlank_cons, Bool.and_eq_true] at hall
  have htrim : trimStart (t ++ r) = r := by
    rw [trimStart_allBlank_append hall.2, trimStart, dropWhile_of_head hhead]
  rw [ht, List.cons_append, squeeze_blank_cons hall.1 (by rwa [htrim]), htrim]

private theorem exists_squeeze_eq (x : Constraint) : ∃ y : Constraint, squeeze x.text = y.text := by
  have hkeyword : ∀ c ∈ "where".toList, isBlank c = false := fun c hc ↦
    isBlank_of_isWord (isWord_where c hc)
  have hname : ∀ c ∈ x.name, isBlank c = false := fun c hc ↦ isBlank_of_isWord (x.isWord c hc)
  obtain ⟨behind, hbehind⟩ : ∃ b : Blanks, squeeze (x.behind.1 ++ [':']) = b.1 ++ [':'] := by
    by_cases hnil : x.behind.1 = []
    · refine ⟨x.behind, ?_⟩
      rw [hnil]
      rfl
    · exact ⟨⟨[' '], rfl⟩, squeeze_blanks_append hnil (List.cons_ne_nil _ _) rfl⟩
  refine ⟨{ x with blanks := ⟨[' '], rfl⟩, blanks_ne_nil := List.cons_ne_nil _ _, behind }, ?_⟩
  rw [Constraint.text_eq, Constraint.text_eq,
    squeeze_append fun c hc ↦ hkeyword c (List.mem_of_getLast? hc), squeeze_eq_self hkeyword,
    squeeze_blanks_append x.blanks_ne_nil (by simp) (x.head?_name _),
    squeeze_append fun c hc ↦ hname c (List.mem_of_getLast? hc), squeeze_eq_self hname, hbehind]
  rfl

private theorem startsConstraint_squeeze {t : Text} (h : t.startsConstraint = true) :
    t.squeeze.startsConstraint = true := by
  obtain ⟨x, r, hr⟩ := startsConstraint_iff.mp h
  have hlast : ∀ c, x.text.getLast? = some c → isBlank c = false := by
    obtain ⟨front, hfront⟩ := x.exists_eq_concat
    intro c hc
    rw [hfront, List.getLast?_concat] at hc
    rw [← Option.some.inj hc]
    decide
  obtain ⟨y, hy⟩ := exists_squeeze_eq x
  refine startsConstraint_iff.mpr ⟨y, squeeze r, ?_⟩
  rw [trimStart_squeeze, ← hr, squeeze_append hlast, hy]

private theorem collapse_append_cons (s : Text) {c : Char} (hc : isBlank c = false) (t : Text) :
    collapse (s ++ c :: t) = collapse (s ++ [c]) ++ squeeze t := by
  have hlast : ∀ d, (trimStart s ++ [c]).getLast? = some d → isBlank d = false := by
    intro d hd
    rwa [← Option.some.inj (List.getLast?_concat.symm.trans hd)]
  rw [collapse_eq_squeeze, collapse_eq_squeeze, trimStart_append_cons s hc,
    trimStart_append_cons s hc, ← squeeze_append hlast, List.append_assoc]
  rfl

/-- What may stand between the parameters of a method and its body: nothing, a constraint clause, or
what ends with a closing parenthesis. -/
def EndsSignature (between : Text) : Prop :=
  between.allBlank = true ∨ (∃ x : Constraint, x.text <+: between.trim) ∨
    between.trim.getLast? = some ')'

/-- A signature that is cut off behind such a text is a method's. -/
theorem endsWithParameters_collapse (s : Text) {between : Text} (h : EndsSignature between) :
    (collapse (s ++ ')' :: between)).endsWithParameters = true := by
  -- unless a clause follows, the last visible character is a closing parenthesis
  have hlast (hend : (visible (s ++ ')' :: between)).getLast? = some ')') :
      (collapse (s ++ ')' :: between)).endsWithParameters = true := by
    rw [← getLast?_collapse] at hend
    rw [endsWithParameters_of_last (isSpaced_collapse _).toIsTrimmed hend (by decide)]
    exact Bool.or_true _
  rcases h with hblank | ⟨x, hx⟩ | hparen
  · refine hlast ?_
    rw [visible_append, visible_cons (by decide), visible_of_allBlank hblank, List.getLast?_concat]
  · have hstarts : between.startsConstraint = true := by
      obtain ⟨e, -, he⟩ := exists_eq_trimEnd_append between.trimStart
      refine startsConstraint_iff.mpr ⟨x, ?_⟩
      rw [he]
      exact hx.trans (List.prefix_append _ e)
    have hend : (collapse (s ++ [')'])).getLast? = some ')' := by
      rw [getLast?_collapse, visible_append, visible_cons (by decide), visible_nil,
        List.getLast?_concat]
    obtain ⟨front, hfront⟩ := List.getLast?_eq_some_iff.mp hend
    refine endsWithParameters_of_constraint (hasConstraintAfterParen_iff.mpr
      ⟨front, squeeze between, ?_, startsConstraint_squeeze hstarts⟩)
    rw [collapse_append_cons s (by decide), hfront, List.append_assoc]
    rfl
  · refine hlast ?_
    rw [getLast?_trim] at hparen
    rw [visible_append, visible_cons (by decide), List.getLast?_append, List.getLast?_cons, hparen]
    rfl

end Text

/-! ## The end of a property

In front of a boundary that is no parameter list stands a name or type parameters. So the last
visible character is one of a name or the closer of a group. -/

/-- A group that something follows is closed in front of it. -/
theorem Text.exists_closer {c : Char} {k : Bracket} (hk : Bracket.ofOpener? c = some k)
    (hc : c = '<' ∨ c = '(') {t : Text} (h : afterGroup (c :: t) ≠ []) :
    ∃ s, t = s ++ k.closer :: afterGroup (c :: t) ∧ closing? (c :: t) = some (s.length + 1) := by
  have hgroup := afterGroup_cons hk hc t
  rcases hstop : Balance.fresh.afterStop? (Balance.closed k) (c :: t) with - | after
  · rw [hgroup, hstop] at h
    exact absurd rfl h
  · obtain ⟨s, rfl, -⟩ := Balance.exists_closer hk hstop
    refine ⟨s, by rw [hgroup, hstop, Option.getD_some], ?_⟩
    rw [closing?, hk]
    exact Balance.stopOffset?_of_afterStop? (s := c :: s) hstop

namespace Head

private theorem exists_getLast?_name {p : Char → Bool} {t name rest : Text}
    (h : Text.name? p t = some (name, rest)) : ∃ c, name.getLast? = some c ∧ p c = true := by
  obtain ⟨ht, hrest, hlt⟩ := name?_eq_some_iff.mp h
  have hrun := List.takeWhile_append_dropWhile (p := p) (l := unmarked t)
  rw [hrest] at hrun
  have hne : (unmarked t).takeWhile p ≠ [] := by
    intro hnil
    rw [hnil, List.nil_append] at hrun
    rw [← hrun] at hlt
    exact absurd hlt (Nat.lt_irrefl _)
  obtain ⟨s, hname, hsuffix⟩ := exists_eq_append (r := (unmarked t).takeWhile p) (v := rest)
    (hrun ▸ unmarked_suffix t)
  obtain rfl := List.append_cancel_right (ht.symm.trans hname)
  refine ⟨_, ?_, List.all_eq_true.mp List.all_takeWhile _ (List.getLast_mem hne)⟩
  rw [← Text.getLast?_of_suffix hsuffix hne, List.getLast?_eq_some_getLast hne]

private theorem exists_parametersEnd {t : Text} (h : parametersEnd t ≠ []) :
    ∃ g, t = g ++ parametersEnd t ∧ (g = [] ∨ g.getLast? = some '>') := by
  rw [parametersEnd] at h ⊢
  split at h
  · next hangle =>
    rw [if_pos hangle]
    obtain ⟨u, rfl⟩ := List.head?_eq_some_iff.mp hangle
    obtain ⟨s, hs, -⟩ := Text.exists_closer rfl (.inl rfl) h
    refine ⟨('<' :: s) ++ ['>'], ?_, .inr List.getLast?_concat⟩
    rw [List.append_assoc, List.cons_append]
    exact congrArg ('<' :: ·) hs
  · next hangle =>
    rw [if_neg hangle]
    exact ⟨[], rfl, .inl rfl⟩

/-- What stands in front of a boundary that is no parameter list ends, blanks aside, with the name
or with the type parameters. -/
theorem exists_last_of_named? {typed after name rest : Text}
    (h : named? typed after = some (name, rest)) (hparen : rest.head? ≠ some '(')
    (hne : rest ≠ []) :
    ∃ s c, after.trimStart = s ++ rest ∧ (Text.visible s).getLast? = some c ∧
      (isNamePart c = true ∨ c = '>') := by
  rw [named?] at h
  split at h
  · next hparameters =>
    obtain ⟨-, rfl⟩ := Prod.mk.inj (Option.some.inj h)
    exact absurd hparameters.2 hparen
  · split at h
    · obtain ⟨⟨name, r⟩, hname, heq⟩ := Option.map_eq_some_iff.mp h
      obtain ⟨-, rfl⟩ := Prod.mk.inj heq
      have hend : parametersEnd r ≠ [] := by
        intro hnil
        rw [hnil] at hne
        exact hne rfl
      obtain ⟨c, hc, hpart⟩ := exists_getLast?_name hname
      obtain ⟨g, hg, hlast⟩ := exists_parametersEnd hend
      obtain ⟨w, hw, hblanks⟩ := Text.exists_eq_append_trimStart (parametersEnd r)
      have hafter : after.trimStart = (name ++ g) ++ w ++ (parametersEnd r).trimStart := by
        rw [(name?_eq_some_iff.mp hname).1, List.append_assoc, List.append_assoc, ← hblanks, ← hg]
      have hvisible : Text.visible ((name ++ g) ++ w) = Text.visible (name ++ g) := by
        rw [Text.visible_append, Text.visible_of_allBlank hw, List.append_nil]
      rcases hlast with rfl | hlast
      · refine ⟨_, c, hafter, ?_, .inl hpart⟩
        rw [hvisible, List.append_nil]
        exact Text.getLast?_visible hc (Text.isBlank_of_isNamePart hpart)
      · refine ⟨_, '>', hafter, ?_, .inr rfl⟩
        rw [hvisible]
        exact Text.getLast?_visible (by rw [List.getLast?_append, hlast]; rfl) (by decide)
    · exact absurd h (by simp)

private theorem Reads.exists_last {text name rest : Text} {hasModifiers : Bool}
    (h : Reads text hasModifiers name rest) (hparen : rest.head? ≠ some '(') (hne : rest ≠ []) :
    ∃ shown c, text = shown ++ rest ∧ (Text.visible shown).getLast? = some c ∧
      (isNamePart c = true ∨ c = '>') := by
  obtain ⟨declared, typed, suffixed, after, hdeclared, htyped, hsuffixed, hafter, hnamed⟩ := h
  have hkeywords := Text.dropKeywords_suffix memberModifiers declared
  rw [htyped] at hkeywords
  obtain ⟨front, hfront⟩ : after.trimStart <:+ text :=
    (Text.trimStart_suffix after).trans <| (afterSuffixes?_suffix hafter).trans <|
      (afterType?_suffix hsuffixed).trans <| hkeywords.trans <|
      (afterAttributes?_suffix hdeclared).trans (Text.trimStart_suffix text)
  obtain ⟨s, c, hs, hlast, hc⟩ := exists_last_of_named? hnamed hparen hne
  refine ⟨front ++ s, c, by rw [List.append_assoc, ← hs, hfront], ?_, hc⟩
  rw [Text.visible_append, List.getLast?_append, hlast]
  rfl

end Head

namespace Scan

open Text

theorem exists_last_of_property {shown rest : Text} {kind : Kind} {opener : Opener}
    (h : Reading.ofText (shown ++ rest) = .member kind opener rest) (hkind : kind ≠ .method) :
    ∃ c, (visible shown).getLast? = some c ∧ (isNamePart c = true ∨ c = '>') := by
  have hread := (Reading.ofText_suffix h).2
  have hne : rest ≠ [] := by
    rintro rfl
    exact absurd hread (by simp [Opener.read?])
  obtain ⟨hasModifiers, name, s, -, hreads, -, -, ⟨hmethod, -⟩ | ⟨-, rfl⟩⟩ := exists_reads h
  · exact absurd hmethod hkind
  · obtain ⟨s, c, htext, hc⟩ := hreads.exists_last (head?_ne_of_read? hread).1 hne
    obtain rfl := List.append_cancel_right htext
    exact ⟨c, hc⟩

/-! ## The parameters of a method -/

private theorem exists_closed_parameters {t rest : Text} {opener : Opener}
    (h : Balance.fresh.opening? (afterGroup ('(' :: t)) = some (opener, rest)) :
    ∃ inside between, t = inside ++ ')' :: (between ++ rest) ∧
      closing? ('(' :: t) = some (inside.length + 1) ∧
      Balance.fresh.opening? (between ++ rest) = some (opener, rest) := by
  obtain ⟨inside, ht, hclosing⟩ :=
    Text.exists_closer rfl (.inr rfl) (Verdict.afterGroup_ne_nil_of_opening? h)
  obtain ⟨between, hbetween⟩ := (Balance.opening?_suffix h).1
  rw [← hbetween] at ht h
  exact ⟨inside, between, ht, hclosing, h⟩

/-- The declaration of a method goes on behind the closing parenthesis of its parameters up to the
opener of the body. -/
theorem exists_parameters {shown rest : Text} {opener : Opener}
    (h : Reading.ofText (shown ++ rest) = .member .method opener rest) :
    ∃ head front between, Head.parse? (shown ++ rest) = some head ∧
      head.boundary = some .parameters ∧ shown = front ++ ')' :: between ∧
      closingAt (shown ++ rest) head.boundaryStart = .ok (front.length : Int) ∧
      firstOpener? (shown ++ rest) (front.length + 1) =
        .ok (some ((shown.length : Int), opener)) := by
  obtain ⟨r, hr⟩ := Reading.exists_boundary (t := shown ++ rest) (by rw [h]; simp)
  rw [Reading.ofText_of_boundary hr] at h
  obtain ⟨-, ⟨t, rfl⟩, hopening⟩ | ⟨hkind, -⟩ | ⟨hkind, -⟩ := Reading.member_cases h
  · obtain ⟨inside, between, rfl, hclosing, hbehind⟩ := exists_closed_parameters hopening
    obtain ⟨front, hfront⟩ := Head.boundaryAt?_suffix hr
    obtain rfl : (front ++ '(' :: inside) ++ ')' :: between = shown :=
      List.append_cancel_right (Eq.trans (by simp) hfront)
    generalize htext : (front ++ '(' :: inside) ++ ')' :: between ++ rest = text at hr hfront ⊢
    have hparse := Head.parse?_boundary text
    rw [hr, Option.bind_some] at hparse
    obtain ⟨head, hhead, heq⟩ := Option.map_eq_some_iff.mp hparse
    obtain ⟨hboundary, hstart⟩ := Prod.mk.inj heq
    refine ⟨head, front ++ '(' :: inside, between, hhead, hboundary, rfl, ?_, ?_⟩
    · have hoffset : head.boundaryStart = front.length := by
        rw [hstart, ← hfront, List.length_append, Nat.add_sub_cancel]
      have hlt : front.length < text.length := by
        rw [← hfront]
        simp
      rw [hoffset, closingAt_natCast hlt, ← hfront, List.drop_left, hclosing, Option.elim_some,
        ← Int.natCast_add, List.length_append, List.length_cons]
    · have hdrop : text.drop ((front ++ '(' :: inside).length + 1) = between ++ rest := by
        rw [← htext, List.append_assoc, ← List.drop_drop, List.drop_left]
        rfl
      have hoffset : (((front ++ '(' :: inside).length + 1 : Nat) : Int) +
          ((between ++ rest).length - rest.length : Int) =
            ((front ++ '(' :: inside) ++ ')' :: between).length := by
        simp only [List.length_append, List.length_cons]
        omega
      rw [← Int.natCast_succ, Verdict.firstOpener?_natCast, hdrop, hbehind, Option.map_some,
        hoffset]
  · exact absurd hkind (by decide)
  · exact absurd hkind (by decide)

end Scan

/-- **The text of a signature tells a method from a property.** A method has its parameters at the
boundary of its head. If nothing stands between their closing parenthesis and the opener of the
body, or a constraint clause, or what ends with a closing parenthesis, then the signature is found
to be a method's. A property is not found to be a method if its signature does not hold the word
`where`. -/
theorem Document.member?_endsWithParameters (d : Document) (modifier : Text) (line : Int)
    {b : Block} (h : d.member? modifier line = .ok (some b)) :
    (b.isMethod = true → ∃ (text : Text) (head : Head) (close i : Nat) (opener : Opener),
      Scan.decided? line.toNat {} line.toNat (d.toSnapshot.lines.drop line.toNat) = some text ∧
      Head.parse? text = some head ∧ head.boundary = some .parameters ∧
      text.closingAt head.boundaryStart = .ok (close : Int) ∧
      text.firstOpener? (close + 1) = .ok (some ((i : Int), opener)) ∧
      (Text.EndsSignature ((text.take i).drop (close + 1)) → b.text.endsWithParameters = true)) ∧
    (b.isMethod = false → ¬"where".toList <:+: b.text → b.text.endsWithParameters = false) := by
  obtain ⟨start, o, rfl, -, -, ⟨n, rest, hopens⟩, hblock⟩ :=
    (member?_eq_some_iff d modifier line b).mp h
  obtain ⟨-, hkind, -, htext⟩ := Opening.toBlock_eq_ok_iff.mp hblock
  have hmember := hopens.decides.member
  rw [hopens.text] at hmember
  rw [Block.isMethod, hkind, htext]
  constructor
  · intro hmethod
    rw [beq_iff_eq.mp hmethod] at hmember
    obtain ⟨head, front, between, hhead, hboundary, hshown, hclose, hopener⟩ :=
      Scan.exists_parameters hmember
    refine ⟨o.shown ++ rest, head, front.length, o.shown.length, o.opener, ?_, hhead, hboundary,
      hclose, hopener, fun hends ↦ ?_⟩
    · rw [← hopens.text]
      exact hopens.decides.decided? start
    · rw [List.take_left, hshown, ← List.drop_drop, List.drop_left] at hends
      rw [hshown]
      exact Text.endsWithParameters_collapse front hends
  · intro hproperty hwhere
    obtain ⟨c, hc, hlast⟩ := Scan.exists_last_of_property hmember (by simpa using hproperty)
    rw [← Text.getLast?_collapse] at hc
    have hclass : c ≠ '{' ∧ c ≠ ')' := by
      constructor
      · rintro rfl
        exact absurd hlast (by decide)
      · rintro rfl
        exact absurd hlast (by decide)
    have hconstraint : Text.hasConstraintAfterParen o.shown.collapse = false := by
      rw [← Bool.not_eq_true]
      exact fun hhas ↦ hwhere (Text.infix_of_hasConstraintAfterParen hhas)
    rw [Text.endsWithParameters_of_last (Text.isSpaced_collapse _).toIsTrimmed hc hclass.1,
      hconstraint, Bool.false_or, beq_eq_false_iff_ne]
    exact hclass.2

/-- A method with a constraint clause on its second line. -/
def constrainedMethod : Document := .live "public T F<T>(T a)\n  where\tT : C \x7b".toList

/-- A property of a tuple type. -/
def tupleProperty : Document := .live "public (A, B) Ends => e;".toList

def constraintClause : Written.Constraint where
  blanks := ⟨['\t'], rfl⟩
  blanks_ne_nil := List.cons_ne_nil _ _
  name := ['T']
  name_ne_nil := List.cons_ne_nil _ _
  isWord := List.all_eq_true.mp (by decide)
  behind := ⟨[' '], rfl⟩

theorem member?_endsWithParameters_constrainedMethod :
    constrainedMethod.member? "public".toList 0 =
        .ok (some ⟨.method, 0, 1, "public T F<T>(T a) where T : C".toList⟩) ∧
      Text.endsWithParameters "public T F<T>(T a) where T : C".toList = true ∧
      tupleProperty.member? "public".toList 0 =
        .ok (some ⟨.arrowProperty, 0, 0, "public (A, B) Ends".toList⟩) ∧
      Text.endsWithParameters "public (A, B) Ends".toList = false := by
  have hmethod : constrainedMethod.member? "public".toList 0 =
      .ok (some ⟨.method, 0, 1, "public T F<T>(T a) where T : C".toList⟩) := by decide +kernel
  have hproperty : tupleProperty.member? "public".toList 0 =
      .ok (some ⟨.arrowProperty, 0, 0, "public (A, B) Ends".toList⟩) := by decide +kernel
  have hwhere : ¬"where".toList <:+: "public (A, B) Ends".toList := by decide +kernel
  refine ⟨hmethod, ?_, hproperty,
    (Document.member?_endsWithParameters _ _ _ hproperty).2 rfl hwhere⟩
  obtain ⟨text, head, close, i, opener, htext, hhead, -, hclose, hopener, hends⟩ :=
    (Document.member?_endsWithParameters _ _ _ hmethod).1 rfl
  -- the text, the closing parenthesis and the opener are what the scan finds
  have hdecided : Scan.decided? 0 {} 0 (constrainedMethod.toSnapshot.lines.drop 0) =
      some "public T F<T>(T a) where\tT : C \x7b".toList := by decide +kernel
  obtain rfl := Option.some.inj (htext.symm.trans hdecided)
  have hclosing : (Head.parse? "public T F<T>(T a) where\tT : C \x7b".toList).map
      (Text.closingAt "public T F<T>(T a) where\tT : C \x7b".toList ·.boundaryStart) =
        some (.ok 17) := by decide +kernel
  rw [hhead, Option.map_some, hclose] at hclosing
  obtain rfl : close = 17 := Int.natCast_inj.mp (Except.ok.inj (Option.some.inj hclosing))
  have hfound : Text.firstOpener? "public T F<T>(T a) where\tT : C \x7b".toList 18 =
      .ok (some (31, .brace)) := by decide +kernel
  obtain ⟨hi, -⟩ := Prod.mk.inj (Option.some.inj (Except.ok.inj (hopener.symm.trans hfound)))
  obtain rfl : i = 31 := Int.natCast_inj.mp hi
  exact hends (.inr (.inl ⟨constraintClause, " C".toList, by decide +kernel⟩))

end CSharpOutline
