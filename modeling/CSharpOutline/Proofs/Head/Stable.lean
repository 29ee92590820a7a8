import CSharpOutline.Proofs.Head.Parts
import CSharpOutline.Proofs.Head.Reads
import CSharpOutline.Proofs.Member.Reading

/-!
# Heads stay as they are

The scan reads the head of a declaration after every line and stops as soon as it shows what is
declared. That is sound because more text does not change what has been shown (`parse?_stable`):
a head with a boundary stays the same in all its fields, a text that declares no member declares
none later on, and a head that had no boundary gets it only from what is added.

For the first of these every stage of the parser is followed into the longer text. A stage that
leaves something has not looked further, so the longer text leaves the same with the addition behind
it (`ReadsFrom.append`). The one stage that could go on is the reading of modifiers: the start of a
keyword looks like a type, but such a type takes up the whole text and leaves nothing.

The three characters that a text must not end in are those that take in what follows: `@` and `:`
may be completed to a name that was refused, and `=` to an arrow.
-/

namespace CSharpOutline.Text

private theorem dropKeywords_append_of_not_prefix {keywords : List Text} {t typed : Text}
    {found : Bool} (h : dropKeywords keywords t = (found, typed)) (hne : typed ≠ [])
    (hfree : ∀ k ∈ keywords, ¬typed <+: k) (u : Text) :
    dropKeywords keywords (t ++ u) = (found, typed ++ u) := by
  -- each keyword makes the text shorter
  induction hn : t.length using Nat.strongRecOn generalizing t found with
  | ind n ih =>
    cases hkeyword : afterKeyword? keywords t with
    | none =>
      rw [dropKeywords_of_none hkeyword] at h
      obtain ⟨rfl, rfl⟩ := Prod.mk.inj h
      refine dropKeywords_of_none (Option.eq_none_iff_forall_not_mem.mpr fun rest hrest ↦ ?_)
      obtain ⟨k, hk, hprefix, -⟩ := afterKeyword?_append_of_none hkeyword hrest
      exact hfree k hk hprefix
    | some rest =>
      rw [dropKeywords_of_some hkeyword] at h
      obtain ⟨rfl, hrest⟩ := Prod.mk.inj h
      have hrest' : rest ≠ [] := by
        rintro rfl
        have hsuffix := dropKeywords_suffix keywords []
        rw [hrest] at hsuffix
        exact hne (List.suffix_nil.mp hsuffix)
      obtain ⟨r, rfl, happ⟩ := afterKeyword?_append hkeyword u
      rw [trimStart_append_of_ne_nil hrest'] at happ
      have hlt := length_lt_of_afterKeyword? hkeyword
      rw [dropKeywords_of_some happ, ih _ (hn ▸ hlt) (Prod.ext rfl hrest) rfl]

end CSharpOutline.Text

namespace CSharpOutline.Head

open Written

/-! ## Following the stages

A stage that leaves something of a text leaves the same of a longer one, with the addition behind
it. -/

private theorem afterType?_of_prefix_keyword {t k : Text} (hk : k ∈ memberModifiers) (ht : t <+: k)
    (hne : t ≠ []) : afterType? t = some [] := by
  have hword : ∀ c ∈ t, isWord c = true := fun c hc ↦ isWord_of_mem_keyword hk (ht.subset hc)
  have hqualified : IsQualified t := by
    refine .of_all (List.all_eq_true.mpr fun c hc ↦ ?_)
    rw [isNamePart, hword c hc, Bool.true_or]
  have hparen : t.head? ≠ some '(' := by
    intro hhead
    exact absurd (hword _ (List.mem_of_head? hhead)) (by decide)
  have hname := afterTypeName?_qualified ⟨t, hqualified, hne⟩ (r := []) rfl
  rw [List.append_nil] at hname
  rw [afterType?, if_neg hparen, hname]

private theorem afterSuffixes?_append {t r : Text} (h : afterSuffixes? t = some r) (hr : r ≠ [])
    (u : Text) : afterSuffixes? (t ++ u) = some (r ++ u) := by
  have hend : suffixEnd t = r := by rw [suffixEnd, h, Option.getD_some]
  have happ := Option.some.inj ((suffixEnd_continues t u).1 r (congrArg some hend) hr)
  rw [suffixEnd] at happ
  cases hnext : afterSuffixes? (t ++ u) with
  | none =>
    rw [hnext, Option.getD_none, eq_comm, List.append_eq_nil_iff] at happ
    exact absurd happ.1 hr
  | some s => rw [← happ, hnext, Option.getD_some]

private theorem name?_append {p : Char → Bool} {t name rest : Text}
    (h : Text.name? p t = some (name, rest)) (hrest : rest ≠ []) (u : Text) :
    Text.name? p (t ++ u) = some (name, rest ++ u) := by
  obtain ⟨heq, hdrop, hlt⟩ := name?_eq_some_iff.mp h
  have ht : t ≠ [] := by
    rintro rfl
    exact absurd hlt (by simp [unmarked])
  have happ := Option.some.inj ((dropWhile_continues p (unmarked t) u).1 rest
    (congrArg some hdrop) hrest)
  refine name?_eq_some_iff.mpr ⟨by rw [heq, List.append_assoc], ?_, ?_⟩
  · rwa [unmarked_append ht]
  · rw [unmarked_append ht, List.length_append, List.length_append]
    omega

private theorem named?_append {typed after name r : Text} (h : named? typed after = some (name, r))
    (hr : r ≠ []) (hsuffix : after <:+ typed) (u : Text) :
    named? (typed ++ u) (after ++ u) = some (name, r ++ u) ∧
      namedText (typed ++ u) (after ++ u) = namedText typed after ++ u := by
  have hafter : after.trimStart ≠ [] := by
    intro hnil
    rw [named?, hnil] at h
    simp [Text.name?] at h
  have hne : after ≠ [] := by
    rintro rfl
    exact hafter rfl
  have htyped : typed ≠ [] := by
    rintro rfl
    exact hne (List.suffix_nil.mp hsuffix)
  have htrim : Text.trimStart (after ++ u) = after.trimStart ++ u :=
    Text.trimStart_append_of_ne_nil hafter u
  rw [named?] at h
  rw [named?, namedText, namedText, List.head?_append_of_ne_nil _ htyped, htrim,
    List.head?_append_of_ne_nil _ hafter, List.head?_append_of_ne_nil _ hne]
  split at h
  · next hcall =>
    obtain ⟨rfl, rfl⟩ := Prod.mk.inj (Option.some.inj h)
    rw [if_pos hcall, if_pos hcall, if_pos hcall, List.length_append, List.length_append,
      Nat.add_sub_add_right, List.take_append_of_le_length (Nat.sub_le _ _)]
    exact ⟨rfl, rfl⟩
  · next hcall =>
    rw [if_neg hcall, if_neg hcall, if_neg hcall]
    refine ⟨?_, rfl⟩
    split at h
    · next hblank =>
      obtain ⟨⟨n, rest⟩, hp, heq⟩ := Option.map_eq_some_iff.mp h
      obtain ⟨rfl, rfl⟩ := Prod.mk.inj heq
      have hparameters : parametersEnd rest ≠ [] := by
        intro hnil
        rw [hnil] at hr
        exact hr rfl
      have hrest : rest ≠ [] := by
        rintro rfl
        exact hparameters rfl
      have happ := Option.some.inj ((parametersEnd_continues rest u).1 _ rfl hparameters)
      rw [if_pos hblank, name?_append hp hrest, Option.map_some]
      dsimp only
      rw [happ, Text.trimStart_append_of_ne_nil hr]
    · simp at h

/-- A single colon is left of a type only where no name follows it. -/
theorem named?_colon {typed : Text} (h : typed.head? ≠ some '(') : named? typed [':'] = none := by
  have htrim : Text.trimStart [':'] = [':'] := by decide
  rw [named?, htrim, if_neg (by simp), if_neg]
  rintro (hparen | hblank)
  · exact h hparen
  · exact absurd hblank (by decide)

theorem ReadsFrom.append {t named name r : Text} {hasModifiers : Bool}
    (h : ReadsFrom t hasModifiers named name r) (hr : r ≠ []) (u : Text) :
    ReadsFrom (t ++ u) hasModifiers (named ++ u) name (r ++ u) := by
  obtain ⟨declared, typed, suffixed, after, hdeclared, htyped, hsuffixed, hafter, rfl, hname⟩ := h
  -- the boundary is left at the end, so every stage before it leaves something
  have hafter' : after ≠ [] := fun hnil ↦
    hr (List.suffix_nil.mp (hnil ▸ named?_suffix hname))
  have hsuffix := (afterSuffixes?_suffix hafter).trans (afterType?_suffix hsuffixed)
  have hsuffixed' : suffixed ≠ [] := fun hnil ↦
    hafter' (List.suffix_nil.mp (hnil ▸ afterSuffixes?_suffix hafter))
  have htyped' : typed ≠ [] := fun hnil ↦ hafter' (List.suffix_nil.mp (hnil ▸ hsuffix))
  have hdeclared' : declared ≠ [] := by
    rintro rfl
    have hnil := Text.dropKeywords_suffix memberModifiers []
    rw [htyped] at hnil
    exact htyped' (List.suffix_nil.mp hnil)
  have ht : t.trimStart ≠ [] := by
    intro hnil
    rw [hnil, afterAttributes?_nil] at hdeclared
    exact hdeclared' (Option.some.inj hdeclared).symm
  have hfree : ∀ k ∈ memberModifiers, ¬typed <+: k := by
    intro k hk hprefix
    rw [afterType?_of_prefix_keyword hk hprefix htyped'] at hsuffixed
    exact hsuffixed' (Option.some.inj hsuffixed).symm
  have htype : afterType? (typed ++ u) = some (suffixed ++ u) := by
    rw [afterType?] at hsuffixed ⊢
    rw [List.head?_append_of_ne_nil _ htyped']
    split at hsuffixed
    · next hparen =>
      rw [if_pos hparen]
      exact (afterGroup_continues typed u).1 _ hsuffixed hsuffixed'
    · next hparen =>
      rw [if_neg hparen]
      refine (afterTypeName?_continues htyped' fun hcolon ↦ ?_).1 _ hsuffixed hsuffixed'
      -- a single colon would have been refused
      rw [hsuffixed, Option.some.injEq] at hcolon
      rw [hcolon, afterSuffixes?_other (by decide), Option.some.injEq] at hafter
      rw [← hafter, named?_colon hparen] at hname
      exact absurd hname (by simp)
  obtain ⟨hnamed, htext⟩ := named?_append hname hr hsuffix u
  refine ⟨declared ++ u, typed ++ u, suffixed ++ u, after ++ u, ?_, ?_, htype, ?_, htext, hnamed⟩
  · rw [Text.trimStart_append_of_ne_nil ht]
    exact (afterAttributes?_continues t.trimStart u).1 _ hdeclared hdeclared'
  · exact Text.dropKeywords_append_of_not_prefix htyped htyped' hfree u
  · exact afterSuffixes?_append hafter hafter' u

/-! ## The three cases -/

/-- The leading attributes of a text are all closed: blanks and whole attributes stand in front of
something that starts no further one. -/
def ClosesAttributes (t : Text) : Prop :=
  ∃ (lead : Blanks) (attributes : List Attribute) (r : Text),
    t = lead.1 ++ attributes.flatMap Attribute.text ++ r ∧ r.trimStart.head? ≠ some '['

private theorem ClosesAttributes.isSome {t : Text} (h : ClosesAttributes t) :
    (afterAttributes? t.trimStart).isSome = true := by
  obtain ⟨lead, attributes, r, rfl, hr⟩ := h
  rw [List.append_assoc, trimStart_blanks, afterAttributes?_attributes]
  cases hhead : r.trimStart with
  | nil => rw [afterAttributes?_nil, Option.isSome_some]
  | cons c s =>
    have hc : c ≠ '[' := by
      rintro rfl
      rw [hhead] at hr
      exact hr rfl
    rw [afterAttributes?_cons_of_ne hc, Option.isSome_some]

/-- A head with a boundary comes from the text at its boundary, which is not empty. -/
theorem exists_readsFrom_of_parse? {t : Text} {h : Head} (hparse : parse? t = some h)
    (hboundary : h.boundary.isSome = true) :
    ∃ hasModifiers named name r, ReadsFrom t hasModifiers named name r ∧ r ≠ [] := by
  obtain ⟨r, hr, hread, -⟩ := exists_boundaryAt_of_parse? hparse
  have hne : r ≠ [] := by
    rintro rfl
    rw [← Option.some.inj hread] at hboundary
    exact absurd hboundary (by decide)
  obtain ⟨hasModifiers, name, hreads⟩ := exists_reads hr hne
  obtain ⟨named, hreads⟩ := hreads.exists_readsFrom
  exact ⟨hasModifiers, named, name, r, hreads, hne⟩

private theorem ReadsFrom.suffix {t named name r : Text} {hasModifiers : Bool}
    (h : ReadsFrom t hasModifiers named name r) : r <:+ t := by
  obtain ⟨declared, typed, suffixed, after, hdeclared, htyped, hsuffixed, hafter, -, hname⟩ := h
  have hkeywords := Text.dropKeywords_suffix memberModifiers declared
  rw [htyped] at hkeywords
  exact (named?_suffix hname).trans <| (afterSuffixes?_suffix hafter).trans <|
    (afterType?_suffix hsuffixed).trans <| hkeywords.trans <|
    (afterAttributes?_suffix hdeclared).trans (Text.trimStart_suffix t)

private theorem parse?_append_of_isSome {t : Text} (hequals : t.getLast? ≠ some '=') (u : Text)
    {h : Head} (hparse : parse? t = some h) (hboundary : h.boundary.isSome = true) :
    parse? (t ++ u) = some h := by
  obtain ⟨hasModifiers, named, name, r, hreads, hr⟩ := exists_readsFrom_of_parse? hparse hboundary
  have hread : Boundary.read? (r ++ u) = Boundary.read? r := by
    refine Boundary.looksAtFirst_read?.append hr fun harrow ↦ absurd ?_ hequals
    rw [← Text.getLast?_of_suffix hreads.suffix hr, harrow]
    rfl
  rw [(hreads.append hr u).parse?, hread, ← hparse, hreads.parse?]
  simp only [List.length_append, Nat.add_sub_add_right]

private theorem parse?_append_eq_none {t u : Text} (hapart : Apart t u)
    (hclosed : ClosesAttributes t) (hparse : parse? t = none) : parse? (t ++ u) = none := by
  have heq := parse?_boundary t
  rw [hparse, Option.map_none, eq_comm, Option.bind_eq_none_iff] at heq
  have happ := parse?_boundary (t ++ u)
  rw [← Option.map_eq_none_iff, happ]
  cases hr : boundaryAt? t with
  | none => rw [boundaryAt?_append_eq_none hr hclosed.isSome hapart, Option.bind_none]
  | some r =>
    -- something stands where the boundary should be, and stays there
    have hread : Boundary.read? r = none := Option.map_eq_none_iff.mp (heq r hr)
    have hne : r ≠ [] := by
      rintro rfl
      exact absurd hread (by decide)
    have harrow : r = ['='] → u.head? ≠ some '>' := by
      rintro rfl
      exact absurd hread (by decide)
    rw [(boundaryAt?_continues t u).1 r hr hne, Option.bind_some,
      Boundary.looksAtFirst_read?.append hne harrow, hread, Option.map_none]

private theorem length_le_boundaryStart {t u : Text} {h h' : Head} (hparse : parse? t = some h)
    (hnone : h.boundary = none) (hparse' : parse? (t ++ u) = some h') :
    t.length ≤ h'.boundaryStart := by
  obtain ⟨r, hr, hread, -⟩ := exists_boundaryAt_of_parse? hparse
  rw [hnone] at hread
  obtain rfl : r = [] := by
    rcases r with - | ⟨c, r⟩
    · rfl
    · rw [Boundary.read?_cons] at hread
      grind
  obtain ⟨r', hr', -, hstart⟩ := exists_boundaryAt_of_parse? hparse'
  have hle := ((boundaryAt?_continues t u).2 hr r' hr').length_le
  rw [hstart, List.length_append]
  omega

/-- What the head of a text shows does not change when more is read. Unless the text ends in a
character that takes in what follows, a head with a boundary stays the same, and a text that
declares no member, its attributes being closed, declares none later on. A head without a boundary
gets it from what is added. -/
theorem parse?_stable (t u : Text) :
    (t.getLast? ≠ some '@' → t.getLast? ≠ some ':' → t.getLast? ≠ some '=' →
      (∀ h, parse? t = some h → h.boundary.isSome = true → parse? (t ++ u) = some h) ∧
        (parse? t = none → ClosesAttributes t → parse? (t ++ u) = none)) ∧
      ∀ h h', parse? t = some h → h.boundary = none → parse? (t ++ u) = some h' →
        t.length ≤ h'.boundaryStart := by
  constructor
  · intro hmark hcolon hequals
    constructor
    · intro h hparse hboundary
      exact parse?_append_of_isSome hequals u hparse hboundary
    · intro hparse hclosed
      exact parse?_append_eq_none (.of_getLast? hmark hcolon u) hclosed hparse
  · intro h h' hparse hnone hparse'
    exact length_le_boundaryStart hparse hnone hparse'

/-- A method that is cut off behind its opening parenthesis. -/
def cutMethod : Text := "[A] public async Task<int> Load(".toList

/-- A type and two names, which declare nothing. -/
def threeWords : Text := "[A] int? y z".toList

/-- A property of a tuple type that is cut off inside its name. -/
def cutProperty : Text := "(int, string)[]Pa".toList

theorem parse?_stable_cutTexts :
    parse? (cutMethod ++ ">= x) => @y".toList) =
      some ⟨"Load".toList, 27, some .parameters, 31, true⟩ ∧
    parse? (threeWords ++ "=> 0;".toList) = none ∧
    ∃ h, parse? (cutProperty ++ "ir => 0;".toList) = some h ∧ 17 ≤ h.boundaryStart := by
  have hmethod : parse? cutMethod = some ⟨"Load".toList, 27, some .parameters, 31, true⟩ := by
    decide +kernel
  have hwords : parse? threeWords = none := by decide +kernel
  have hclosed : ClosesAttributes threeWords :=
    ⟨⟨[], rfl⟩, [⟨['A'], by decide, ⟨[' '], rfl⟩⟩], "int? y z".toList, rfl, by decide⟩
  have hproperty : parse? cutProperty = some ⟨"Pa".toList, 15, none, 17, false⟩ := by
    decide +kernel
  have hlonger : parse? (cutProperty ++ "ir => 0;".toList) =
      some ⟨"Pair".toList, 15, some .arrow, 20, false⟩ := by decide +kernel
  refine ⟨?_, ?_, _, hlonger, ?_⟩
  · exact ((parse?_stable cutMethod _).1 (by decide) (by decide) (by decide)).1 _ hmethod rfl
  · exact ((parse?_stable threeWords _).1 (by decide) (by decide) (by decide)).2 hwords hclosed
  · exact (parse?_stable cutProperty _).2 _ _ hproperty rfl hlonger

end CSharpOutline.Head
