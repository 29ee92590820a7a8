import CSharpOutline.Member.Scan
import CSharpOutline.Proofs.Head.Respace

/-!
# What the text of a declaration shows

A verdict names the place where a body opens by its offset. A *reading* names it by the text from
there on, and says the same otherwise (`Verdict.ofText_eq`). The text from the opener on is what
stays put while a declaration grows or its blanks are written differently:

* a member that has been read stays the same when more text follows (`ofText_append_of_member`);
* a text that is rejected stays so when a blank and more text follow (`ofText_append_of_rejected`);
* a text that is undecided becomes a member only by an opener in what is added, or by an arrow
  whose equals sign ends the text and whose other half is added (`rest_of_undecided`);
* how a gap is written makes no difference to an opener behind it (`ofText_respace_undecided`,
  `ofText_respace_member`).

In particular the scan, which looks at every line end, comes to the verdict that the whole
declaration would give.
-/

namespace CSharpOutline

namespace Text

variable {α : Type}

/-- A reader looks at the first character of a text and at no other, except that an equals sign may
be the first half of an arrow. -/
def LooksAtFirst (read : Text → α) : Prop :=
  ∀ (c : Char) (u v : Text), (c = '=' → (u.head? = some '>' ↔ v.head? = some '>')) →
    read (c :: u) = read (c :: v)

theorem LooksAtFirst.append {read : Text → α} (h : LooksAtFirst read) {s t : Text} (hs : s ≠ [])
    (harrow : s = ['='] → t.head? ≠ some '>') : read (s ++ t) = read s := by
  obtain ⟨c, s, rfl⟩ := List.exists_cons_of_ne_nil hs
  refine h c _ _ fun hc ↦ ?_
  cases s with
  | nil => simp [harrow (by rw [hc])]
  | cons d s => rfl

end Text

namespace Boundary

theorem read?_cons (c : Char) (t : Text) :
    read? (c :: t) =
      if c = '=' then some (some (if t.head? = some '>' then .arrow else .initializer))
      else if c = '(' then some (some .parameters)
      else if c = '{' then some (some .accessors)
      else if c = ';' ∨ c = ',' then some (some .terminator) else none := by
  by_cases hc : c = '='
  · subst hc
    cases t with
    | nil => rfl
    | cons d t =>
      by_cases hd : d = '>'
      · subst hd
        rfl
      · have hread : read? ('=' :: d :: t) = some (some .initializer) := by simp [read?, hd]
        simp [hread, hd]
  · by_cases hparen : c = '('
    · subst hparen
      rfl
    · by_cases hbrace : c = '{'
      · subst hbrace
        rfl
      · by_cases hend : c = ';' ∨ c = ','
        · rcases hend with rfl | rfl <;> rfl
        · rw [not_or] at hend
          have hread : read? (c :: t) = none := by simp [read?, hc, hparen, hbrace, hend]
          simp [hread, hc, hparen, hbrace, hend]

theorem looksAtFirst_read? : Text.LooksAtFirst read? := by
  intro c u v h
  grind [read?_cons]

theorem read?_eq_parameters {t : Text} (h : read? t = some (some .parameters)) :
    ∃ r, t = '(' :: r := by
  cases t with
  | nil => simp [read?] at h
  | cons c t =>
    rw [read?_cons] at h
    have hc : c = '(' := by grind
    exact ⟨t, by rw [hc]⟩

end Boundary

namespace Opener

theorem read?_cons (c : Char) (t : Text) :
    read? (c :: t) =
      if c = '{' then some .brace else if c = ';' then some .semicolon
      else if c = '=' ∧ t.head? = some '>' then some .arrow else none := by
  unfold read?
  split
  · next h => rw [(List.cons.inj h).1, if_pos rfl]
  · next h => rw [(List.cons.inj h).1, if_neg (by decide), if_pos rfl]
  · next h =>
    obtain ⟨rfl, rfl⟩ := List.cons.inj h
    rfl
  · next h₁ h₂ h₃ =>
    rw [if_neg fun h ↦ h₁ t (by rw [h]), if_neg fun h ↦ h₂ t (by rw [h]), if_neg]
    rintro ⟨rfl, ht⟩
    cases t with
    | nil => simp at ht
    | cons d t => exact h₃ t (by rw [show d = '>' by simpa using ht])

theorem looksAtFirst_read? : Text.LooksAtFirst read? := by
  intro c u v h
  grind [read?_cons]

/-- A text that starts with an opener starts with a visible character, the first of the opener. -/
theorem exists_cons_of_read? {t : Text} {o : Opener} (h : read? t = some o) :
    ∃ d r, t = d :: r ∧ isBlank d = false ∧ o.symbol.toList.head? = some d := by
  cases t with
  | nil => simp [read?] at h
  | cons c t =>
    rw [read?_cons] at h
    refine ⟨c, t, rfl, ?_⟩
    split at h
    · next hc =>
      rw [hc, ← Option.some.inj h]
      decide
    · split at h
      · next hc =>
        rw [hc, ← Option.some.inj h]
        decide
      · split at h
        · next hc =>
          rw [hc.1, ← Option.some.inj h]
          decide
        · simp at h

end Opener

namespace Balance

/-- The first opener outside every group, and the text that starts with it. -/
def opening? (b : Balance) : Text → Option (Opener × Text)
  | [] => none
  | c :: t =>
    match if b.isOutermost c then Opener.read? (c :: t) else none with
    | some opener => some (opener, c :: t)
    | none => opening? (b.step c) t

theorem findSome?_stops (b : Balance) (offset : Int) (t : Text) :
    (b.stops offset t).findSome? (fun s ↦ (Opener.read? s.text).map (s.offset, ·)) =
      (b.opening? t).map fun p ↦ (offset + (t.length - p.2.length : Int), p.1) := by
  induction t generalizing b offset with
  | nil => rfl
  | cons c t ih =>
    have hshift : ∀ p : Option (Opener × Text),
        (p.map fun p ↦ (offset + 1 + (t.length - p.2.length : Int), p.1)) =
          p.map fun p ↦ (offset + ((c :: t).length - p.2.length : Int), p.1) := by
      intro p
      congr 1
      funext q
      simp only [List.length_cons]
      congr 1
      omega
    rw [stops, opening?]
    by_cases hc : b.isOutermost c = true
    · rw [if_pos hc, if_pos hc, List.findSome?_cons]
      cases Opener.read? (c :: t) with
      | none => exact (ih _ _).trans (hshift _)
      | some opener => simp
    · rw [if_neg hc, if_neg hc]
      exact (ih _ _).trans (hshift _)

theorem opening?_suffix {b : Balance} {t r : Text} {o : Opener}
    (h : b.opening? t = some (o, r)) : r <:+ t ∧ Opener.read? r = some o := by
  induction t generalizing b with
  | nil => simp [opening?] at h
  | cons c t ih =>
    rw [opening?] at h
    split at h
    · next opener hread =>
      obtain ⟨rfl, rfl⟩ := Prod.mk.inj (Option.some.inj h)
      refine ⟨List.suffix_refl _, ?_⟩
      split at hread
      · exact hread
      · simp at hread
    · obtain ⟨hsuffix, hread⟩ := ih h
      exact ⟨hsuffix.trans (List.suffix_cons c t), hread⟩

/-- The opening of two texts in a row is in the first of them, or else in the second, unless an
arrow is cut in two. -/
theorem opening?_append (b : Balance) {s t : Text}
    (harrow : s.getLast? = some '=' → t.head? ≠ some '>') :
    b.opening? (s ++ t) =
      ((b.opening? s).map fun p ↦ (p.1, p.2 ++ t)).or ((b.run s).opening? t) := by
  induction s generalizing b with
  | nil => rfl
  | cons c s ih =>
    have hread : Opener.read? (c :: s ++ t) = Opener.read? (c :: s) := by
      refine Opener.looksAtFirst_read?.append (by simp) fun h ↦ harrow ?_
      rw [h]
      rfl
    have htail : s.getLast? = some '=' → t.head? ≠ some '>' := by
      intro hs
      refine harrow ?_
      rw [← hs, ← List.singleton_append, List.getLast?_append_of_ne_nil]
      rintro rfl
      simp at hs
    rw [List.cons_append] at hread ⊢
    rw [opening?, opening?, hread]
    split
    · next opener hopener => simp
    · next hnone => exact ih _ htail

private theorem opening?_append_of_some {b : Balance} {s r : Text} {o : Opener}
    (h : b.opening? s = some (o, r)) (t : Text) : b.opening? (s ++ t) = some (o, r ++ t) := by
  induction s generalizing b with
  | nil => simp [opening?] at h
  | cons c s ih =>
    have hread : Opener.read? (c :: s ++ t) = Opener.read? (c :: s) := by
      refine Opener.looksAtFirst_read?.append (by simp) fun heq ↦ ?_
      obtain ⟨rfl, rfl⟩ := List.cons.inj heq
      simp [opening?, Opener.read?] at h
    rw [List.cons_append] at hread ⊢
    rw [opening?] at h ⊢
    rw [hread]
    split at h
    · next opener hopener =>
      obtain ⟨rfl, rfl⟩ := Prod.mk.inj (Option.some.inj h)
      rfl
    · exact ih h

/-- An opening that shows only when more text follows is in what follows, or is an arrow cut in
two. -/
theorem opening?_append_of_none {b : Balance} {s t x : Text} {o : Opener}
    (hs : b.opening? s = none) (h : b.opening? (s ++ t) = some (o, x)) :
    x <:+ t ∨ o = .arrow ∧ s.getLast? = some '=' ∧ t.head? = some '>' ∧ x = '=' :: t := by
  by_cases harrow : s.getLast? = some '=' ∧ t.head? = some '>'
  · -- only the last character of the first text can begin an opener that shows later
    obtain ⟨hlast, hhead⟩ := harrow
    obtain ⟨v, rfl⟩ := List.getLast?_eq_some_iff.mp hlast
    rw [List.append_assoc, opening?_append b (by simp)] at h
    rw [opening?_append b (by simp), Option.or_eq_none_iff, Option.map_eq_none_iff] at hs
    rw [hs.1, Option.map_none, Option.none_or, List.singleton_append, opening?] at h
    split at h
    · next opener hread =>
      obtain ⟨rfl, rfl⟩ := Prod.mk.inj (Option.some.inj h)
      split at hread
      · rw [Opener.read?_cons, if_neg (by decide), if_neg (by decide), if_pos ⟨rfl, hhead⟩] at hread
        exact .inr ⟨(Option.some.inj hread).symm, hlast, hhead, rfl⟩
      · simp at hread
    · exact .inl (opening?_suffix h).1
  · rw [opening?_append b fun hl hh ↦ harrow ⟨hl, hh⟩, hs, Option.map_none, Option.none_or] at h
    exact .inl (opening?_suffix h).1

private theorem opening?_blanks (b : Balance) {w : Text} (hw : w.allBlank = true) (t : Text) :
    b.opening? (w ++ t) = (b.run w).opening? t := by
  induction w generalizing b with
  | nil => rfl
  | cons c w ih =>
    rw [Text.allBlank_cons, Bool.and_eq_true] at hw
    have hread : Opener.read? (c :: (w ++ t)) = none := by
      rw [Opener.read?_cons, if_neg (ne_of_isBlank hw.1 (by decide)),
        if_neg (ne_of_isBlank hw.1 (by decide)),
        if_neg fun h ↦ ne_of_isBlank hw.1 (by decide) h.1]
    rw [List.cons_append, opening?, hread, ite_self, run_cons]
    exact ih _ hw.2

private theorem Agree.opening? {b b' : Balance} {t : Text} (h : Agree b b' t) :
    b.opening? t = b'.opening? t := by
  rcases h with rfl | ⟨c, r, rfl, hc, hstep⟩
  · rfl
  · have hread : Opener.read? (c :: r) = none := by
      simp only [tightRight, List.mem_cons, List.not_mem_nil, or_false] at hc
      rcases hc with rfl | rfl | rfl <;> rfl
    rw [Balance.opening?, Balance.opening?, hread, ite_self, ite_self, hstep]

end Balance

namespace Gap

variable {last : Char} {blanks short rest : Text}

private theorem head?_short (g : Gap last blanks short rest) (hlast : last = '=') :
    (short ++ rest).head? ≠ some '>' := by
  rcases g.short_eq with rfl | rfl
  · simp
  · exact g.arrow hlast

private theorem head?_blanks (g : Gap last blanks short rest) :
    (blanks ++ rest).head? ≠ some '>' := by
  obtain ⟨c, t, hct, hc⟩ := Head.exists_cons_blanks g
  rw [hct]
  simpa using ne_of_isBlank hc (by decide)

theorem not_suffix (g : Gap last blanks short rest) (u : Text) :
    ¬u ++ (blanks ++ rest) <:+ rest := by
  intro h
  have hle := h.length_le
  have hpos := List.length_pos_of_ne_nil g.ne_nil
  simp only [List.length_append] at hle
  omega

private theorem Sides.opening? (g : Gap last blanks short rest) {a b : Text}
    (h : Sides last blanks short rest a b) :
    (Balance.fresh.opening? a = none → Balance.fresh.opening? b = none) ∧
      ∀ o x, x <:+ rest → Balance.fresh.opening? a = some (o, x) →
        Balance.fresh.opening? b = some (o, x) := by
  cases h with
  | past r _ => exact ⟨id, fun _ _ _ ↦ id⟩
  | atGap _ =>
    rw [Balance.opening?_blanks _ g.allBlank, Balance.opening?_blanks _ g.allBlank_short,
      g.agree_fresh.opening?]
    exact ⟨id, fun _ _ _ ↦ id⟩
  | before u hu =>
    have hlast : u.getLast? = some '=' → last = '=' := by
      intro h
      rw [hu] at h
      exact Option.some.inj h
    obtain ⟨v, rfl⟩ := List.getLast?_eq_some_iff.mp hu
    rw [Balance.opening?_append _ fun _ ↦ g.head?_blanks,
      Balance.opening?_append _ fun h ↦ g.head?_short (hlast h)]
    cases hopen : Balance.fresh.opening? (v ++ [last]) with
    | none =>
      rw [Balance.opening?_blanks _ g.allBlank, Balance.opening?_blanks _ g.allBlank_short,
        Balance.run_append, Balance.run_cons, Balance.run_nil,
        (g.agree (Balance.proper_fresh.run v)).opening?]
      exact ⟨id, fun _ _ _ ↦ id⟩
    | some p =>
      -- an opener in front of the gap leaves more than what follows the gap
      refine ⟨fun h ↦ absurd h (by simp), fun o x hx h ↦ ?_⟩
      obtain ⟨-, rfl⟩ := Prod.mk.inj (Option.some.inj h)
      exact absurd hx (g.not_suffix _)

end Gap

/-! ## Readings

An opener that is found behind the parameters, or at the boundary of a property, is found again by
its offset, so the verdict on a text is what its reading shows. -/

/-- What the text of a declaration shows, with the text from the opener of the body on. -/
inductive Reading where
  | undecided
  | rejected
  | member (kind : Kind) (opener : Opener) (rest : Text)
  deriving DecidableEq, Repr

namespace Reading

/-- The reading of a declaration by the text from its boundary on. -/
def ofBoundary (t : Text) : Reading :=
  match Boundary.read? t with
  | none | some (some .initializer) | some (some .terminator) => .rejected
  | some none => .undecided
  | some (some .accessors) => .member .fullProperty .brace t
  | some (some .arrow) => .member .arrowProperty .arrow t
  | some (some .parameters) =>
    match Balance.fresh.opening? t.afterGroup with
    | none => .undecided
    | some (opener, rest) => .member .method opener rest

def ofText (t : Text) : Reading := (Head.boundaryAt? t).elim .rejected ofBoundary

def verdict (length : Nat) : Reading → Verdict
  | .undecided => .undecided
  | .rejected => .rejected
  | .member kind opener rest => .member kind (length - rest.length : Int) opener

end Reading

namespace Verdict

theorem drop_of_suffix {t r : Text} (h : r <:+ t) : t.drop (t.length - r.length) = r := by
  obtain ⟨p, rfl⟩ := h
  rw [List.length_append, Nat.add_sub_cancel, List.drop_left]

theorem firstOpener?_natCast (t : Text) (i : Nat) :
    t.firstOpener? i = .ok ((Balance.fresh.opening? (t.drop i)).map
      fun p ↦ (i + ((t.drop i).length - p.2.length : Int), p.1)) := by
  rw [Text.firstOpener?, Text.stopsFrom_natCast]
  exact congrArg Except.ok (Balance.findSome?_stops ..)

theorem afterGroup_ne_nil_of_opening? {t : Text} {p : Opener × Text}
    (h : Balance.fresh.opening? t.afterGroup = some p) : t.afterGroup ≠ [] := by
  intro hnil
  rw [hnil] at h
  exact absurd h (by simp [Balance.opening?])

private theorem ofParameters_eq {text t : Text} (h : '(' :: t <:+ text) :
    ofParameters text (text.length - ('(' :: t).length) =
      .ok ((Reading.ofBoundary ('(' :: t)).verdict text.length) := by
  have hle := h.length_le
  have hdrop := drop_of_suffix h
  generalize hi : text.length - ('(' :: t).length = i at hdrop
  have hlt : i < text.length := by
    rw [List.length_cons] at hle hi
    omega
  rw [ofParameters, Text.closingAt_natCast hlt, hdrop]
  cases hclose : Text.closing? ('(' :: t) with
  | none =>
    have hgroup : Text.afterGroup ('(' :: t) = [] := by
      rw [Text.afterGroup, if_pos (.inr rfl), hclose]
    have hreading : Reading.ofBoundary ('(' :: t) = .undecided := by
      unfold Reading.ofBoundary
      rw [hgroup]
      rfl
    rw [hreading]
    rfl
  | some k =>
    have hgroup : text.drop (i + k + 1) = Text.afterGroup ('(' :: t) := by
      rw [Text.afterGroup, if_pos (.inr rfl), hclose, Nat.add_assoc, ← List.drop_drop, hdrop]
      rfl
    have hopener := firstOpener?_natCast text (i + k + 1)
    rw [hgroup] at hopener
    have hclosed : ¬((i : Int) + (k : Int) < 0) := by omega
    have hcast : ((i + k + 1 : Nat) : Int) = (i : Int) + (k : Int) + 1 := by push_cast; rfl
    rw [hcast] at hopener
    simp only [Option.elim_some, bind, Except.bind, if_neg hclosed, hopener]
    unfold Reading.ofBoundary
    rw [show Boundary.read? ('(' :: t) = some (some .parameters) from rfl]
    cases hopening : Balance.fresh.opening? (Text.afterGroup ('(' :: t)) with
    | none => rfl
    | some p =>
      obtain ⟨opener, rest⟩ := p
      have hpos := List.length_pos_of_ne_nil (afterGroup_ne_nil_of_opening? hopening)
      have hlength := congrArg List.length hgroup
      rw [List.length_drop] at hlength
      have hoffset : (i : Int) + k + 1 + ((Text.afterGroup ('(' :: t)).length - rest.length) =
          text.length - rest.length := by omega
      show Except.ok (member .method _ opener) = Except.ok (member .method _ opener)
      rw [hoffset]

/-- The verdict on a text is what its reading shows. -/
theorem ofText_eq (text : Text) :
    ofText text = .ok ((Reading.ofText text).verdict text.length) := by
  rw [ofText, Reading.ofText]
  cases hhead : Head.parse? text with
  | none =>
    have hparse := Head.parse?_boundary text
    rw [hhead, Option.map_none] at hparse
    cases hr : Head.boundaryAt? text with
    | none => rfl
    | some r =>
      rw [hr, Option.bind_some, eq_comm, Option.map_eq_none_iff] at hparse
      simp [Reading.ofBoundary, hparse, Reading.verdict]
  | some head =>
    obtain ⟨r, hr, hboundary, hstart⟩ := Head.exists_boundaryAt_of_parse? hhead
    have hsuffix := Head.boundaryAt?_suffix hr
    have hle := hsuffix.length_le
    have hoffset : (head.boundaryStart : Int) = text.length - r.length := by omega
    rw [hr, Option.elim_some]
    cases hkind : head.boundary with
    | none => simp [Reading.ofBoundary, hboundary, hkind, Reading.verdict]
    | some boundary =>
      rw [hkind] at hboundary
      cases boundary with
      | initializer => simp [Reading.ofBoundary, hboundary, Reading.verdict, hkind]
      | terminator => simp [Reading.ofBoundary, hboundary, Reading.verdict, hkind]
      | accessors => simp [Reading.ofBoundary, hboundary, Reading.verdict, hkind, hoffset]
      | arrow => simp [Reading.ofBoundary, hboundary, Reading.verdict, hkind, hoffset]
      | parameters =>
        obtain ⟨t, rfl⟩ := Boundary.read?_eq_parameters hboundary
        simp only [hkind, hstart]
        exact ofParameters_eq hsuffix

end Verdict

namespace Reading

/-! ## What a reading rests on

A member rests on a boundary, behind which its opener stands, and something visible is declared in
front of it. -/

theorem undecided_cases {t : Text} (h : ofBoundary t = .undecided) :
    t = [] ∨ (∃ r, t = '(' :: r) ∧ Balance.fresh.opening? t.afterGroup = none := by
  cases t with
  | nil => exact .inl rfl
  | cons c t =>
    refine .inr ?_
    unfold ofBoundary at h
    split at h
    all_goals try contradiction
    · next hread =>
      rw [Boundary.read?_cons] at hread
      grind
    · next hread =>
      refine ⟨Boundary.read?_eq_parameters hread, ?_⟩
      split at h
      · assumption
      · simp at h

/-- A method shows its opener behind the parameters, a property at its boundary. -/
theorem member_cases {t x : Text} {k : Kind} {o : Opener} (h : ofBoundary t = .member k o x) :
    (k = .method ∧ (∃ r, t = '(' :: r) ∧ Balance.fresh.opening? t.afterGroup = some (o, x)) ∨
      (k = .fullProperty ∧ o = .brace ∧ x = t ∧ ∃ r, t = '{' :: r) ∨
      (k = .arrowProperty ∧ o = .arrow ∧ x = t ∧ ∃ r, t = '=' :: '>' :: r) := by
  cases t with
  | nil => simp [ofBoundary, Boundary.read?] at h
  | cons c t =>
    unfold ofBoundary at h
    split at h
    all_goals try contradiction
    · next hread =>
      obtain ⟨rfl, rfl, rfl⟩ := Reading.member.inj h
      rw [Boundary.read?_cons] at hread
      obtain rfl : c = '{' := by grind
      exact .inr (.inl ⟨rfl, rfl, rfl, t, rfl⟩)
    · next hread =>
      obtain ⟨rfl, rfl, rfl⟩ := Reading.member.inj h
      rw [Boundary.read?_cons] at hread
      obtain ⟨rfl, ht⟩ : c = '=' ∧ t.head? = some '>' := by grind
      obtain ⟨r, rfl⟩ := List.head?_eq_some_iff.mp ht
      exact .inr (.inr ⟨rfl, rfl, rfl, r, rfl⟩)
    · next hread =>
      split at h
      · simp at h
      · next opener rest hopening =>
        obtain ⟨rfl, rfl, rfl⟩ := Reading.member.inj h
        exact .inl ⟨rfl, Boundary.read?_eq_parameters hread, hopening⟩

private theorem ofBoundary_of_none {r : Text}
    (h : Balance.fresh.opening? (Text.afterGroup ('(' :: r)) = none) :
    ofBoundary ('(' :: r) = .undecided := by
  unfold ofBoundary
  rw [h]
  rfl

theorem ofBoundary_of_some {r x : Text} {o : Opener}
    (h : Balance.fresh.opening? (Text.afterGroup ('(' :: r)) = some (o, x)) :
    ofBoundary ('(' :: r) = .member .method o x := by
  unfold ofBoundary
  rw [h]
  rfl

theorem ofBoundary_suffix {t x : Text} {k : Kind} {o : Opener}
    (h : ofBoundary t = .member k o x) : x <:+ t ∧ Opener.read? x = some o := by
  rcases member_cases h with ⟨-, -, hopening⟩ | ⟨-, rfl, rfl, r, rfl⟩ | ⟨-, rfl, rfl, r, rfl⟩
  · obtain ⟨hsuffix, hread⟩ := Balance.opening?_suffix hopening
    exact ⟨hsuffix.trans (Text.afterGroup_suffix t), hread⟩
  · exact ⟨List.suffix_refl _, rfl⟩
  · exact ⟨List.suffix_refl _, rfl⟩

theorem ofText_of_boundary {t r : Text} (h : Head.boundaryAt? t = some r) :
    ofText t = ofBoundary r := by
  rw [ofText, h, Option.elim_some]

@[simp] theorem ofText_nil : ofText [] = .undecided := by
  have hboundary : Head.boundaryAt? [] = some [] := by
    rw [Head.boundaryAt?, show Text.trimStart [] = [] from rfl, Head.afterAttributes?_nil,
      Option.bind_some, Head.declaredEnd?_nil]
  rw [ofText_of_boundary hboundary]
  rfl

theorem exists_boundary {t : Text} (h : ofText t ≠ .rejected) :
    ∃ r, Head.boundaryAt? t = some r := by
  cases hr : Head.boundaryAt? t with
  | none =>
    rw [ofText, hr] at h
    exact absurd rfl h
  | some r => exact ⟨r, rfl⟩

theorem ofText_suffix {t x : Text} {k : Kind} {o : Opener} (h : ofText t = .member k o x) :
    x <:+ t ∧ Opener.read? x = some o := by
  obtain ⟨r, hr⟩ := exists_boundary (t := t) (by rw [h]; simp)
  rw [ofText_of_boundary hr] at h
  obtain ⟨hsuffix, hread⟩ := ofBoundary_suffix h
  exact ⟨hsuffix.trans (Head.boundaryAt?_suffix hr), hread⟩

/-- The opener starts with a visible character. -/
theorem exists_cons_of_member {t x : Text} {k : Kind} {o : Opener} (h : ofText t = .member k o x) :
    ∃ d r, x = d :: r ∧ isBlank d = false ∧ o.symbol.toList.head? = some d :=
  Opener.exists_cons_of_read? (ofText_suffix h).2

/-- Accessors open with a brace and expression bodies with an arrow. -/
theorem opener_of_kind {t x : Text} {k : Kind} {o : Opener} (h : ofText t = .member k o x) :
    (k = .fullProperty → o = .brace) ∧ (k = .arrowProperty → o = .arrow) := by
  obtain ⟨r, hr⟩ := exists_boundary (t := t) (by rw [h]; simp)
  rw [ofText_of_boundary hr] at h
  rcases member_cases h with ⟨rfl, -⟩ | ⟨rfl, rfl, -⟩ | ⟨rfl, rfl, -⟩
  · exact ⟨by simp, by simp⟩
  · exact ⟨fun _ ↦ rfl, by simp⟩
  · exact ⟨by simp, fun _ ↦ rfl⟩

theorem visible_ne_nil_of_member {shown x : Text} {k : Kind} {o : Opener}
    (h : ofText (shown ++ x) = .member k o x) : Text.visible shown ≠ [] := by
  intro hnil
  obtain ⟨d, r, rfl, hd, hsymbol⟩ := exists_cons_of_member h
  have hstart : Text.trimStart (shown ++ d :: r) = d :: r := by
    rw [Text.trimStart_allBlank_append (Text.allBlank_of_visible hnil), Text.trimStart_cons hd]
  have hfirst : ∀ o : Opener,
      o.symbol.toList.head?.all (fun d ↦ !isNamePart d && !(List.contains ['(', '@', ':', '['] d)) =
        true := by
    intro o
    cases o <;> decide
  have hopener := hfirst o
  rw [hsymbol, Option.all_some, Bool.and_eq_true, Bool.not_eq_true', Bool.not_eq_true'] at hopener
  obtain ⟨hname, hother⟩ := hopener
  have hnone : Head.boundaryAt? (shown ++ d :: r) = none := by
    rw [Head.boundaryAt?, hstart, Head.afterAttributes?_cons_of_ne (by grind), Option.bind_some,
      Head.declaredEnd?_cons_eq_none hname (by grind)]
  rw [ofText, hnone] at h
  exact absurd h (by simp)

/-! ## Reading on

More text leaves the boundary where it is. So a member stays a member, and a refusal stays one if a
blank comes first and the attributes are closed. -/

private theorem ofBoundary_append_of_member {t x : Text} {k : Kind} {o : Opener}
    (h : ofBoundary t = .member k o x) (v : Text) :
    ofBoundary (t ++ v) = .member k o (x ++ v) := by
  rcases member_cases h with
    ⟨rfl, ⟨r, rfl⟩, hopening⟩ | ⟨rfl, rfl, rfl, r, rfl⟩ | ⟨rfl, rfl, rfl, r, rfl⟩
  · have happ := Text.afterGroup_append_of_ne_nil (Verdict.afterGroup_ne_nil_of_opening? hopening) v
    rw [List.cons_append] at happ ⊢
    refine ofBoundary_of_some ?_
    rw [happ]
    exact Balance.opening?_append_of_some hopening v
  · rfl
  · rfl

theorem ofText_append_of_boundary {t r : Text} (hr : Head.boundaryAt? t = some r)
    (h : ofBoundary r ≠ .undecided) (v : Text) : ofText (t ++ v) = ofBoundary (r ++ v) := by
  have hne : r ≠ [] := by
    rintro rfl
    exact h rfl
  exact ofText_of_boundary ((Head.boundaryAt?_continues t v).1 r hr hne)

theorem ofText_append_of_member {t x : Text} {k : Kind} {o : Opener}
    (h : ofText t = .member k o x) (v : Text) : ofText (t ++ v) = .member k o (x ++ v) := by
  obtain ⟨r, hr⟩ := exists_boundary (t := t) (by rw [h]; simp)
  rw [ofText_of_boundary hr] at h
  rw [ofText_append_of_boundary hr (by rw [h]; simp)]
  exact ofBoundary_append_of_member h v

private theorem ofBoundary_append_of_rejected {t v : Text} (h : ofBoundary t = .rejected)
    (hv : v.head?.any isBlank = true) : ofBoundary (t ++ v) = .rejected := by
  have hne : t ≠ [] := by
    rintro rfl
    exact absurd h (by simp [ofBoundary, Boundary.read?])
  have hread : Boundary.read? (t ++ v) = Boundary.read? t := by
    refine Boundary.looksAtFirst_read?.append hne fun _ hhead ↦ ?_
    rw [hhead] at hv
    exact absurd hv (by decide)
  unfold ofBoundary at h ⊢
  rw [hread]
  split at h
  all_goals try contradiction
  all_goals try rfl
  split at h <;> simp at h

/-- A text that is rejected stays so when a blank and more text follow, provided its attributes are
closed. -/
theorem ofText_append_of_rejected {t v : Text} (h : ofText t = .rejected)
    (hclosed : (Head.afterAttributes? t.trimStart).isSome) (hv : v.head?.any isBlank = true) :
    ofText (t ++ v) = .rejected := by
  cases hr : Head.boundaryAt? t with
  | none =>
    rw [ofText, Head.boundaryAt?_append_eq_none hr hclosed (.of_isBlank hv t), Option.elim_none]
  | some r =>
    rw [ofText_of_boundary hr] at h
    rw [ofText_append_of_boundary hr (by rw [h]; simp)]
    exact ofBoundary_append_of_rejected h hv

/-- An undecided text becomes a member by an opener in what is added, or by an arrow of which the
text holds the first half and what is added the second. -/
theorem rest_of_undecided {t v x : Text} {k : Kind} {o : Opener} (ht : ofText t = .undecided)
    (h : ofText (t ++ v) = .member k o x) :
    x <:+ v ∨ o = .arrow ∧ t.getLast? = some '=' ∧ v.head? = some '>' ∧ x = '=' :: v := by
  obtain ⟨r, hr⟩ := exists_boundary (t := t) (by rw [ht]; simp)
  obtain ⟨s, hs⟩ := exists_boundary (t := t ++ v) (by rw [h]; simp)
  rw [ofText_of_boundary hr] at ht
  rw [ofText_of_boundary hs] at h
  rcases undecided_cases ht with rfl | ⟨⟨r, rfl⟩, hopening⟩
  · -- the text ends before its boundary, so the boundary is in what is added
    exact .inl ((ofBoundary_suffix h).1.trans ((Head.boundaryAt?_continues t v).2 hr s hs))
  · -- the parameters have begun, and stay where they are
    rw [(Head.boundaryAt?_continues t v).1 _ hr (by simp), Option.some.injEq] at hs
    subst hs
    have hopening' : Balance.fresh.opening? (Text.afterGroup ('(' :: r ++ v)) = some (o, x) := by
      rcases member_cases h with ⟨-, -, hopening'⟩ | ⟨-, -, -, s, hs⟩ | ⟨-, -, -, s, hs⟩
      · exact hopening'
      · exact absurd (List.cons.inj hs).1 (by decide)
      · exact absurd (List.cons.inj hs).1 (by decide)
    -- they end in what is added, or the opener is looked for from their end on
    by_cases hnil : Text.afterGroup ('(' :: r) = []
    · exact .inl ((Balance.opening?_suffix hopening').1.trans
        (Text.afterGroup_append_suffix hnil v))
    · rw [Text.afterGroup_append_of_ne_nil hnil] at hopening'
      refine (Balance.opening?_append_of_none hopening hopening').imp_right ?_
      rintro ⟨ho, hlast, hhead, hx⟩
      refine ⟨ho, ?_, hhead, hx⟩
      have hsuffix := (Text.afterGroup_suffix _).trans (Head.boundaryAt?_suffix hr)
      rw [← Text.getLast?_of_suffix hsuffix hnil, hlast]

/-! ## Gaps -/

section

variable {last : Char} {blanks short rest : Text}

theorem ofBoundary_sides (g : Gap last blanks short rest) {a b : Text}
    (h : Gap.Sides last blanks short rest a b) :
    (ofBoundary a = .undecided → ofBoundary b = .undecided) ∧
      ∀ k o x, x <:+ rest → ofBoundary a = .member k o x → ofBoundary b = .member k o x := by
  cases h with
  | past r _ => exact ⟨id, fun _ _ _ _ ↦ id⟩
  | atGap hshort =>
    -- no boundary is written like a blank
    obtain ⟨c, t, hct, hc⟩ := Head.exists_cons_blanks g
    have hne : ∀ {d : Char}, isBlank d = false → ∀ r, c :: t ≠ d :: r := fun hd r heq ↦
      ne_of_isBlank hc hd (List.cons.inj heq).1
    rw [hct]
    constructor
    · intro h
      rcases undecided_cases h with hnil | ⟨⟨r, hr⟩, -⟩
      · exact absurd hnil (by simp)
      · exact absurd hr (hne (by decide) r)
    · intro k o x _ h
      rcases member_cases h with ⟨-, ⟨r, hr⟩, -⟩ | ⟨-, -, -, r, hr⟩ | ⟨-, -, -, r, hr⟩
      · exact absurd hr (hne (by decide) r)
      · exact absurd hr (hne (by decide) r)
      · exact absurd hr (hne (by decide) _)
  | before u hu =>
    obtain ⟨c, u, rfl⟩ : ∃ c t, u = c :: t := by
      cases u with
      | nil => simp at hu
      | cons c t => exact ⟨c, t, rfl⟩
    obtain ⟨hnone, hsome⟩ := (Gap.Sides.afterGroup g (.before (c :: u) hu)).opening? g
    constructor
    · intro h
      rcases undecided_cases h with hnil | ⟨⟨r, hr⟩, hopening⟩
      · exact absurd hnil (by simp)
      · obtain ⟨rfl, -⟩ := List.cons.inj hr
        exact ofBoundary_of_none (hnone hopening)
    · intro k o x hx h
      rcases member_cases h with ⟨rfl, ⟨r, hr⟩, hopening⟩ | ⟨-, -, rfl, -⟩ | ⟨-, -, rfl, -⟩
      · obtain ⟨rfl, -⟩ := List.cons.inj hr
        exact ofBoundary_of_some (hsome o x hx hopening)
      · exact absurd hx (g.not_suffix _)
      · exact absurd hx (g.not_suffix _)

theorem ofText_respace_undecided (g : Gap last blanks short rest) {u : Text}
    (hu : u.getLast? = some last) (hclosed : (Head.afterAttributes? u.trimStart).isSome)
    (h : ofText (u ++ (blanks ++ rest)) = .undecided) :
    ofText (u ++ (short ++ rest)) = .undecided := by
  obtain ⟨r, hr⟩ := exists_boundary (t := u ++ (blanks ++ rest)) (by rw [h]; simp)
  obtain ⟨s, hs, hsides⟩ := Head.boundaryAt?_sides g hu hclosed hr
  rw [ofText_of_boundary hr] at h
  rw [ofText_of_boundary hs]
  exact (ofBoundary_sides g hsides).1 h

theorem ofText_respace_member (g : Gap last blanks short rest) {u : Text}
    (hu : u.getLast? = some last) (hclosed : (Head.afterAttributes? u.trimStart).isSome)
    {k : Kind} {o : Opener} {x : Text} (hx : x <:+ rest)
    (h : ofText (u ++ (blanks ++ rest)) = .member k o x) :
    ofText (u ++ (short ++ rest)) = .member k o x := by
  obtain ⟨r, hr⟩ := exists_boundary (t := u ++ (blanks ++ rest)) (by rw [h]; simp)
  obtain ⟨s, hs, hsides⟩ := Head.boundaryAt?_sides g hu hclosed hr
  rw [ofText_of_boundary hr] at h
  rw [ofText_of_boundary hs]
  exact (ofBoundary_sides g hsides).2 k o x hx h

end

end Reading

end CSharpOutline
