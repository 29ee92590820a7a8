import CSharpOutline.Proofs.Member.Opening

/-!
# Breaking the line of a declaration

A declaration on one line may be broken into several at runs of blanks in front of its opener. The
scan then finds the same member (`Document.member?_wrapped`): it starts on the same line, ends as
many lines further down as there are breaks, and its text differs in blanks only.

The breaks are made one at a time, the last one first, so that it is always the first line of the
declaration that is broken. One break turns a run of blanks of the joined text into a gap, which is
what `Reading.ofText_respace_undecided` and `Reading.ofText_respace_member` are about. What is new
is the text in front of the break, which the scan now reads on its own: it is undecided because a
member or a refusal there would stand in the unbroken text too (`Scan.Decides.undecided_before`).
-/

namespace CSharpOutline

open Text CSharpOutline.Joined Scan

/-! ## Breaks -/

/-- A line break in the place of a run of blanks, and what stands on the next line. -/
structure Break where
  gap : Text
  next : Text
  deriving DecidableEq, Repr

/-- The line `before ++ gap ++ next ++ …`, which has its opener at a column, may be broken at
`gap`. -/
structure IsBreak (column : Nat) (before gap next : Text) : Prop where
  gap_ne_nil : gap ≠ []
  gap_blank : gap.allBlank = true
  before_opener : (before ++ gap).length ≤ column
  /-- The gap is outside literals and comments. -/
  endsInCode : before.endsInCode = true
  /-- The gap is outside the attributes that the declaration starts with. -/
  closed : (Head.afterAttributes? before.trim).isSome = true
  no_dot_before : before.trim.getLast? ≠ some '.'
  no_dot_after : next.trim.head? ≠ some '.'
  no_arrow : before.trim.getLast? = some '=' → next.trim.head? ≠ some '>'
  next_visible : next.allBlank = false
  goesOn : next.endsMember = false

/-- The line that starts with `before` and goes on with the given breaks may be broken there. -/
def AreBreaks (column : Nat) (before : Text) : List Break → Prop
  | [] => True
  | k :: breaks =>
    IsBreak column before k.gap k.next ∧ AreBreaks column (before ++ k.gap ++ k.next) breaks

def unbroken (first : Text) : List Break → Text
  | [] => first
  | k :: breaks => unbroken (first ++ k.gap ++ k.next) breaks

def broken (first : Text) (breaks : List Break) : List Text := first :: breaks.map Break.next

private theorem prefix_unbroken (first : Text) (breaks : List Break) :
    first <+: unbroken first breaks := by
  induction breaks generalizing first with
  | nil => exact List.prefix_refl _
  | cons k breaks ih =>
    rw [unbroken]
    refine List.IsPrefix.trans ?_ (ih _)
    rw [List.append_assoc]
    exact List.prefix_append _ _

/-! ## What the broken lines say

What the line adds to the joined text is what its two parts add, with blanks between them. These
blanks are a gap, and the line break closes it. -/

private theorem Lexer.beforeComment_blanks_append (l : Lexer) {w : Text} (hw : w.allBlank = true)
    (t : Text) : l.beforeComment (w ++ t) = w ++ (l.run w).beforeComment t := by
  induction w generalizing l with
  | nil => rfl
  | cons c w ih =>
    rw [allBlank_cons, Bool.and_eq_true] at hw
    rw [List.cons_append, beforeComment, if_neg, ih _ hw.2]
    · rfl
    · rintro ⟨hslash, -⟩
      exact ne_of_isBlank hw.1 (by decide) (eq_of_mode_step hslash rfl)

private theorem Joined.separator_eq (text piece : Text) :
    separator text piece = [' '] ∨ separator text piece = [] := by
  rw [separator]
  split
  · exact .inr rfl
  · exact .inl rfl

/-- Apart from dots, nothing is put between two characters only if one of them is a bracket or a
comma. -/
theorem Joined.mem_tight_of_separator {text piece : Text} {last c : Char}
    (hlast : text.getLast? = some last) (hc : piece.head? = some c) (hdot : last ≠ '.')
    (hdot' : c ≠ '.') (h : separator text piece = []) : last ∈ tightLeft ∨ c ∈ tightRight := by
  have hne : text ≠ [] := by
    rintro rfl
    simp at hlast
  rw [separator, hlast, hc] at h
  simp only [tightAfter, tightBefore, tightLeft, tightRight] at h ⊢
  grind

private theorem Joined.head?_piece {line : Text} (h : piece line ≠ []) :
    (piece line).head? = line.trim.head? := by
  rw [piece] at h ⊢
  obtain ⟨r, hr⟩ := prefix_withoutComment line
  rw [head?_trim, head?_trim]
  conv => rhs; rw [← hr, visible_append]
  rw [List.head?_append_of_ne_nil]
  intro hnil
  exact h (trim_eq_nil_iff.mpr (allBlank_of_visible hnil))

namespace IsBreak

variable {column : Nat} {a w b : Text} (k : IsBreak column a w b) (hn : '\n' ∉ a ++ w ++ b)

include k hn

theorem withoutComment_before : a.withoutComment = a := by
  refine Lexer.beforeComment_eq_self ?_ (Lexer.mode_ne_lineComment k.endsInCode)
  exact fun h ↦ hn (by simp [h])

theorem withoutComment_line : (a ++ w ++ b).withoutComment = a ++ w ++ b.withoutComment := by
  have hself := k.withoutComment_before hn
  have hhead : (w ++ b).head? ≠ some '/' := by
    obtain ⟨c, t, rfl⟩ := List.exists_cons_of_ne_nil k.gap_ne_nil
    have hc := k.gap_blank
    rw [allBlank_cons, Bool.and_eq_true] at hc
    intro h
    exact ne_of_isBlank hc.1 (by decide) (Option.some.inj h)
  have hfresh := Lexer.run_append_of_endsInCode (t := a) (w := w) (fun h ↦ hn (by simp [h]))
    k.endsInCode k.gap_ne_nil k.gap_blank fun h ↦ hn (by simp [h])
  rw [Lexer.run_append] at hfresh
  rw [withoutComment, List.append_assoc, Lexer.beforeComment_append hself hhead,
    Lexer.beforeComment_blanks_append _ k.gap_blank, hfresh, List.append_assoc]
  rfl

theorem visible_line :
    visible (a ++ w ++ b).withoutComment =
      visible a.withoutComment ++ visible b.withoutComment := by
  rw [k.withoutComment_line hn, k.withoutComment_before hn, visible_append, visible_append,
    visible_of_allBlank k.gap_blank, List.append_nil]

theorem visible_piece : visible (piece a) = visible a := by
  rw [piece, visible_trim, k.withoutComment_before hn]

theorem closed_piece : (Head.afterAttributes? (piece a).trimStart).isSome = true := by
  rw [piece, trimStart_of_head (isTrimmed_trim _).head, k.withoutComment_before hn]
  exact k.closed

/-- What the line adds to the joined text is what its two parts add, with blanks between them. -/
theorem exists_blanks (ha : piece a ≠ []) (hb : piece b ≠ []) :
    ∃ blanks : Text, piece (a ++ w ++ b) = piece a ++ (blanks ++ piece b) ∧
      blanks ≠ [] ∧ blanks.allBlank = true ∧ '\n' ∉ blanks := by
  obtain ⟨i, e, hi, he, htrimmed, haeq⟩ := exists_eq_append_trim a.withoutComment
  obtain ⟨i', e', hi', he', htrimmed', hbeq⟩ := exists_eq_append_trim b.withoutComment
  rw [← piece] at htrimmed haeq htrimmed' hbeq
  rw [k.withoutComment_before hn] at haeq
  refine ⟨e ++ w ++ i', ?_, by simp [k.gap_ne_nil], ?_, ?_⟩
  · have hmiddle : IsTrimmed (piece a ++ (e ++ w ++ i' ++ piece b)) := by
      constructor
      · rw [List.head?_append_of_ne_nil _ ha]
        exact htrimmed.head
      · rw [List.getLast?_append_of_ne_nil _ (by simp [hb]), List.getLast?_append_of_ne_nil _ hb]
        exact htrimmed'.last
    have hline : (a ++ w ++ b).withoutComment =
        i ++ (piece a ++ (e ++ w ++ i' ++ piece b)) ++ e' := by
      rw [k.withoutComment_line hn, hbeq]
      conv => lhs; rw [haeq]
      simp
    rw [piece, hline, trim_append hi hmiddle he']
  · rw [allBlank_append, allBlank_append, he, k.gap_blank, hi']
    rfl
  · have he : e ⊆ a := by
      conv => rhs; rw [haeq]
      exact List.subset_append_right _ _
    have hi' : i' ⊆ b := by
      refine List.Subset.trans ?_ (prefix_withoutComment b).subset
      rw [hbeq, List.append_assoc]
      exact List.subset_append_left _ _
    simp only [List.mem_append, not_or] at hn ⊢
    exact ⟨⟨fun h ↦ hn.1.1 (he h), hn.1.2⟩, fun h ↦ hn.2 (hi' h)⟩

/-- The blanks between the two parts are a gap, which the line break closes. -/
theorem exists_gap (ha : piece a ≠ []) (hb : piece b ≠ []) :
    ∃ (last : Char) (blanks : Text), (piece a).getLast? = some last ∧
      piece (a ++ w ++ b) = piece a ++ (blanks ++ piece b) ∧
      ∀ more, Gap last blanks (separator (piece a) (piece b)) (piece b ++ more) := by
  obtain ⟨blanks, hline, hne, hblank, hunbroken⟩ := k.exists_blanks hn ha hb
  obtain ⟨last, hlast⟩ : ∃ last, (piece a).getLast? = some last :=
    ⟨_, List.getLast?_eq_some_getLast ha⟩
  obtain ⟨c, r, hcr⟩ := List.exists_cons_of_ne_nil hb
  have hbefore : a.trim.getLast? = some last := by rw [← hlast, piece, k.withoutComment_before hn]
  have hafter : b.trim.head? = some c := by rw [← head?_piece hb, hcr]; rfl
  have hdot : last ≠ '.' := by
    rintro rfl
    exact k.no_dot_before hbefore
  have hdot' : c ≠ '.' := by
    rintro rfl
    exact k.no_dot_after hafter
  refine ⟨last, blanks, hlast, hline, fun more ↦ ⟨hne, hblank, hunbroken,
    (isTrimmed_trim _).last last hlast, ⟨c, r ++ more, by rw [hcr]; rfl, ?_⟩,
    separator_eq _ _, fun hnil ↦ ?_, ?_⟩⟩
  · exact (isTrimmed_trim _).head c (by rw [← piece, hcr]; rfl)
  · refine (mem_tight_of_separator hlast (by rw [hcr]; rfl) hdot hdot' hnil).imp_right fun hc ↦ ?_
    exact ⟨c, r ++ more, by rw [hcr]; rfl, hc⟩
  · rintro rfl
    rw [hcr, List.cons_append, List.head?_cons, ← hafter]
    exact k.no_arrow hbefore

end IsBreak

/-! ## The joined text -/

namespace Joined

private theorem separator_append (s : Text) {t : Text} (ht : t ≠ []) (piece : Text) :
    separator (s ++ t) piece = separator t piece := by
  rw [separator, separator, List.getLast?_append_of_ne_nil s ht]
  simp [ht]

private theorem joinLine_append (s : Text) {t : Text} (ht : t ≠ []) (line : Text) :
    joinLine (s ++ t) line = s ++ joinLine t line := by
  rw [joinLine, joinLine, separator_append s ht]
  split
  · rfl
  · simp

private theorem join_append (s : Text) {t : Text} (ht : t ≠ []) (lines : List Text) :
    join (s ++ t) lines = s ++ join t lines := by
  induction lines generalizing t with
  | nil => rfl
  | cons line lines ih =>
    have hne : joinLine t line ≠ [] := fun h ↦
      ht (List.prefix_nil.mp (h ▸ prefix_joinLine t line))
    rw [join, List.foldl_cons, joinLine_append s ht, ← join, ih hne]
    rfl

theorem join_cons_of_nil {line : Text} (h : piece line ≠ []) (lines : List Text) :
    join [] (line :: lines) = join (piece line) lines := by
  rw [join, List.foldl_cons, joinLine_of_ne_nil h]
  rfl

end Joined

section

variable {column : Nat} {a w b : Text} {lines : List Text} {n : Nat} {kind : Kind}
  {opener : Opener} {shown rest : Text} (k : IsBreak column a w b) (hn : '\n' ∉ a ++ w ++ b)
  (ha : piece a ≠ []) (hb : piece b ≠ [])

include k hn ha hb

/-- The joined texts of the unbroken and of the broken lines differ in one gap. -/
theorem IsBreak.exists_join (lines : List Text) :
    ∃ (last : Char) (blanks short : Text), (piece a).getLast? = some last ∧
      ∀ i, Gap last blanks short (join (piece b) (lines.take i)) ∧
        join [] (((a ++ w ++ b) :: lines).take (i + 1)) =
          piece a ++ (blanks ++ join (piece b) (lines.take i)) ∧
        join [] ((a :: b :: lines).take (i + 2)) =
          piece a ++ (short ++ join (piece b) (lines.take i)) := by
  obtain ⟨last, blanks, hlast, hline, hgap⟩ := k.exists_gap hn ha hb
  refine ⟨last, blanks, separator (piece a) (piece b), hlast, fun i ↦ ⟨?_, ?_, ?_⟩⟩
  · obtain ⟨more, hmore⟩ := prefix_join (piece b) (lines.take i)
    rw [← hmore]
    exact hgap more
  · rw [List.take_succ_cons, join_cons_of_nil (by rw [hline]; simp [ha]), hline,
      ← List.append_assoc, join_append _ hb, List.append_assoc]
  · rw [List.take_succ_cons, List.take_succ_cons, join_cons_of_nil ha, join, List.foldl_cons,
      joinLine_of_ne_nil hb, ← join, join_append _ hb, List.append_assoc]

namespace Scan

private theorem Decides.undecided_before (h : Decides ((a ++ w ++ b) :: lines) n kind opener rest)
    (htext : join [] (((a ++ w ++ b) :: lines).take (n + 1)) = shown ++ rest)
    (hle : (visible a).length ≤ (visible shown).length) :
    Reading.ofText (piece a) = .undecided := by
  obtain ⟨last, blanks, short, hlast, hjoin⟩ := k.exists_join hn ha hb lines
  obtain ⟨g, hunbroken, -⟩ := hjoin n
  have hmember := h.member
  rw [hunbroken] at hmember htext
  cases hreading : Reading.ofText (piece a) with
  | undecided => rfl
  | rejected =>
    have hblank : (blanks ++ join (piece b) (lines.take n)).head?.any isBlank = true := by
      obtain ⟨c, t, hct, hc⟩ := Head.exists_cons_blanks g
      rw [hct]
      exact hc
    rw [Reading.ofText_append_of_rejected hreading (k.closed_piece hn) hblank] at hmember
    exact absurd hmember (by simp)
  | member kind' opener' x =>
    -- the opener would stand in front of the break
    rw [Reading.ofText_append_of_member hreading] at hmember
    obtain ⟨-, -, rfl⟩ := Reading.member.inj hmember
    rw [← List.append_assoc shown] at htext
    have hshown : piece a = shown ++ x := List.append_cancel_right htext
    obtain ⟨d, r, rfl, hd, -⟩ := Reading.exists_cons_of_member hreading
    rw [← k.visible_piece hn, hshown, visible_append, visible_cons hd, List.length_append,
      List.length_cons] at hle
    omega

private theorem Decides.break_first (h : Decides ((a ++ w ++ b) :: lines) n kind opener rest)
    (htext : join [] (((a ++ w ++ b) :: lines).take (n + 1)) = shown ++ rest)
    (hle : (visible a).length ≤ (visible shown).length) :
    Decides (a :: b :: lines) (n + 1) kind opener rest := by
  have hbefore := h.undecided_before k hn ha hb htext hle
  obtain ⟨last, blanks, short, hlast, hjoin⟩ := k.exists_join hn ha hb lines
  have hclosed := k.closed_piece hn
  refine ⟨Nat.succ_lt_succ h.lt, fun i hi hpos ↦ ?_, fun i hi ↦ ?_, ?_⟩
  · match i with
    | 1 => exact k.goesOn
    | i + 2 => exact h.goesOn (i + 1) (by omega) (by omega)
  · cases i with
    | zero =>
      rw [List.take_succ_cons, List.take_zero, join_cons_of_nil ha]
      exact hbefore
    | succ i =>
      obtain ⟨g, hunbroken, hbroken⟩ := hjoin i
      have hundecided := h.undecided i (by omega)
      rw [hunbroken] at hundecided
      rw [hbroken]
      exact Reading.ofText_respace_undecided g hlast hclosed hundecided
  · obtain ⟨g, hunbroken, hbroken⟩ := hjoin n
    have hmember := h.member
    obtain ⟨d, r, rfl, hd, -⟩ := Reading.exists_cons_of_member hmember
    rw [hunbroken] at hmember htext
    rw [hbroken]
    refine Reading.ofText_respace_member g hlast hclosed ?_ hmember
    have hpart : (visible (piece a ++ blanks)).length ≤ (visible shown).length := by
      rw [visible_append, visible_of_allBlank g.allBlank, List.append_nil, k.visible_piece hn]
      exact hle
    rw [← List.append_assoc] at htext
    obtain ⟨m, -, hm⟩ := exists_append_of_visible_le hd htext hpart
    exact ⟨m, hm.symm⟩

end Scan

end

/-! ## Openings

One break in front of the opener moves the opening one line down and leaves what lies ahead as it
is, and any number of breaks moves it as many lines. -/

/-- A place behind a break stands one line further down, and what lies ahead of it is the same. -/
theorem StandsAt.break_first {column line place : Nat} {a w b shown : Text} {lines : List Text}
    {d : Char} (h : StandsAt ((a ++ w ++ b) :: lines) (visible shown) d line place)
    (k : IsBreak column a w b) (hn : '\n' ∉ a ++ w ++ b)
    (hle : (visible a).length ≤ (visible shown).length) :
    ∃ place', StandsAt (a :: b :: lines) (visible shown) d (line + 1) place' ∧
      ∀ more, linesAhead (a :: b :: (lines ++ more)) (line + 1) place' =
        linesAhead ((a ++ w ++ b) :: (lines ++ more)) line place := by
  have hbefore := k.withoutComment_before hn
  obtain ⟨read, u, v, r, unread, hlines, hsaid, hd, rfl, rfl, hshown⟩ := h
  cases read with
  | nil =>
    obtain ⟨hline, rfl⟩ := List.cons.inj hlines
    rw [← hline, k.withoutComment_line hn] at hsaid
    have hpart : (visible (a ++ w)).length ≤ (visible u).length := by
      rw [List.flatMap_nil, visible_nil, List.nil_append] at hshown
      rw [visible_append, visible_of_allBlank k.gap_blank, List.append_nil, ← hshown]
      exact hle
    obtain ⟨m, rfl, hm⟩ := exists_append_of_visible_le hd hsaid hpart
    obtain rfl : b = m ++ d :: v ++ r := by
      have hparts : a ++ w ++ b = a ++ w ++ (m ++ d :: v ++ r) := by
        rw [hline]
        simp
      exact List.append_cancel_left hparts
    refine ⟨m.length, ⟨[a], m, v, r, lines, rfl, hm, hd, rfl, rfl, ?_⟩, fun more ↦ ?_⟩
    · rw [hshown]
      simp [hbefore, visible_of_allBlank k.gap_blank]
    · have hdrop : (a ++ w ++ (m ++ d :: v ++ r)).drop (a ++ w ++ m).length =
          (m ++ d :: v ++ r).drop m.length := by
        rw [List.length_append, ← List.drop_drop, List.drop_left]
      exact congrArg (· :: (lines ++ more)) hdrop.symm
  | cons first read =>
    obtain ⟨rfl, rfl⟩ := List.cons.inj hlines
    refine ⟨u.length, ⟨a :: b :: read, u, v, r, unread, rfl, hsaid, hd, rfl, rfl, ?_⟩, fun _ ↦ rfl⟩
    rw [hshown, List.flatMap_cons, List.flatMap_cons, List.flatMap_cons, visible_append,
      visible_append, visible_append, k.visible_line hn]
    simp

/-- The opening `o'` in `lines'` is that of the same body as `o` in `lines`, a number of lines
further down: the same text is shown in front of it, and the same lines lie ahead. -/
structure Opening.SameBody (start : Nat) (lines lines' : List Text) (count : Nat)
    (o o' : Opening) : Prop where
  kind : o'.kind = o.kind
  opener : o'.opener = o.opener
  shown : visible o'.shown = visible o.shown
  ahead : ∃ line column column' : Nat, o.position = ((start : Int) + line, (column : Int)) ∧
    o'.position = ((start : Int) + (line + count : Nat), (column' : Int)) ∧
    linesAhead lines' (line + count) column' = linesAhead lines line column

theorem Opening.SameBody.trans {start count count' : Nat} {lines lines' lines'' : List Text}
    {o o' o'' : Opening} (h : SameBody start lines lines' count o o')
    (h' : SameBody start lines' lines'' count' o' o'') :
    SameBody start lines lines'' (count + count') o o'' := by
  obtain ⟨line, column, place, hposition, hplace, hahead⟩ := h.ahead
  obtain ⟨line', place', column', hplace', hposition', hahead'⟩ := h'.ahead
  rw [hplace, Prod.mk.injEq] at hplace'
  obtain rfl : line + count = line' := by omega
  obtain rfl : place = place' := by omega
  refine ⟨h'.kind.trans h.kind, h'.opener.trans h.opener, h'.shown.trans h.shown, line, column,
    column', hposition, ?_, ?_⟩
  · rw [hposition', Nat.add_assoc]
  · rw [← Nat.add_assoc, hahead', hahead]

namespace Scan

private theorem Opens.break_first {start column n : Nat} {a w b rest : Text} {lines : List Text}
    {o : Opening} (h : Opens start ((a ++ w ++ b) :: lines) o n rest) (k : IsBreak column a w b)
    (hn : '\n' ∉ a ++ w ++ b) (ha : piece a ≠ []) (hb : piece b ≠ [])
    (hle : (visible a).length ≤ (visible o.shown).length) :
    ∃ o', Opens start (a :: b :: lines) o' (n + 1) rest ∧
      o.SameBody start ((a ++ w ++ b) :: lines) (a :: b :: lines) 1 o' := by
  obtain ⟨shown', position', htext', -, hopens'⟩ :=
    exists_opens start (h.decides.break_first k hn ha hb h.text hle)
  have hshown : visible shown' = visible o.shown := by
    have hvisible : visible (join [] ((a :: b :: lines).take (n + 2))) =
        visible (join [] (((a ++ w ++ b) :: lines).take (n + 1))) := by
      rw [visible_join, visible_join, List.take_succ_cons, List.take_succ_cons,
        List.take_succ_cons, List.flatMap_cons, List.flatMap_cons, List.flatMap_cons,
        visible_append, visible_append, visible_append (a ++ w ++ b).withoutComment,
        k.visible_line hn, List.append_assoc]
    rw [htext', h.text, visible_append, visible_append] at hvisible
    exact List.append_cancel_right hvisible
  refine ⟨_, hopens', rfl, rfl, hshown, ?_⟩
  obtain ⟨d, line, place, -, hposition, hplace⟩ := h.place
  obtain ⟨d', line', place', -, hposition', hplace'⟩ := hopens'.place
  rw [List.take_succ_cons] at hplace
  obtain ⟨place'', hplace'', hahead⟩ := hplace.break_first k hn hle
  rw [List.take_succ_cons, List.take_succ_cons, hshown] at hplace'
  obtain ⟨rfl, rfl⟩ := hplace'.eq hplace''
  refine ⟨line, place, place', hposition, ?_, ?_⟩
  · rw [hposition']
  · have hall := hahead (lines.drop n)
    rwa [List.take_append_drop] at hall

private theorem Opens.visible_le {start column n : Nat} {line rest p : Text} {lines : List Text}
    {o : Opening} (h : Opens start (line :: lines) o n rest)
    (hposition : o.position = ((start : Int), (column : Int))) (hp : p <+: line)
    (hlength : p.length ≤ column) : (visible p).length ≤ (visible o.shown).length := by
  obtain ⟨i, place, t, -, ht, hplace, -, hshown⟩ := h.exists_place
  rw [hposition, Prod.mk.injEq] at hplace
  obtain rfl : i = 0 := by omega
  obtain rfl : column = place := by omega
  obtain rfl : line = t := by simpa using ht
  obtain ⟨q, rfl⟩ := hp
  rw [hshown, List.take_zero, List.flatMap_nil, List.nil_append, List.take_append,
    List.take_of_length_le hlength, visible_append, List.length_append]
  exact Nat.le_add_right _ _

/-- The part of a line behind the last break says something: it holds the opener. -/
theorem Opens.piece_ne_nil {start column n : Nat} {a w b rest : Text} {lines : List Text}
    {o : Opening} (h : Opens start ((a ++ w ++ b) :: lines) o n rest)
    (hposition : o.position = ((start : Int), (column : Int))) (k : IsBreak column a w b)
    (hn : '\n' ∉ a ++ w ++ b) : piece b ≠ [] := by
  obtain ⟨d, line, place, -, hplace, read, u, v, r, unread, hlines, hsaid, hd, rfl, rfl, -⟩ :=
    h.place
  rw [hposition, Prod.mk.injEq] at hplace
  obtain rfl : read = [] := List.length_eq_zero_iff.mp (by omega)
  obtain ⟨hline, -⟩ := List.cons.inj hlines
  rw [← hline, k.withoutComment_line hn] at hsaid
  have hlength := k.before_opener
  intro hnil
  have hblank : visible b.withoutComment = [] := by rw [← visible_trim, ← piece, hnil, visible_nil]
  -- the opener would stand in front of its column
  have hmem : d ∈ b.withoutComment := by
    obtain ⟨m, -, hm⟩ | ⟨m, hm, hdv⟩ := List.append_eq_append_iff.mp hsaid
    · rw [hm]
      simp
    · obtain rfl : m = [] := by
        rw [hm, List.length_append] at hlength
        exact List.length_eq_zero_iff.mp (by omega)
      rw [List.nil_append] at hdv
      rw [← hdv]
      exact List.mem_cons_self
  have hvisible := List.filter_eq_nil_iff.mp hblank d hmem
  rw [hd] at hvisible
  exact hvisible rfl

end Scan

private theorem IsBreak.piece_ne_nil {column : Nat} {a w b : Text} (k : IsBreak column a w b)
    (hn : '\n' ∉ a ++ w ++ b) (hcode : (a ++ w ++ b).endsInCode = true) : piece b ≠ [] := by
  have hself : (a ++ w ++ b).withoutComment = a ++ w ++ b :=
    Lexer.beforeComment_eq_self hn (Lexer.mode_ne_lineComment hcode)
  rw [k.withoutComment_line hn] at hself
  rw [piece, List.append_cancel_left hself, Ne, trim_eq_nil_iff, k.next_visible]
  decide

private theorem Scan.Opens.wrap {start column n : Nat} {first rest : Text} {breaks : List Break}
    {lines : List Text} {o : Opening} (h : Opens start (unbroken first breaks :: lines) o n rest)
    (hposition : o.position = ((start : Int), (column : Int)))
    (hbreaks : AreBreaks column first breaks) (hn : '\n' ∉ unbroken first breaks)
    (hfirst : first.allBlank = false) :
    ∃ o', Opens start (broken first breaks ++ lines) o' (n + breaks.length) rest ∧
      o.SameBody start (unbroken first breaks :: lines) (broken first breaks ++ lines)
        breaks.length o' := by
  -- the last break is made first, so that the line to be broken is always the first one
  induction breaks generalizing first with
  | nil =>
    refine ⟨o, h, rfl, rfl, rfl, 0, column, column, ?_, ?_, rfl⟩
    · rw [hposition]
      simp
    · rw [hposition]
      simp
  | cons k breaks ih =>
    obtain ⟨hk, hbreaks⟩ := hbreaks
    have hpart := prefix_unbroken (first ++ k.gap ++ k.next) breaks
    have hn' : '\n' ∉ first ++ k.gap ++ k.next := fun hmem ↦ hn (hpart.subset hmem)
    have hwhole : (first ++ k.gap ++ k.next).allBlank = false := by
      rw [allBlank_append, allBlank_append, hfirst]
      rfl
    obtain ⟨o', hopens, hsame⟩ := ih h hbreaks hn hwhole
    have hpiece : piece first ≠ [] := by
      rw [piece, hk.withoutComment_before hn', Ne, trim_eq_nil_iff, hfirst]
      decide
    have hnext : piece k.next ≠ [] := by
      cases breaks with
      | nil => exact h.piece_ne_nil hposition hk hn'
      | cons k' breaks => exact hk.piece_ne_nil hn' hbreaks.1.endsInCode
    have hle : (visible first).length ≤ (visible o'.shown).length := by
      rw [hsame.shown]
      refine h.visible_le hposition (prefix_unbroken first (k :: breaks)) ?_
      have hlength := hk.before_opener
      rw [List.length_append] at hlength
      omega
    obtain ⟨o'', hopens', hsame'⟩ := hopens.break_first hk hn' hpiece hnext hle
    exact ⟨o'', hopens', hsame.trans hsame'⟩

/-! ## The scan -/

private theorem Opening.SameBody.exists_toBlock {pre lines lines' : List Text} {count : Nat}
    {o o' : Opening} {b : Block} (h : o.SameBody pre.length lines lines' count o')
    (hlength : lines'.length = lines.length + count)
    (hblock : o.toBlock (pre ++ lines) pre.length = .ok b)
    (hline : o.position.1 < (pre ++ lines).length) :
    ∃ b', o'.toBlock (pre ++ lines') pre.length = .ok b' ∧ b'.kind = b.kind ∧
      b'.startLine = b.startLine ∧ b'.endLine = b.endLine + count ∧
      visible b'.text = visible b.text := by
  obtain ⟨line, column, column', hposition, hposition', hahead⟩ := h.ahead
  have hlt : pre.length + line < (pre ++ lines).length := by
    rw [hposition] at hline
    omega
  have hlt' : pre.length + (line + count) < (pre ++ lines').length := by
    rw [List.length_append] at hlt ⊢
    omega
  rw [toBlock_natCast hposition hlt, Except.ok.injEq] at hblock
  refine ⟨_, toBlock_natCast hposition' hlt', ?_⟩
  subst hblock
  rw [linesAhead_length_append, linesAhead_length_append, hahead, h.opener]
  refine ⟨h.kind, rfl, ?_, ?_⟩
  · cases o.opener.bodyEnd? (linesAhead lines line column) with
    | none =>
      simp only [Option.elim_none, List.length_append, hlength]
      omega
    | some k =>
      simp only [Option.elim_some]
      omega
  · rw [visible_collapse, visible_collapse, h.shown]

namespace Document

/-- Breaking the line of a declaration at blanks in front of its opener moves the end of the member
down by the number of breaks and changes nothing else but blanks of its text. -/
theorem member?_wrapped {d d' : Document} {modifier first : Text} {breaks : List Break}
    {pre post : List Text} {b : Block} {o : Opening} {column : Nat}
    (hcut : d.toSnapshot.IsCut)
    (hlines : d.toSnapshot.lines = pre ++ unbroken first breaks :: post)
    (hlines' : d'.toSnapshot.lines = pre ++ broken first breaks ++ post)
    (h : d.member? modifier pre.length = .ok (some b))
    (ho : d.opening? modifier pre.length = some o)
    (hposition : o.position = ((pre.length : Int), (column : Int)))
    (hfirst : first.allBlank = false) (hcarries : first.carries modifier = true)
    (hbreaks : AreBreaks column first breaks) :
    ∃ b', d'.member? modifier pre.length = .ok (some b') ∧ b'.kind = b.kind ∧
      b'.startLine = b.startLine ∧ b'.endLine = b.endLine + breaks.length ∧
      visible b'.text = visible b.text := by
  obtain ⟨o', ho', hblock⟩ := (member?_eq_opening? d modifier pre.length b).mp h
  obtain rfl : o = o' := Option.some.inj (ho.symm.trans ho')
  obtain ⟨start, hstart, -, -, n, rest, hopens⟩ :=
    (opening?_eq_some_iff d modifier pre.length o).mp ho
  obtain rfl : pre.length = start := by omega
  have hn : '\n' ∉ unbroken first breaks := hcut _ (by rw [hlines]; simp)
  rw [Int.toNat_natCast, hlines] at hblock
  rw [hlines, List.drop_left] at hopens
  obtain ⟨o', hopens', hsame⟩ := hopens.wrap hposition hbreaks hn hfirst
  rw [List.append_assoc] at hlines'
  have hlength : (broken first breaks ++ post).length =
      (unbroken first breaks :: post).length + breaks.length := by
    simp [broken]
    omega
  have hline : o.position.1 < (pre ++ unbroken first breaks :: post).length := by
    rw [hposition, List.length_append, List.length_cons]
    omega
  obtain ⟨b', hblock', hb'⟩ := hsame.exists_toBlock hlength hblock hline
  refine ⟨b', (member?_eq_some_iff d' modifier pre.length b').mpr
    ⟨pre.length, o', rfl, ?_, ?_, ⟨n + breaks.length, rest, ?_⟩, ?_⟩, hb'⟩
  · rw [hlines']
    simp [broken]
  · rw [hlines']
    simpa [broken] using hcarries
  · rw [hlines', List.drop_left]
    exact hopens'
  · rw [hlines']
    exact hblock'

/-- A method on one line. -/
def oneLineMethod : Document := live "public int  F(int a) \x7b \x7d".toList

/-- The same method broken into three lines. -/
def wrappedMethod : Document := live "public\nint\nF(int a) \x7b \x7d".toList

theorem member?_wrapped_oneLineMethod :
    oneLineMethod.member? "public".toList 0 =
        .ok (some ⟨.method, 0, 0, "public int F(int a)".toList⟩) ∧
      ∃ b', wrappedMethod.member? "public".toList 0 = .ok (some b') ∧ b'.kind = .method ∧
        b'.startLine = 0 ∧ b'.endLine = 0 + 2 ∧
        visible b'.text = visible "public int F(int a)".toList := by
  have h : oneLineMethod.member? "public".toList 0 =
      .ok (some ⟨.method, 0, 0, "public int F(int a)".toList⟩) := by
    decide +kernel
  have ho : oneLineMethod.opening? "public".toList 0 =
      some ⟨.method, .brace, (0, 21), "public int  F(int a) ".toList⟩ := by
    decide +kernel
  have hcut : oneLineMethod.toSnapshot.IsCut := Snapshot.isCut_ofText _
  have hlines : oneLineMethod.toSnapshot.lines =
      [] ++ unbroken "public".toList [⟨[' '], "int".toList⟩,
        ⟨[' ', ' '], "F(int a) \x7b \x7d".toList⟩] :: [] := by
    decide +kernel
  have hlines' : wrappedMethod.toSnapshot.lines =
      [] ++ broken "public".toList [⟨[' '], "int".toList⟩,
        ⟨[' ', ' '], "F(int a) \x7b \x7d".toList⟩] ++ [] := by
    decide +kernel
  have hbreaks : AreBreaks 21 "public".toList [⟨[' '], "int".toList⟩,
      ⟨[' ', ' '], "F(int a) \x7b \x7d".toList⟩] := by
    refine ⟨?_, ?_, trivial⟩ <;> constructor <;> decide +kernel
  exact ⟨h, member?_wrapped hcut hlines hlines' h ho rfl
    (by decide +kernel) (by decide +kernel) hbreaks⟩

end Document

end CSharpOutline
