import CSharpOutline.Proofs.Member.Opening

/-!
# A member depends on its own lines only

A member that ends before the last line of its document is found again wherever its lines stand,
whatever stands around them (`Document.member?_of_linesBetween`). The lines after the end of the
body are not looked at: the declaration is decided no later than on the line where the body ends
(`Scan.Opens.le_of_bodyEnd?`).

In nearly all cases it is decided on the line of the opener. The exception is an arrow that is
broken after its first character: the text is decided only when the second one is read, but the
place of the arrow is that of the first. Nothing but blanks and comments can stand between the two,
and these end no body (`Scan.Opens.ahead_of_lt`).
-/

namespace CSharpOutline

open Text CSharpOutline.Joined Scan

namespace Text

private theorem isAside_of_visible {t : Text} (h : visible t.withoutComment = []) :
    Balance.IsAside t := by
  obtain ⟨w, hw, hcomment⟩ := exists_eq_withoutComment_append t
  exact ⟨t.withoutComment, w, hw, allBlank_of_visible h, hcomment⟩

end Text

/-! ## The line that decides

The lines between that of the opener and the one that decides say nothing, so the body does not end
on any of them. A declaration is therefore decided no later than on the line where the body ends,
and the lines up to there are the same wherever the member stands. -/

namespace Scan

variable {start : Nat} {lines : List Text} {o : Opening} {n : Nat} {rest : Text}

private theorem Decides.exists_added {kind : Kind} {opener : Opener}
    (h : Decides lines n kind opener rest) (hn : 0 < n) :
    ∃ v, join [] (lines.take (n + 1)) = join [] (lines.take n) ++ v ∧
      (rest <:+ v ∨ opener = .arrow ∧ rest = '=' :: v) := by
  have hundecided := h.undecided (n - 1) (by omega)
  rw [Nat.sub_add_cancel hn] at hundecided
  have hlt := h.lt
  have htake : lines.take (n + 1) = lines.take n ++ [lines[n]] := by
    rw [List.take_append_getElem]
  have hmember := h.member
  rw [htake, join_concat] at hmember ⊢
  generalize lines[n] = line at *
  have hpiece : piece line ≠ [] := by
    intro hnil
    rw [joinLine_of_nil hnil, hundecided] at hmember
    exact absurd hmember (by simp)
  rw [joinLine_of_ne_nil hpiece, List.append_assoc] at hmember ⊢
  refine ⟨_, rfl, (Reading.rest_of_undecided hundecided hmember).imp_right ?_⟩
  rintro ⟨hopener, -, -, hrest⟩
  exact ⟨hopener, hrest⟩

/-- If the opener does not stand on the line that decides, then it is an arrow, and nothing is said
between its first character and that line. -/
private theorem Opens.ahead_of_lt (h : Opens start lines o n rest) {d : Char} {line column : Nat}
    (hhead : rest.head? = some d)
    (hplace : StandsAt (lines.take (n + 1)) (visible o.shown) d line column) (hlt : line < n) :
    o.opener = .arrow ∧ ∃ (e : Text) (asides : List Text),
      linesAhead lines line column = ('=' :: e) :: (asides ++ lines.drop n) ∧
        line + 1 + asides.length = n ∧ ∀ s ∈ e :: asides, Balance.IsAside s := by
  obtain ⟨v, htext, hrest⟩ := h.decides.exists_added (by omega)
  obtain ⟨read, u, u', w, unread, hlines, hsaid, -, rfl, rfl, hshown⟩ := hplace
  -- the lines in front of the one that decides
  obtain ⟨mid, htake⟩ : ∃ mid, lines.take n = read ++ (u ++ d :: u' ++ w) :: mid := by
    refine ⟨unread.take (n - read.length - 1), ?_⟩
    have hcut := congrArg (List.take n) hlines
    rw [List.take_take, Nat.min_eq_left (by omega)] at hcut
    rw [hcut, List.take_append, List.take_of_length_le (by omega),
      show n - read.length = (n - read.length - 1) + 1 by omega, List.take_succ_cons,
      Nat.add_sub_cancel]
  have hlength : read.length + 1 + mid.length = n := by
    have hcount := congrArg List.length htake
    rw [List.length_take, Nat.min_eq_left (Nat.le_of_lt h.decides.lt), List.length_append,
      List.length_cons] at hcount
    omega
  have hvisible : visible (join [] (lines.take n)) =
      visible o.shown ++ visible (d :: u' ++ mid.flatMap withoutComment) := by
    rw [visible_join, htake, List.flatMap_append, List.flatMap_cons, hsaid, hshown]
    simp
  have hd : visible (d :: u' ++ mid.flatMap withoutComment) =
      d :: (visible u' ++ visible (mid.flatMap withoutComment)) := by
    obtain ⟨d', r, rfl, hd', -⟩ := Reading.exists_cons_of_member h.decides.member
    obtain rfl : d' = d := by simpa using hhead
    rw [List.cons_append, visible_cons hd', visible_append]
  rw [hd] at hvisible
  rcases hrest with ⟨a, ha⟩ | ⟨hopener, rfl⟩
  · -- an opener in what the line adds has all of the text before in front of it
    have hshown' : o.shown = join [] (lines.take n) ++ a := by
      have heq := h.text.symm.trans htext
      rw [← ha, ← List.append_assoc] at heq
      exact List.append_cancel_right heq
    have hcount := congrArg (fun t ↦ (visible t).length) hshown'
    simp only [visible_append, List.length_append, hvisible, List.length_cons] at hcount
    omega
  · obtain rfl : '=' = d := by simpa using hhead
    have hfirst : join [] (lines.take n) = o.shown ++ ['='] := by
      have heq := h.text.symm.trans htext
      rw [List.append_cons] at heq
      exact (List.append_cancel_right heq).symm
    rw [hfirst, visible_append] at hvisible
    have hnil : visible u' ++ visible (mid.flatMap withoutComment) = [] :=
      (List.cons.inj (List.append_cancel_left hvisible)).2.symm
    obtain ⟨hu', hmid⟩ := List.append_eq_nil_iff.mp hnil
    refine ⟨hopener, u' ++ w, mid, ?_, hlength, ?_⟩
    · have hall : lines = read ++ (u ++ '=' :: u' ++ w) :: (mid ++ lines.drop n) := by
        conv => lhs; rw [← List.take_append_drop n lines, htake]
        simp
      conv => lhs; rw [hall]
      rw [linesAhead, List.drop_left]
      simp
    · intro s hs
      rcases List.mem_cons.mp hs with rfl | hs
      · obtain ⟨w', hw', hcomment⟩ := exists_eq_withoutComment_append (u ++ '=' :: u' ++ w)
        rw [hsaid] at hw'
        obtain rfl := List.append_cancel_left hw'
        exact ⟨u', w, rfl, allBlank_of_visible hu', hcomment⟩
      · refine isAside_of_visible (List.filter_eq_nil_iff.mpr fun c hc ↦ ?_)
        exact List.filter_eq_nil_iff.mp hmid c (List.mem_flatMap.mpr ⟨s, hs, hc⟩)

private theorem Opens.le_of_bodyEnd? (h : Opens start lines o n rest)
    (hunbroken : ∀ line ∈ lines, '\n' ∉ line) {d : Char} {line column k : Nat}
    (hhead : rest.head? = some d)
    (hplace : StandsAt (lines.take (n + 1)) (visible o.shown) d line column)
    (hk : o.opener.bodyEnd? (linesAhead lines line column) = some k) : n ≤ line + k := by
  by_cases hlt : line < n
  · obtain ⟨hopener, e, asides, hahead, hlength, hasides⟩ := h.ahead_of_lt hhead hplace hlt
    have hahead' : ∀ s ∈ linesAhead lines line column, '\n' ∉ s := by
      intro s hs hbreak
      obtain ⟨whole, hwhole, hsuffix⟩ := exists_suffix_of_mem_linesAhead hs
      exact hunbroken whole hwhole (hsuffix.subset hbreak)
    rw [hahead, List.forall_mem_cons, List.forall_mem_append, List.mem_cons, not_or] at hahead'
    obtain ⟨⟨-, he⟩, hmid, -⟩ := hahead'
    rw [hopener, hahead, Opener.bodyEnd?, Balance.stopLine?, Balance.passes?,
      if_neg (by decide)] at hk
    obtain ⟨b', hpass, hnext⟩ := Balance.passes?_aside (b := Balance.withoutAngles.step '=')
      (t := .equals) rfl (by decide) (hasides e List.mem_cons_self) he
      (Balance.quiet_endsStatement _)
    rw [hpass] at hk
    dsimp only at hk
    rw [hnext, Balance.stopLine?_aside rfl (fun s hs ↦ ⟨hasides s (List.mem_cons_of_mem _ hs),
      hmid s hs⟩) (Balance.quiet_endsStatement _), Option.map_map] at hk
    obtain ⟨m, -, hm⟩ := Option.map_eq_some_iff.mp hk
    simp only [Function.comp_apply] at hm
    omega
  · omega

private theorem Decides.of_take_eq {lines' : List Text} {kind : Kind} {opener : Opener}
    (h : Decides lines n kind opener rest) (htake : lines'.take (n + 1) = lines.take (n + 1)) :
    Decides lines' n kind opener rest := by
  have htake' : ∀ i ≤ n, lines'.take (i + 1) = lines.take (i + 1) := by
    intro i hi
    have hcut := congrArg (List.take (i + 1)) htake
    rwa [List.take_take, List.take_take, Nat.min_eq_left (by omega)] at hcut
  have hget : ∀ i ≤ n, lines'[i]? = lines[i]? := by
    intro i hi
    rw [← List.getElem?_take_of_lt (Nat.lt_succ_of_le hi), htake,
      List.getElem?_take_of_lt (Nat.lt_succ_of_le hi)]
  refine ⟨?_, fun i hi hpos ↦ ?_, fun i hi ↦ ?_, ?_⟩
  · have hlast := hget n (Nat.le_refl n)
    rw [List.getElem?_eq_getElem h.lt] at hlast
    exact (List.getElem?_eq_some_iff.mp hlast).1
  · rw [List.getD_eq_getElem?_getD, hget i hi, ← List.getD_eq_getElem?_getD]
    exact h.goesOn i hi hpos
  · rw [htake' i (Nat.le_of_lt hi)]
    exact h.undecided i hi
  · rw [htake]
    exact h.member

private theorem Opens.of_take_eq {line column : Nat} {lines' : List Text}
    (h : Opens start lines o n rest) (start' : Nat)
    (hposition : o.position = ((start : Int) + line, (column : Int)))
    (htake : lines'.take (n + 1) = lines.take (n + 1)) :
    Opens start' lines' { o with position := ((start' : Int) + line, (column : Int)) } n rest := by
  obtain ⟨d, line', column', hhead, hposition', hplace⟩ := h.place
  rw [hposition, Prod.mk.injEq] at hposition'
  obtain rfl : line = line' := by omega
  obtain rfl : column = column' := by omega
  refine ⟨h.decides.of_take_eq htake, ?_, d, line, column, hhead, rfl, ?_⟩
  · rw [htake]
    exact h.text
  · rw [htake]
    exact hplace

private theorem Opens.of_take_append {line column k : Nat} (h : Opens start lines o n rest)
    (hunbroken : ∀ line ∈ lines, '\n' ∉ line)
    (hposition : o.position = ((start : Int) + line, (column : Int)))
    (hk : o.opener.bodyEnd? (linesAhead lines line column) = some k)
    (hlength : line + k < lines.length) (start' : Nat) (post : List Text) :
    Opens start' (lines.take (line + k + 1) ++ post)
        { o with position := ((start' : Int) + line, (column : Int)) } n rest ∧
      o.opener.bodyEnd? (linesAhead (lines.take (line + k + 1) ++ post) line column) = some k := by
  obtain ⟨d, line', column', hhead, hposition', hplace⟩ := h.place
  rw [hposition, Prod.mk.injEq] at hposition'
  obtain rfl : line = line' := by omega
  obtain rfl : column = column' := by omega
  have hn : n ≤ line + k := h.le_of_bodyEnd? hunbroken hhead hplace hk
  have htake : (lines.take (line + k + 1) ++ post).take (n + 1) = lines.take (n + 1) := by
    rw [List.take_append_of_le_length, List.take_take, Nat.min_eq_left (by omega)]
    rw [List.length_take]
    omega
  refine ⟨h.of_take_eq start' hposition htake, ?_⟩
  rw [linesAhead_take_append hlength]
  exact Opener.bodyEnd?_take_append hk post

end Scan

/-! ## The lines of a member -/

namespace Document

/-- The lines of a document from one to another, both of them included. -/
def linesBetween (d : Document) (first last : Int) : List Text :=
  (d.toSnapshot.lines.take (last + 1).toNat).drop first.toNat

/-- A member that ends before the last line of its document is found again wherever its lines
stand. -/
theorem member?_of_linesBetween {d d' : Document} {modifier : Text} {start : Int} {b : Block}
    {pre post : List Text} (hcut : d.toSnapshot.IsCut)
    (h : d.member? modifier start = .ok (some b))
    (hend : b.endLine < (d.toSnapshot.lines.length : Int) - 1)
    (hlines : d'.toSnapshot.lines = pre ++ d.linesBetween start b.endLine ++ post) :
    d'.member? modifier pre.length = .ok (some
      { b with startLine := pre.length, endLine := pre.length + (b.endLine - start) }) := by
  obtain ⟨s, o, rfl, hs, hcarries, ⟨n, rest, hopens⟩, hblock⟩ :=
    (member?_eq_some_iff d modifier start b).mp h
  obtain ⟨line, column, t, -, ht, hposition, -⟩ := hopens.exists_place
  rw [List.getElem?_drop] at ht
  have hline : s + line < d.toSnapshot.lines.length := (List.getElem?_eq_some_iff.mp ht).1
  rw [Opening.toBlock_natCast hposition hline] at hblock
  obtain rfl := Except.ok.inj hblock
  rw [linesBetween, Int.toNat_natCast] at hlines
  rw [Snapshot.IsCut] at hcut
  generalize d.toSnapshot.lines = lines at *
  cases hk : o.opener.bodyEnd? (linesAhead lines (s + line) column) with
  | none =>
    -- a body without an end reaches to the last line
    rw [hk] at hend
    exact absurd hend (Int.lt_irrefl _)
  | some k =>
    rw [hk] at hend hlines
    simp only [Option.elim_some] at hend hlines ⊢
    have hspan : (lines.take ((s + line : Nat) + (k : Int) + 1).toNat).drop s =
        (lines.drop s).take (line + k + 1) := by
      rw [show ((s + line : Nat) + (k : Int) + 1).toNat = s + (line + k + 1) by omega,
        List.drop_take, Nat.add_sub_cancel_left]
    have hlength : line + k < (lines.drop s).length := by
      rw [List.length_drop]
      omega
    have hunbroken : ∀ t ∈ lines.drop s, '\n' ∉ t := fun t ht ↦ hcut t (List.mem_of_mem_drop ht)
    rw [← linesAhead_drop] at hk
    obtain ⟨hopens', hk'⟩ :=
      hopens.of_take_append hunbroken hposition hk hlength pre.length post
    rw [hspan, List.append_assoc] at hlines
    have hdrop : d'.toSnapshot.lines.drop pre.length =
        (lines.drop s).take (line + k + 1) ++ post := by
      rw [hlines, List.drop_left]
    rw [← hdrop] at hopens'
    have hcarries' : (d'.toSnapshot.lines.getD pre.length []).carries modifier = true := by
      have hfirst : d'.toSnapshot.lines[pre.length]? = lines[s]? := by
        rw [hlines, List.getElem?_append_right (Nat.le_refl _), Nat.sub_self,
          List.getElem?_append_left (by rw [List.length_take]; omega),
          List.getElem?_take_of_lt (by omega), List.getElem?_drop, Nat.add_zero]
      rwa [List.getD_eq_getElem?_getD, hfirst, ← List.getD_eq_getElem?_getD]
    have hlt : pre.length + line < d'.toSnapshot.lines.length := by
      rw [hlines, List.length_append, List.length_append, List.length_take]
      omega
    refine (member?_eq_some_iff d' modifier pre.length _).mpr
      ⟨pre.length, _, rfl, by omega, hcarries', ⟨n, rest, hopens'⟩, ?_⟩
    rw [Opening.toBlock_natCast rfl hlt, ← linesAhead_drop, hdrop]
    dsimp only
    rw [hk', Option.elim_some, Except.ok.injEq, Block.mk.injEq]
    exact ⟨rfl, rfl, by omega, rfl⟩

/-- A method whose arrow is broken by a comment. -/
def brokenArrow : Document := live "public int F() =\n// 1\n> 1;\n".toList

/-- The same method one line further down, at the end of the document. -/
def brokenArrowMoved : Document := live "\x7b\npublic int F() =\n// 1\n> 1;".toList

theorem member?_of_linesBetween_brokenArrow :
    brokenArrow.member? "public".toList 0 =
        .ok (some ⟨.method, 0, 2, "public int F()".toList⟩) ∧
      brokenArrowMoved.member? "public".toList 1 =
        .ok (some ⟨.method, 1, 3, "public int F()".toList⟩) := by
  have h : brokenArrow.member? "public".toList 0 =
      .ok (some ⟨.method, 0, 2, "public int F()".toList⟩) := by
    decide +kernel
  have hcut : brokenArrow.toSnapshot.IsCut := Snapshot.isCut_ofText _
  have hlines : brokenArrowMoved.toSnapshot.lines =
      ["\x7b".toList] ++ brokenArrow.linesBetween 0 2 ++ [] := by
    decide +kernel
  exact ⟨h, member?_of_linesBetween hcut h (by decide +kernel) hlines⟩

end Document

end CSharpOutline
