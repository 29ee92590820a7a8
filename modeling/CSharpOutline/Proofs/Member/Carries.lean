import CSharpOutline.Member.Locate
import CSharpOutline.Proofs.Member.Opening
import CSharpOutline.Proofs.Text.Words

/-!
# Modifiers in signatures

The scan asks for a modifier on the first line of a declaration and looks at the whole line, what
stands behind the opener of the body and in a comment included. The text of the block ends at the
opener and leaves comments out. So a block is found at a line that carries the modifier, and its
text carries the modifier exactly if the declaration does in front of the opener, comments left out
(`carries_text_iff`). Both may differ: `carries_text_ne` shows how.

The words of the text are those of the lines it was joined from (`words_join`), because what is put
between two lines is a space, or nothing next to a character that is part of no word.
-/

namespace CSharpOutline

open Text CSharpOutline.Joined

namespace Joined

/-! ## The words of joined lines

What is put between a text and the start of a piece keeps their words apart, so joined lines have
the words of the lines, comments left out. -/

private theorem words_append_separator (text : Text) {s piece : Text} (hs : s <+: piece) :
    words (text ++ separator text piece ++ s) = words text ++ words s := by
  have hafter : tightAfter.any isWord = false := by decide
  have hbefore : tightBefore.any isWord = false := by decide
  rw [separator]
  split
  · next h =>
    rw [List.append_nil]
    rw [Bool.or_eq_true, Bool.or_eq_true] at h
    refine words_append ?_
    rcases h with (hnil | hlast) | hhead
    · rw [List.isEmpty_iff.mp hnil]
      exact .inl rfl
    · obtain ⟨c, hc, hmem⟩ := (Option.any_eq_true _ _).mp hlast
      rw [hc]
      exact .inl (by simpa using List.any_eq_false.mp hafter c (List.contains_iff_mem.mp hmem))
    · obtain ⟨c, hc, hmem⟩ := (Option.any_eq_true _ _).mp hhead
      cases s with
      | nil => exact .inr rfl
      | cons d s =>
        obtain ⟨r, rfl⟩ := hs
        obtain rfl : d = c := by simpa using hc
        exact .inr (by simpa using List.any_eq_false.mp hbefore d (List.contains_iff_mem.mp hmem))
  · rw [words_append, words_append_blanks text (by decide)]
    rw [List.getLast?_concat]
    exact .inl (by decide)

private theorem words_joinLine (text line : Text) :
    words (joinLine text line) = words text ++ words line.withoutComment := by
  by_cases hpiece : piece line = []
  · rw [joinLine_of_nil hpiece, ← words_trim line.withoutComment, ← piece, hpiece]
    simp [words, runs]
  · rw [joinLine_of_ne_nil hpiece, words_append_separator text (List.prefix_refl _), piece,
      words_trim]

theorem words_join (text : Text) (lines : List Text) :
    words (join text lines) = words text ++ lines.flatMap fun line ↦ words line.withoutComment := by
  induction lines generalizing text with
  | nil => simp [join]
  | cons line lines ih =>
    rw [join, List.foldl_cons, ← join, ih, words_joinLine, List.flatMap_cons, List.append_assoc]

end Joined

/-! ## The text in front of the opener

In front of the opener stand the lines in front of its line, joined, and its own line up to it. -/

namespace Scan

/-- The text in front of the opener is that of the lines in front of its line, joined, and that of
its own line up to it. -/
theorem Opens.exists_shown_eq {start : Nat} {lines : List Text} {o : Opening} {n : Nat}
    {rest : Text} (h : Opens start lines o n rest) :
    ∃ (line column : Nat) (t : Text), lines[line]? = some t ∧
      o.position = ((start : Int) + line, (column : Int)) ∧
      trimStart (t.take column) <+: piece t ∧
      o.shown = join [] (lines.take line) ++ separator (join [] (lines.take line)) (piece t) ++
        trimStart (t.take column) := by
  obtain ⟨d, line, column, hhead, hposition, hplace⟩ := h.place
  obtain ⟨d', r, rfl, -⟩ := Reading.exists_cons_of_member h.decides.member
  obtain rfl : d' = d := by simpa using hhead
  obtain ⟨read, u, v, w, unread, hlines, hsaid, hd, rfl, rfl, hshown⟩ := hplace
  generalize ht : u ++ d' :: v ++ w = t at hlines hsaid
  have htake : t.take u.length = u := by
    rw [← ht, List.append_assoc, List.take_left]
  obtain ⟨v', hpiece⟩ := exists_trim_eq u hd v
  rw [← hsaid, ← piece] at hpiece
  have hread : lines = read ++ t :: (unread ++ lines.drop (n + 1)) := by
    conv => lhs; rw [← List.take_append_drop (n + 1) lines, hlines]
    simp
  refine ⟨read.length, u.length, t, ?_, hposition, ?_, ?_⟩
  · rw [hread]
    simp
  · rw [htake, hpiece]
    exact List.prefix_append _ _
  · rw [htake, hread, List.take_left]
    -- both sides end at the opener and have the same visible text
    obtain ⟨more, hmore⟩ := prefix_join (join [] (read ++ [t])) unread
    have hjoin : join [] (read ++ t :: unread) = join (join [] (read ++ [t])) unread := by
      rw [join, join, join, ← List.foldl_append]
      simp
    have htext := h.text
    rw [hlines, hjoin, ← hmore, join_concat, joinLine_of_ne_nil (by rw [hpiece]; simp)] at htext
    have hsame : o.shown ++ d' :: r = join [] read ++ separator (join [] read) (piece t) ++
        trimStart u ++ d' :: (v' ++ more) := by
      rw [← htext]
      simp [hpiece]
    refine eq_of_length_visible hd hd hsame ?_
    rw [hshown]
    simp only [visible_append, visible_join, visible_of_allBlank (allBlank_separator _ _),
      visible_trimStart, visible_nil, List.nil_append, List.append_nil]

private theorem Opens.words_shown {start : Nat} {lines : List Text} {o : Opening} {n : Nat}
    {rest : Text} (h : Opens start lines o n rest) :
    ∃ (line column : Nat) (t : Text), lines[line]? = some t ∧
      o.position = ((start : Int) + line, (column : Int)) ∧
      words o.shown =
        ((lines.take line).flatMap fun l ↦ words l.withoutComment) ++ words (t.take column) := by
  obtain ⟨line, column, t, ht, hposition, hprefix, hshown⟩ := h.exists_shown_eq
  refine ⟨line, column, t, ht, hposition, ?_⟩
  rw [hshown, words_append_separator _ hprefix, words_join, words_trimStart]
  rfl

end Scan

/-! ## Modifiers -/

/-- A block starts on a line that carries a modifier. Its text carries the modifier exactly if the
lines do in front of the opener of the body, which stands at a column of a line, comments left
out. -/
structure IsCarried (lines : List Text) (modifier : Text) (b : Block) (line column : Nat) :
    Prop where
  start_carries : (lines.getD b.startLine.toNat []).carries modifier = true
  text_carries_iff : b.text.carries modifier = true ↔
    (∃ i : Nat, b.startLine ≤ i ∧ i < line ∧
      (lines.getD i []).withoutComment.carries modifier = true) ∨
    carries ((lines.getD line []).take column) modifier = true

private theorem Document.exists_isCarried {m : Text} (hm : m ∈ accessModifiers) {d : Document}
    {line : Int} {b : Block} (h : d.member? m line = .ok (some b)) :
    b.startLine = line ∧ ∃ (o : Opening) (l c : Nat), d.opening? m line = some o ∧
      o.position = ((l : Int), (c : Int)) ∧ IsCarried d.toSnapshot.lines m b l c := by
  obtain ⟨o, ho, hblock⟩ := (member?_eq_opening? d m line b).mp h
  obtain ⟨start, rfl, hstart, hcarries, n, rest, hopens⟩ := (opening?_eq_some_iff d m line o).mp ho
  obtain ⟨-, -, hfirst, htext⟩ := Opening.toBlock_eq_ok_iff.mp hblock
  rw [Int.toNat_natCast] at hfirst
  obtain ⟨k, column, t, ht, hposition, hwords⟩ := hopens.words_shown
  rw [List.getElem?_drop] at ht
  refine ⟨hfirst, o, start + k, column, ho, by rw [hposition]; push_cast; rfl, ?_, ?_⟩
  · rw [hfirst, Int.toNat_natCast]
    exact hcarries
  · generalize d.toSnapshot.lines = lines at *
    have hmem : ∀ s : Text, s.carries m = true ↔ m ∈ words s := by
      intro s
      rw [carries_eq_hasWord hm, hasWord, List.contains_iff_mem]
    rw [hfirst, htext, List.getD_eq_getElem?_getD, ht, Option.getD_some]
    simp only [hmem, words_collapse, hwords, List.mem_append, List.mem_flatMap]
    refine or_congr_left ⟨?_, ?_⟩
    · rintro ⟨s, hs, hword⟩
      obtain ⟨j, hj⟩ := List.mem_iff_getElem?.mp hs
      rw [List.getElem?_take] at hj
      split at hj
      · next hlt =>
        rw [List.getElem?_drop] at hj
        refine ⟨start + j, by omega, by omega, ?_⟩
        rwa [List.getD_eq_getElem?_getD, hj]
      · simp at hj
    · rintro ⟨i, hle, hlt, hword⟩
      have hi : i < lines.length := by
        have hlast := (List.getElem?_eq_some_iff.mp ht).1
        omega
      refine ⟨lines.getD i [], List.mem_iff_getElem?.mpr ⟨i - start, ?_⟩, hword⟩
      rw [List.getElem?_take, if_pos (by omega), List.getElem?_drop,
        Nat.add_sub_cancel' (by omega), List.getD_eq_getElem?_getD, List.getElem?_eq_getElem hi]
      rfl

private theorem Editor.exists_member?_of_memberAtCursor? {e : Editor} {b : Block}
    (h : e.memberAtCursor? = .ok (some b)) :
    ∃ line, e.document.member? "public".toList line = .ok (some b) := by
  rw [memberAtCursor?] at h
  split at h
  · simp at h
  · next start _ =>
    have hsame : (Document.snapshot e.document.toSnapshot).member? "public".toList start =
        e.document.member? "public".toList start := rfl
    rw [hsame] at h
    refine ⟨start, ?_⟩
    generalize e.document.member? "public".toList start = found at h
    cases found with
    | error fault => simp [bind, Except.bind] at h
    | ok block =>
      have hfilter : block.filter (·.contains e.cursor.line) = some b := Except.ok.inj h
      rw [(Option.filter_eq_some_iff.mp hfilter).1]

/-- The members that a scan or the cursor finds start on a line that carries the modifier asked for,
and their text carries it exactly if their declaration does in front of the opener. -/
theorem carries_text_iff {m : Text} (hm : m ∈ accessModifiers) :
    (∀ (d : Document) (line : Int) (b : Block), d.member? m line = .ok (some b) →
      b.startLine = line ∧ ∃ (o : Opening) (l c : Nat), d.opening? m line = some o ∧
        o.position = ((l : Int), (c : Int)) ∧ IsCarried d.toSnapshot.lines m b l c) ∧
    ∀ (e : Editor) (b : Block), e.memberAtCursor? = .ok (some b) →
      ∃ (o : Opening) (l c : Nat), e.document.opening? "public".toList b.startLine = some o ∧
        o.position = ((l : Int), (c : Int)) ∧
        IsCarried e.document.toSnapshot.lines "public".toList b l c := by
  refine ⟨fun d line b h ↦ Document.exists_isCarried hm h, fun e b h ↦ ?_⟩
  obtain ⟨line, hmember⟩ := Editor.exists_member?_of_memberAtCursor? h
  obtain ⟨rfl, hcarried⟩ := Document.exists_isCarried (by decide) hmember
  exact hcarried

/-- A property whose declaration is broken, with a comment on its first line. -/
def commentedProperty : Editor :=
  ⟨.live "public // size\n int Size\n\x7b get; \x7d".toList, ⟨2, 0⟩⟩

theorem carries_text_iff_commentedProperty :
    "public".toList ∈ accessModifiers ∧
    commentedProperty.document.member? "public".toList 0 =
      .ok (some ⟨.fullProperty, 0, 2, "public int Size".toList⟩) ∧
    commentedProperty.memberAtCursor? =
      .ok (some ⟨.fullProperty, 0, 2, "public int Size".toList⟩) ∧
    ∃ (o : Opening) (l c : Nat),
      commentedProperty.document.opening? "public".toList 0 = some o ∧
      o.position = ((l : Int), (c : Int)) ∧
      IsCarried commentedProperty.document.toSnapshot.lines "public".toList
        ⟨.fullProperty, 0, 2, "public int Size".toList⟩ l c := by
  have hm : "public".toList ∈ accessModifiers := by decide
  have hscan : commentedProperty.document.member? "public".toList 0 =
      .ok (some ⟨.fullProperty, 0, 2, "public int Size".toList⟩) := by decide +kernel
  have hcursor : commentedProperty.memberAtCursor? =
      .ok (some ⟨.fullProperty, 0, 2, "public int Size".toList⟩) := by decide +kernel
  exact ⟨hm, hscan, hcursor, (carries_text_iff hm).2 _ _ hcursor⟩

/-- A method that is public in a comment only. -/
def publicInComment : Editor := ⟨.live "int Foo() \x7b \x7d // public".toList, ⟨0, 0⟩⟩

/-- A class with a public field, on one line. -/
def publicInBody : Editor := ⟨.live "class A \x7b public int X; \x7d".toList, ⟨0, 0⟩⟩

/-- A modifier behind the opener, in a comment or in the body, is not in the text of the block that
is found for it. -/
theorem carries_text_ne :
    (publicInComment.document.member? "public".toList 0 =
        .ok (some ⟨.method, 0, 0, "int Foo()".toList⟩) ∧
      publicInComment.memberAtCursor? = .ok (some ⟨.method, 0, 0, "int Foo()".toList⟩) ∧
      carries "int Foo()".toList "public".toList = false) ∧
    publicInBody.document.member? "public".toList 0 =
        .ok (some ⟨.fullProperty, 0, 0, "class A".toList⟩) ∧
      publicInBody.memberAtCursor? = .ok (some ⟨.fullProperty, 0, 0, "class A".toList⟩) ∧
      carries "class A".toList "public".toList = false := by
  decide +kernel

end CSharpOutline
