import CSharpOutline.Proofs.Using.Directive

/-!
# Replacing the using block

The block cuts a text into blank lines, directives and a rest that does not start with a directive.
Conversely, lines that are cut like this are the block of the text that they make up
(`UsingBlock.ofText_flatten`). Replacing the directives keeps the blank lines and the rest, and puts
directives between them, so the block of the new text has the new directives and is otherwise the
old one (`UsingBlock.ofText_replaceUsings`).

A cut at the end of a line is what makes this work: a line that keeps its line feed is a line of any
text it stands in (`Text.keptLines_flatten_append`), and every line in front of another one does
(`Text.isFullLine_of_keptLines`).
-/

namespace CSharpOutline

namespace Text

/-! ## Lines that keep their line feed -/

/-- A line with its line feed. -/
def IsFullLine (line : Text) : Prop := ∃ t, '\n' ∉ t ∧ line = t ++ ['\n']

private theorem isFullLine_iff {line : Text} :
    IsFullLine line ↔ line.getLast? = some '\n' ∧ '\n' ∉ line.dropLast := by
  constructor
  · rintro ⟨t, ht, rfl⟩
    simpa using ht
  · rintro ⟨hlast, hmem⟩
    obtain ⟨t, rfl⟩ := List.getLast?_eq_some_iff.mp hlast
    rw [List.dropLast_concat] at hmem
    exact ⟨t, hmem, rfl⟩

instance : DecidablePred IsFullLine := fun _ ↦ decidable_of_iff _ isFullLine_iff.symm

private theorem firstLine_append {t : Text} (ht : '\n' ∉ t) (rest : Text) :
    firstLine (t ++ '\n' :: rest) = t ++ ['\n'] := by
  induction t with
  | nil => rfl
  | cons c t ih =>
    rw [List.mem_cons, not_or] at ht
    rw [List.cons_append, firstLine, if_neg (Ne.symm ht.1), ih ht.2, List.cons_append]

private theorem afterFirstLine_append {t : Text} (ht : '\n' ∉ t) (rest : Text) :
    afterFirstLine (t ++ '\n' :: rest) = rest := by
  induction t with
  | nil => rfl
  | cons c t ih =>
    rw [List.mem_cons, not_or] at ht
    rw [List.cons_append, afterFirstLine, if_neg (Ne.symm ht.1), ih ht.2]

private theorem isFullLine_firstLine {t : Text} (h : t.afterFirstLine ≠ []) :
    IsFullLine t.firstLine := by
  induction t with
  | nil => exact absurd rfl h
  | cons c t ih =>
    by_cases hc : c = '\n'
    · exact ⟨[], by simp, by rw [firstLine, if_pos hc, hc, List.nil_append]⟩
    · rw [afterFirstLine, if_neg hc] at h
      obtain ⟨s, hs, hline⟩ := ih h
      refine ⟨c :: s, ?_, by rw [firstLine, if_neg hc, hline, List.cons_append]⟩
      rw [List.mem_cons, not_or]
      exact ⟨Ne.symm hc, hs⟩

/-! ## The lines of a text and its parts

Lines in front of a cut keep their line feeds and are lines of any text that they stand in; the
lines behind it are those of what stands behind. -/

@[simp] theorem keptLines_nil : keptLines [] = [] := by rw [keptLines]

theorem keptLines_of_ne_nil {t : Text} (h : t ≠ []) :
    t.keptLines = t.firstLine :: t.afterFirstLine.keptLines := by
  obtain ⟨c, t, rfl⟩ := List.exists_cons_of_ne_nil h
  rw [keptLines]

theorem flatten_keptLines (t : Text) : t.keptLines.flatten = t := by
  fun_induction keptLines t with
  | case1 => rfl
  | case2 c r ih => rw [List.flatten_cons, ih, firstLine_append_afterFirstLine]

theorem keptLines_flatten_append {lines : List Text} (h : ∀ line ∈ lines, IsFullLine line)
    (t : Text) : keptLines (lines.flatten ++ t) = lines ++ t.keptLines := by
  induction lines with
  | nil => rfl
  | cons line lines ih =>
    rw [List.forall_mem_cons] at h
    obtain ⟨s, hs, rfl⟩ := h.1
    have happend : (((s ++ ['\n']) :: lines).flatten ++ t) = s ++ '\n' :: (lines.flatten ++ t) := by
      simp
    rw [happend, keptLines_of_ne_nil (by simp), firstLine_append hs, afterFirstLine_append hs,
      ih h.2, List.cons_append]

theorem keptLines_flatten {lines : List Text} (h : ∀ line ∈ lines, IsFullLine line) :
    keptLines lines.flatten = lines := by
  have happend := keptLines_flatten_append h []
  rwa [List.append_nil, keptLines_nil, List.append_nil] at happend

private theorem keptLines_flatten_of_append {t : Text} {front back : List Text}
    (h : t.keptLines = front ++ back) : keptLines back.flatten = back := by
  induction front generalizing t with
  | nil =>
    rw [List.nil_append] at h
    rw [← h, flatten_keptLines]
  | cons line front ih =>
    have hne : t ≠ [] := by
      rintro rfl
      simp at h
    rw [keptLines_of_ne_nil hne, List.cons_append] at h
    exact ih (List.cons.inj h).2

/-- The lines in front of a cut are full if there is a line behind it. -/
theorem isFullLine_of_keptLines {t : Text} {front back : List Text}
    (h : t.keptLines = front ++ back) (hback : back ≠ []) : ∀ line ∈ front, IsFullLine line := by
  induction front generalizing t with
  | nil => simp
  | cons line front ih =>
    have hne : t ≠ [] := by
      rintro rfl
      simp at h
    rw [keptLines_of_ne_nil hne, List.cons_append] at h
    obtain ⟨rfl, hrest⟩ := List.cons.inj h
    rw [List.forall_mem_cons]
    refine ⟨isFullLine_firstLine fun hnil ↦ hback ?_, ih hrest⟩
    rw [hnil, keptLines_nil] at hrest
    exact (List.append_eq_nil_iff.mp hrest.symm).2

end Text

/-! ## The block of a text -/

section

variable {α : Type} {p : α → Bool}

theorem drop_length_takeWhile (xs : List α) : xs.drop (xs.takeWhile p).length = xs.dropWhile p := by
  induction xs with
  | nil => rfl
  | cons x xs ih =>
    by_cases hx : p x = true
    · rw [List.takeWhile_cons_of_pos hx, List.dropWhile_cons_of_pos hx, List.length_cons,
        List.drop_succ_cons, ih]
    · rw [List.takeWhile_cons_of_neg hx, List.dropWhile_cons_of_neg hx, List.length_nil,
        List.drop_zero]

/-- Items of a class are what the class takes, if none of it follows. -/
theorem takeWhile_append_of_head {xs ys : List α} (hxs : ∀ x ∈ xs, p x = true)
    (hys : ys.head?.any p = false) : (xs ++ ys).takeWhile p = xs := by
  rw [List.takeWhile_append_of_pos hxs]
  cases ys with
  | nil => simp
  | cons y ys => rw [List.takeWhile_cons_of_neg (by simpa using hys), List.append_nil]

theorem head?_dropWhile_any (xs : List α) : (xs.dropWhile p).head?.any p = false := by
  have hnot := List.head?_dropWhile_not p xs
  cases h : (xs.dropWhile p).head? with
  | none => rfl
  | some x =>
    rw [h] at hnot
    simpa using hnot

end

namespace UsingBlock

open Text

/-- What a text can be left with at both ends of its directives: full blank lines in front, and no
further directive behind. -/
structure Frames (lead : List Text) (rest : Text) : Prop where
  isFullLine : ∀ line ∈ lead, IsFullLine line
  allBlank : ∀ line ∈ lead, line.allBlank = true
  not_isUsingLine : rest.keptLines.head?.any isUsingLine = false

theorem ofText_flatten {lead statements : List Text} {rest : Text} (h : Frames lead rest)
    (hne : statements ≠ []) (hfull : ∀ s ∈ statements, IsFullLine s)
    (husing : ∀ s ∈ statements, s.isUsingLine = true) :
    ofText (lead.flatten ++ statements.flatten ++ rest) = ⟨lead.flatten, statements, rest⟩ := by
  have hlines : keptLines (lead.flatten ++ statements.flatten ++ rest) =
      lead ++ (statements ++ rest.keptLines) := by
    rw [List.append_assoc, keptLines_flatten_append h.isFullLine, keptLines_flatten_append hfull]
  have hstatements := takeWhile_append_of_head husing h.not_isUsingLine
  obtain ⟨s, ss, rfl⟩ := List.exists_cons_of_ne_nil hne
  have hlead : (lead ++ (s :: ss ++ rest.keptLines)).takeWhile Text.allBlank = lead := by
    refine takeWhile_append_of_head h.allBlank ?_
    -- a directive is not blank
    rw [List.cons_append, List.head?_cons, Option.any_some, ← Bool.not_eq_true]
    intro hblank
    have hnot := isUsingLine_of_allBlank hblank
    rw [husing s List.mem_cons_self] at hnot
    exact absurd hnot (by decide)
  rw [ofText]
  simp only [hlines, hlead, List.drop_left, hstatements, flatten_keptLines]

theorem exists_frames (t : Text) :
    ∃ lead, (ofText t).lead = lead.flatten ∧ Frames lead (ofText t).rest := by
  have hlines : t.keptLines.takeWhile Text.allBlank ++ t.keptLines.dropWhile Text.allBlank =
      t.keptLines := List.takeWhile_append_dropWhile
  have hblank : ∀ line ∈ t.keptLines.takeWhile Text.allBlank, line.allBlank = true := fun line h ↦
    List.mem_takeWhile_imp h
  rw [ofText]
  simp only [drop_length_takeWhile]
  generalize t.keptLines.takeWhile Text.allBlank = lead at hlines hblank
  generalize t.keptLines.dropWhile Text.allBlank = after at hlines
  split
  · next hnone =>
    refine ⟨[], rfl, by simp, by simp, ?_⟩
    rw [← hlines]
    cases lead with
    | nil =>
      have hhead := head?_dropWhile_any (p := isUsingLine) after
      rwa [← drop_length_takeWhile, hnone] at hhead
    | cons line lead => exact isUsingLine_of_allBlank (hblank line List.mem_cons_self)
  · next hsome =>
    have hafter : after.takeWhile isUsingLine ++ after.dropWhile isUsingLine = after :=
      List.takeWhile_append_dropWhile
    refine ⟨lead, rfl, isFullLine_of_keptLines hlines.symm ?_, hblank, ?_⟩
    · rintro rfl
      exact hsome rfl
    · rw [← hafter, ← List.append_assoc] at hlines
      rw [drop_length_takeWhile, keptLines_flatten_of_append hlines.symm]
      exact head?_dropWhile_any after

private theorem isFullLine_append_text {t : Text} (ht : ∀ c ∈ t, isLineEnd c = false)
    (e : LineEnding) : IsFullLine (t ++ e.text) := by
  have hn : '\n' ∉ t := fun h ↦ absurd (ht _ h) (by decide)
  cases e with
  | lf => exact ⟨t, hn, rfl⟩
  | crlf => exact ⟨t ++ ['\r'], by simpa using hn, by simp [LineEnding.text]⟩

/-- Replacing the directives of a text replaces them in its block and leaves the rest of it as it
is. -/
theorem ofText_replaceUsings (t : Text) {statements : List Text} (hne : statements ≠ [])
    (h : ∀ s ∈ statements, s.isUsingLine = true) (e : LineEnding) :
    ofText (t.replaceUsings statements e.text) =
      ⟨(ofText t).lead, statements.map fun s ↦ withoutEnding s ++ e.text, (ofText t).rest⟩ := by
  obtain ⟨lead, hlead, hframes⟩ := exists_frames t
  rw [replaceUsings, replace, List.flatMap_def, hlead]
  refine ofText_flatten hframes (by simpa using hne) ?_ ?_
  · intro line hline
    obtain ⟨s, hs, rfl⟩ := List.mem_map.mp hline
    exact isFullLine_append_text (isUsingLine_withoutEnding (h s hs) e).1 e
  · intro line hline
    obtain ⟨s, hs, rfl⟩ := List.mem_map.mp hline
    exact (isUsingLine_withoutEnding (h s hs) e).2

end UsingBlock

theorem Text.usings_eq (t : Text) :
    t.usings = (t.keptLines.dropWhile Text.allBlank).takeWhile Text.isUsingLine := by
  rw [Text.usings, UsingBlock.ofText]
  simp only [drop_length_takeWhile]
  split
  · next h => exact h.symm
  · rfl

/-- The directives that are read from a text are those that were put there last, each with the
ending that was asked for. -/
theorem usings_replaceUsings (t : Text) {statements : List Text} (hne : statements ≠ [])
    (h : ∀ s ∈ statements, s.isUsingLine = true) (e : LineEnding) :
    (t.replaceUsings statements e.text).usings =
      statements.map fun s ↦ s.withoutEnding ++ e.text := by
  rw [Text.usings, UsingBlock.ofText_replaceUsings t hne h e]

/-- A file with blank lines in front of its directive, and another directive behind a blank line. -/
def spacedUsings : List Text :=
  [" \t\r\n", "\n", "using A;\n", "\n", "using B;\n", "class C\n"].map String.toList

/-- Directives with endings of their own. -/
def mixedUsings : List Text :=
  ["global using @X = Y<Z>.W ; \r\n\n".toList, "\tusing static S;\r".toList]

theorem usings_replaceUsings_spacedUsings :
    mixedUsings ≠ [] ∧ (∀ s ∈ mixedUsings, s.isUsingLine = true) ∧
      Text.usings spacedUsings.flatten = ["using A;\n".toList] ∧
      (Text.replaceUsings spacedUsings.flatten mixedUsings LineEnding.crlf.text).usings =
        ["global using @X = Y<Z>.W ; \r\n".toList, "\tusing static S;\r\n".toList] := by
  have husing : ∀ s ∈ mixedUsings, s.isUsingLine = true := by decide
  refine ⟨by decide, husing, ?_, ?_⟩
  · rw [Text.usings_eq, Text.keptLines_flatten (by decide)]
    decide
  · rw [usings_replaceUsings _ (by decide) husing .crlf]
    decide

end CSharpOutline
