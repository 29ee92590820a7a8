import CSharpOutline.Proofs.Document.LineEnding
import CSharpOutline.Proofs.Using.Editing
import Mathlib.Data.List.Forall2

/-!
# Writing the using block back

The block of a text is found line by line: the blank lines at the top are passed over, and the
directives are the longest run of using lines behind them (`UsingBlock.exists_isBlockOf`). Since
the lines of a text make up the text and only the last of them can lack its line feed
(`Text.isLines_iff`), the block cuts the text at line ends and loses nothing.

So putting the directives of a text back into it touches their terminators only. What is written
for a directive is what stands in front of its terminator and the ending that is asked for, and the
text stays as it is where each directive already ends in that way
(`UsingBlock.replaceUsings_usings`).
-/

namespace CSharpOutline

namespace Text

/-! ## Lines with their line feeds -/

/-- A text falls into lines that keep their line feeds. Only the last line may lack one, and it is
not empty then. -/
structure IsLines (t : Text) (lines : List Text) : Prop where
  flatten_eq : lines.flatten = t
  ne_nil : ∀ line ∈ lines, line ≠ []
  isFullLine : ∀ line ∈ lines.dropLast, IsFullLine line
  last : ∀ line ∈ lines.getLast?, IsFullLine line ∨ '\n' ∉ line

private theorem keptLines_of_not_mem {line : Text} (hne : line ≠ []) (h : '\n' ∉ line) :
    keptLines line = [line] := by
  have hparts : line.firstLine = line ∧ line.afterFirstLine = [] := by
    clear hne
    induction line with
    | nil => exact ⟨rfl, rfl⟩
    | cons c line ih =>
      rw [List.mem_cons, not_or] at h
      obtain ⟨hfirst, hafter⟩ := ih h.2
      rw [firstLine, afterFirstLine, if_neg (Ne.symm h.1), if_neg (Ne.symm h.1), hfirst]
      exact ⟨rfl, hafter⟩
  rw [keptLines_of_ne_nil hne, hparts.1, hparts.2, keptLines_nil]

/-- A text falls into lines in one way only. -/
theorem isLines_iff {t : Text} {lines : List Text} : t.IsLines lines ↔ t.keptLines = lines := by
  constructor
  · rintro ⟨rfl, hne, hfull, hlast⟩
    rcases List.eq_nil_or_concat' lines with rfl | ⟨front, line, rfl⟩
    · exact keptLines_nil
    · rw [List.dropLast_concat] at hfull
      rw [List.flatten_append, keptLines_flatten_append hfull]
      refine congrArg (front ++ ·) ?_
      rcases hlast line (by simp) with hline | hline
      · apply keptLines_flatten
        simpa using hline
      · rw [List.flatten_singleton]
        exact keptLines_of_not_mem (hne line (by simp)) hline
  · rintro rfl
    refine ⟨flatten_keptLines t, ?_, ?_, ?_⟩
    · intro line hline hnil
      fun_induction keptLines t with
      | case1 => simp at hline
      | case2 c r ih =>
        rcases List.mem_cons.mp hline with hfirst | hline
        · rw [firstLine, hnil] at hfirst
          split at hfirst <;> simp at hfirst
        · exact ih hline
    · intro line hline
      rcases List.eq_nil_or_concat' t.keptLines with hnil | ⟨front, last, hlines⟩
      · simp [hnil] at hline
      · rw [hlines, List.dropLast_concat] at hline
        exact isFullLine_of_keptLines hlines (List.cons_ne_nil last []) line hline
    · intro line hline
      obtain ⟨x, hx, rfl | rfl⟩ := exists_of_mem_keptLines (List.mem_of_getLast? hline)
      · exact .inr hx
      · exact .inl ⟨x, hx, rfl⟩

/-! ## Terminators

What stands in front of the terminator of a line is what is left of it without its ending, and a
line has one terminator only. -/

/-- A line is `body` and behind it the terminator: all the returns and line feeds at its end. -/
structure IsTerminated (line body terminator : Text) : Prop where
  line_eq : line = body ++ terminator
  isLineEnd : ∀ c ∈ terminator, isLineEnd c = true
  body_last : body.getLast?.any Text.isLineEnd = false

private theorem exists_isTerminated (line : Text) :
    ∃ terminator, line.IsTerminated line.withoutEnding terminator := by
  have hsplit := List.takeWhile_append_dropWhile (p := isLineEnd) (l := line.reverse)
  refine ⟨(line.reverse.takeWhile isLineEnd).reverse, ?_, ?_, ?_⟩
  · have hreverse := congrArg List.reverse hsplit
    rw [List.reverse_append, List.reverse_reverse] at hreverse
    exact hreverse.symm
  · intro c hc
    exact List.mem_takeWhile_imp (List.mem_reverse.mp hc)
  · rw [withoutEnding, List.getLast?_reverse]
    exact head?_dropWhile_any _

private theorem IsTerminated.withoutEnding_eq {line body terminator : Text}
    (h : line.IsTerminated body terminator) : line.withoutEnding = body := by
  have hlast : body.reverse.head?.any Text.isLineEnd = false := by
    rw [List.head?_reverse, h.body_last]
  have hdrop : line.reverse.dropWhile Text.isLineEnd = body.reverse := by
    rw [h.line_eq, List.reverse_append,
      List.dropWhile_append_of_pos fun c hc ↦ h.isLineEnd c (List.mem_reverse.mp hc),
      dropWhile_of_head hlast]
  exact (congrArg List.reverse hdrop).trans (List.reverse_reverse body)

/-- A line with its terminator replaced by `ending`. -/
def Reends (ending line renewed : Text) : Prop :=
  ∃ body terminator, line.IsTerminated body terminator ∧ renewed = body ++ ending

end Text

namespace UsingBlock

open Text

/-! ## The longest run of directives -/

/-- The using block of a text whose lines are blank ones, then the directives of the block, then
others. The blank lines are all those at the top, and the run of directives is the longest. A block
without a directive stands at the very start of the text. -/
structure IsBlockOf (b : UsingBlock) (t : Text) (blank others : List Text) : Prop where
  isLines : t.IsLines (blank ++ b.statements ++ others)
  text_eq : t = b.lead ++ b.statements.flatten ++ b.rest
  allBlank : ∀ line ∈ blank, line.allBlank = true
  not_allBlank : (b.statements ++ others).head?.any Text.allBlank = false
  isUsingLine : ∀ s ∈ b.statements, s.isUsingLine = true
  not_isUsingLine : others.head?.any Text.isUsingLine = false
  /-- In front of the directives stand the blank lines, all of them whole. -/
  lead_eq : b.statements ≠ [] → b.lead = blank.flatten ∧ ∀ line ∈ blank, IsFullLine line
  empty : b.statements = [] → b.lead = [] ∧ b.rest = t

private theorem ofText_cases (t : Text) :
    ofText t = ⟨[], [], t⟩ ∨ (ofText t).statements ≠ [] ∧
      (ofText t).lead = (t.keptLines.takeWhile Text.allBlank).flatten := by
  rw [ofText]
  split
  · exact .inl rfl
  · next hsome => exact .inr ⟨fun hnil ↦ hsome hnil, rfl⟩

theorem exists_isBlockOf (t : Text) : ∃ blank others, (ofText t).IsBlockOf t blank others := by
  have htext := UsingEdit.replace_ofText t
  have hblank : ∀ line ∈ t.keptLines.takeWhile Text.allBlank, line.allBlank = true := fun line h ↦
    List.mem_takeWhile_imp h
  have hafter : (t.keptLines.dropWhile Text.allBlank).head?.any Text.allBlank = false :=
    head?_dropWhile_any _
  have husings := Text.usings_eq t
  have hlines : t.keptLines = t.keptLines.takeWhile Text.allBlank ++ t.usings ++
      (t.keptLines.dropWhile Text.allBlank).dropWhile isUsingLine := by
    rw [husings, List.append_assoc, List.takeWhile_append_dropWhile,
      List.takeWhile_append_dropWhile]
  refine ⟨t.keptLines.takeWhile Text.allBlank,
    (t.keptLines.dropWhile Text.allBlank).dropWhile isUsingLine,
    isLines_iff.mpr hlines, htext.symm, hblank, ?_, ?_, head?_dropWhile_any _, ?_, ?_⟩
  · change (t.usings ++ _).head?.any Text.allBlank = false
    rwa [husings, List.takeWhile_append_dropWhile]
  · change ∀ s ∈ t.usings, s.isUsingLine = true
    rw [husings]
    exact fun s hs ↦ List.mem_takeWhile_imp hs
  · intro hne
    rcases ofText_cases t with hnone | ⟨-, hlead⟩
    · rw [hnone] at hne
      exact absurd rfl hne
    · rw [List.append_assoc] at hlines
      refine ⟨hlead, isFullLine_of_keptLines hlines fun hnil ↦ hne ?_⟩
      exact (List.append_eq_nil_iff.mp hnil).1
  · intro hnil
    rcases ofText_cases t with hnone | ⟨hne, -⟩
    · rw [hnone]
      exact ⟨rfl, rfl⟩
    · exact absurd hnil hne

/-! ## Putting the directives back -/

/-- The block of a text cuts it at the longest run of directives behind the blank lines at its top.
Putting the directives back with any ending changes their terminators to that ending and nothing
else, and so nothing at all where they all have it. -/
theorem replaceUsings_usings (t : Text) :
    (∃ blank others, (ofText t).IsBlockOf t blank others) ∧
    ∀ ending : Text,
      (∃ renewed, List.Forall₂ (Reends ending) t.usings renewed ∧
        t.replaceUsings t.usings ending =
          (ofText t).lead ++ renewed.flatten ++ (ofText t).rest) ∧
      ((∀ s ∈ t.usings, ∃ body, s.IsTerminated body ending) →
        t.replaceUsings t.usings ending = t) := by
  refine ⟨exists_isBlockOf t, fun ending ↦ ⟨?_, fun hended ↦ ?_⟩⟩
  · refine ⟨t.usings.map fun s ↦ s.withoutEnding ++ ending, ?_, ?_⟩
    · rw [List.forall₂_map_right_iff, List.forall₂_same]
      intro s _
      obtain ⟨terminator, hs⟩ := exists_isTerminated s
      exact ⟨s.withoutEnding, terminator, hs, rfl⟩
    · rw [replaceUsings, replace, List.flatMap_def]
  · have hkept : t.usings.map (fun s ↦ s.withoutEnding ++ ending) = t.usings := by
      refine (List.map_congr_left fun s hs ↦ ?_).trans (List.map_id t.usings)
      obtain ⟨body, hbody⟩ := hended s hs
      rw [hbody.withoutEnding_eq, ← hbody.line_eq, id]
    rw [replaceUsings, List.flatMap_def, hkept]
    exact UsingEdit.replace_ofText t

/-- A file with a blank line in front of its directives, which all end in a return and a line
feed. -/
def returnUsings : List Text :=
  [" \n", "using A;\r\n", "global using B = C.D ; \r\n", "\n", "using E;\n"].map String.toList

theorem replaceUsings_usings_returnUsings :
    Text.usings returnUsings.flatten =
        ["using A;\r\n", "global using B = C.D ; \r\n"].map String.toList ∧
      (∀ s ∈ Text.usings returnUsings.flatten,
        ∃ body, s.IsTerminated body LineEnding.crlf.text) ∧
      Text.replaceUsings returnUsings.flatten (Text.usings returnUsings.flatten)
        LineEnding.crlf.text = returnUsings.flatten := by
  have husings : Text.usings returnUsings.flatten =
      ["using A;\r\n", "global using B = C.D ; \r\n"].map String.toList := by
    rw [Text.usings_eq, keptLines_flatten (by decide)]
    decide
  have hended : ∀ s ∈ Text.usings returnUsings.flatten,
      ∃ body, s.IsTerminated body LineEnding.crlf.text := by
    rw [husings]
    intro s hs
    rw [List.map_cons, List.map_cons, List.map_nil, List.mem_cons, List.mem_singleton] at hs
    rcases hs with rfl | rfl
    · exact ⟨"using A;".toList, by decide, List.all_eq_true.mp (by decide), by decide⟩
    · exact ⟨"global using B = C.D ; ".toList, by decide, List.all_eq_true.mp (by decide),
        by decide⟩
  exact ⟨husings, hended, ((replaceUsings_usings returnUsings.flatten).2 _).2 hended⟩

end UsingBlock

end CSharpOutline
