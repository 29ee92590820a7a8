import CSharpOutline.Member.Locate
import CSharpOutline.Proofs.Code.LineBreak
import CSharpOutline.Proofs.Text.Returns
import CSharpOutline.Proofs.Using.Block

/-!
# How the lines of a document end

What is found in a document does not depend on whether its lines end with a line feed or with a
carriage return and a line feed (`Document.outline_withReturns`). Three ways of reading come
together in this. Members and the line under the cursor are looked for in the lines of a snapshot,
which have no endings. Names are looked for in the text itself, which is the subject of
`Text.namespaceName_withReturns` and `Text.className_withReturns`. Directives are lines with their
endings, so here the answers differ, and only by the returns.
-/

namespace CSharpOutline

/-! ## The lines of a snapshot -/

namespace Snapshot

private theorem dropReturn_cons {c : Char} (hc : c ≠ '\r') (line : Text) :
    dropReturn (c :: line) = c :: dropReturn line := by
  cases line with
  | nil => simp [dropReturn, hasReturn, hc]
  | cons d line =>
    rw [dropReturn, dropReturn, hasReturn, hasReturn, List.getLast?_cons_cons]
    split
    · rfl
    · rfl

private theorem lines_ofText_withReturns {t : Text} (ht : '\r' ∉ t) :
    (ofText t.withReturns).lines = (ofText t).lines := by
  change t.withReturns.lines.map dropReturn = t.lines.map dropReturn
  induction t with
  | nil => rfl
  | cons c t ih =>
    rw [List.mem_cons, not_or] at ht
    have ih := ih ht.2
    by_cases hc : c = '\n'
    · subst hc
      have hreturn : Text.lines ('\r' :: '\n' :: Text.withReturns t) =
          ['\r'] :: (Text.withReturns t).lines := by
        rw [Text.lines, if_neg (by decide), Text.lines_newline, List.modifyHead_cons]
      rw [Text.withReturns_newline, hreturn, Text.lines_newline, List.map_cons, ih]
      rfl
    · obtain ⟨first, rest, hlines, hcons⟩ := Text.exists_lines_cons hc t
      obtain ⟨first', rest', hlines', hcons'⟩ := Text.exists_lines_cons hc (Text.withReturns t)
      rw [hlines, hlines', List.map_cons, List.map_cons, List.cons.injEq] at ih
      rw [Text.withReturns_cons hc, hcons, hcons', List.map_cons, List.map_cons,
        dropReturn_cons (Ne.symm ht.1), dropReturn_cons (Ne.symm ht.1), ih.1, ih.2]

end Snapshot

/-! ## The using block

Directives keep their endings, so they are not the same with returns. A line is a directive with a
return in its ending exactly if it is one without. -/

namespace Text

private theorem firstLine_withReturns (t : Text) :
    t.withReturns.firstLine = t.firstLine.withReturns := by
  induction t with
  | nil => rfl
  | cons c t ih =>
    by_cases hc : c = '\n'
    · rw [hc]
      rfl
    · rw [withReturns_cons hc, firstLine, if_neg hc, ih, firstLine, if_neg hc, withReturns_cons hc]

private theorem afterFirstLine_withReturns (t : Text) :
    t.withReturns.afterFirstLine = t.afterFirstLine.withReturns := by
  induction t with
  | nil => rfl
  | cons c t ih =>
    by_cases hc : c = '\n'
    · rw [hc]
      rfl
    · rw [withReturns_cons hc, afterFirstLine, if_neg hc, ih, afterFirstLine, if_neg hc]

private theorem keptLines_withReturns (t : Text) :
    t.withReturns.keptLines = t.keptLines.map withReturns := by
  fun_induction keptLines t with
  | case1 => rw [withReturns_nil, keptLines_nil, List.map_nil]
  | case2 c r ih =>
    rw [keptLines_of_ne_nil (withReturns_ne_nil (List.cons_ne_nil c r)), firstLine_withReturns,
      afterFirstLine_withReturns, ih, List.map_cons]

private theorem allBlank_withReturns (t : Text) : t.withReturns.allBlank = t.allBlank := by
  induction t with
  | nil => rfl
  | cons c t ih =>
    by_cases hc : c = '\n'
    · rw [hc, withReturns_newline, allBlank_cons, allBlank_cons, allBlank_cons, ih]
      rfl
    · rw [withReturns_cons hc, allBlank_cons, allBlank_cons, ih]

/-- A line that is kept with its ending is a text without line feeds, and one line feed at most. -/
theorem exists_eq_firstLine (t : Text) :
    ∃ x, '\n' ∉ x ∧ (t.firstLine = x ∨ t.firstLine = x ++ ['\n']) := by
  induction t with
  | nil => exact ⟨[], by simp, .inl rfl⟩
  | cons c t ih =>
    by_cases hc : c = '\n'
    · exact ⟨[], by simp, .inr (by rw [firstLine, if_pos hc, hc, List.nil_append])⟩
    · obtain ⟨x, hx, hline⟩ := ih
      refine ⟨c :: x, by simp [Ne.symm hc, hx], ?_⟩
      rw [firstLine, if_neg hc]
      rcases hline with hline | hline
      · exact .inl (by rw [hline])
      · exact .inr (by rw [hline, List.cons_append])

theorem exists_of_mem_keptLines {t line : Text} (h : line ∈ t.keptLines) :
    ∃ x, '\n' ∉ x ∧ (line = x ∨ line = x ++ ['\n']) := by
  fun_induction keptLines t with
  | case1 => simp at h
  | case2 c r ih =>
    rcases List.mem_cons.mp h with rfl | h
    · exact exists_eq_firstLine (c :: r)
    · exact ih h

private theorem isUsingLine_withReturns {t line : Text} (ht : '\r' ∉ t)
    (hline : line ∈ t.keptLines) : line.withReturns.isUsingLine = line.isUsingLine := by
  have hreturn : '\r' ∉ line := by
    intro hr
    rw [← flatten_keptLines t] at ht
    exact ht (List.mem_flatten_of_mem hline hr)
  obtain ⟨x, hx, hcases⟩ := exists_of_mem_keptLines hline
  rcases hcases with rfl | rfl
  · rw [withReturns_of_not_mem hx]
  · have hends : ∀ c ∈ x, isLineEnd c = false := by
      intro c hc
      have hr : c ≠ '\r' := by
        rintro rfl
        exact hreturn (List.mem_append_left _ hc)
      have hn : c ≠ '\n' := by
        rintro rfl
        exact hx hc
      simp [isLineEnd, hr, hn]
    rw [withReturns_append, withReturns_of_not_mem hx]
    exact (isUsingLine_append hends (by decide)).trans (isUsingLine_append hends (by decide)).symm

private theorem takeWhile_congr {α : Type} {p q : α → Bool} {xs : List α}
    (h : ∀ x ∈ xs, p x = q x) : xs.takeWhile p = xs.takeWhile q := by
  induction xs with
  | nil => rfl
  | cons x xs ih =>
    rw [List.forall_mem_cons] at h
    rw [List.takeWhile_cons, List.takeWhile_cons, h.1, ih h.2]

private theorem usings_withReturns {t : Text} (ht : '\r' ∉ t) :
    t.withReturns.usings = t.usings.map withReturns := by
  have hblank : allBlank ∘ withReturns = allBlank := funext allBlank_withReturns
  rw [usings_eq, usings_eq, keptLines_withReturns, List.dropWhile_map, hblank, List.takeWhile_map]
  refine congrArg (List.map withReturns) (takeWhile_congr fun line hline ↦ ?_)
  exact isUsingLine_withReturns ht ((List.dropWhile_suffix _).subset hline)

end Text

/-! ## Documents -/

/-- The members found in a document depend on its lines only. -/
theorem Document.member?_of_lines {d d' : Document}
    (h : d'.toSnapshot.lines = d.toSnapshot.lines) (modifier : Text) (line : Int) :
    d'.member? modifier line = d.member? modifier line := by
  rw [Document.member?, Document.member?, h]

private theorem Editor.memberAtCursor?_of_lines {d d' : Document}
    (h : d'.toSnapshot.lines = d.toSnapshot.lines) (cursor : Cursor) :
    Editor.memberAtCursor? ⟨d', cursor⟩ = Editor.memberAtCursor? ⟨d, cursor⟩ := by
  have hmember (modifier : Text) (line : Int) :
      (Document.snapshot d'.toSnapshot).member? modifier line =
        (Document.snapshot d.toSnapshot).member? modifier line :=
    Document.member?_of_lines h modifier line
  simp only [Editor.memberAtCursor?, Snapshot.size, h, hmember]

namespace Document

/-- A document shows a text if it is the live text or a snapshot of it. -/
inductive Shows (t : Text) : Document → Prop
  | live : Shows t (.live t)
  | snapshot : Shows t (.snapshot (.ofText t))

private theorem Shows.lines {t : Text} {d : Document} (h : d.Shows t) :
    d.toSnapshot.lines = (Snapshot.ofText t).lines := by
  cases h with
  | live => rfl
  | snapshot => rfl

/-- What is found in a document does not depend on how its lines end: members, names and the line
under the cursor are the same, and directives differ in their endings only. -/
theorem outline_withReturns {t : Text} (ht : '\r' ∉ t) {d d' : Document} (hd : d.Shows t)
    (hd' : d'.Shows t.withReturns) :
    (∀ modifier line, d'.member? modifier line = d.member? modifier line) ∧
    (∀ cursor, Editor.memberAtCursor? ⟨d', cursor⟩ = Editor.memberAtCursor? ⟨d, cursor⟩) ∧
    (∀ cursor, Editor.lineAtCursor? ⟨d', cursor⟩ = Editor.lineAtCursor? ⟨d, cursor⟩) ∧
    t.withReturns.namespaceName = t.namespaceName ∧
    t.withReturns.className = t.className ∧
    t.withReturns.usings = t.usings.map Text.withReturns := by
  have hlines : d'.toSnapshot.lines = d.toSnapshot.lines := by
    rw [hd.lines, hd'.lines, Snapshot.lines_ofText_withReturns ht]
  refine ⟨member?_of_lines hlines, Editor.memberAtCursor?_of_lines hlines, fun cursor ↦ ?_,
    Text.namespaceName_withReturns t, Text.className_withReturns t, Text.usings_withReturns ht⟩
  rw [Editor.lineAtCursor?, Editor.lineAtCursor?, hlines]

/-- A file with line breaks inside its declarations. -/
def brokenFile : List Text :=
  ["using A;\n", "namespace\n", "N;\n", "[X]\n", "class\n", "C\n", "public int F(\n",
    ")\x7b\n"].map String.toList

theorem outline_withReturns_brokenFile :
    '\r' ∉ brokenFile.flatten ∧
    (live brokenFile.flatten).Shows brokenFile.flatten ∧
    (snapshot (.ofText (Text.withReturns brokenFile.flatten))).Shows
      (Text.withReturns brokenFile.flatten) ∧
    (snapshot (.ofText (Text.withReturns brokenFile.flatten))).member? "public".toList 6 =
      .ok (some ⟨.method, 6, 8, "public int F()".toList⟩) ∧
    (snapshot (.ofText (Text.withReturns brokenFile.flatten))).member? "public".toList 9 =
      .error (.outsideDocument 9 8) ∧
    (Text.withReturns brokenFile.flatten).namespaceName = .ok "N".toList ∧
    (Text.withReturns brokenFile.flatten).className = Text.className brokenFile.flatten ∧
    (Text.withReturns brokenFile.flatten).usings = ["using A;\r\n".toList] := by
  have ht : '\r' ∉ brokenFile.flatten := by decide
  obtain ⟨hmember, -, -, hnamespace, hclass, husings⟩ := outline_withReturns ht .live .snapshot
  refine ⟨ht, .live, .snapshot, ?_, ?_, ?_, hclass, ?_⟩
  · rw [hmember]
    decide +kernel
  · rw [hmember]
    decide +kernel
  · rw [hnamespace]
    decide +kernel
  · rw [husings, Text.usings_eq, Text.keptLines_flatten (by decide)]
    decide

end Document

end CSharpOutline
