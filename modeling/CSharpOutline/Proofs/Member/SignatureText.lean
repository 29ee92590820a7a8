import CSharpOutline.Proofs.Member.Opening

/-!
# The text of a signature

The text of a block is the declaration up to the opener of its body, with comments left out and
blanks made single spaces. Nothing else is lost and nothing is invented: apart from blanks, the text
is what the lines say up to the place of the opener, and the body is followed to its end from that
same place (`Document.exists_isSigned`).
-/

namespace CSharpOutline

open Text Scan

/-- The text of a block is what the lines from `start` on say up to the opener that stands at a
column of a line, and the body is followed from there. -/
structure IsSigned (lines : List Text) (start : Int) (b : Block) (opener : Opener)
    (line column : Nat) : Prop where
  start_le : start ≤ line
  line_le : line ≤ b.endLine
  /-- The first character of the opener stands there. -/
  char : ∃ t, lines[line]? = some t ∧ t[column]? = opener.symbol.toList.head?
  isSpaced : IsSpaced b.text
  ne_nil : b.text ≠ []
  visible_eq : visible b.text =
    visible (((lines.take line).drop start.toNat).flatMap withoutComment ++
      (lines.getD line []).take column)
  brace_end : opener = .brace → blockEnd lines line column = .ok b.endLine
  arrow_end : opener = .arrow → statementEnd lines line column = .ok b.endLine
  semicolon_end : opener = .semicolon → b.endLine = line
  opener_of_accessors : b.kind = .fullProperty → opener = .brace
  opener_of_arrow : b.kind = .arrowProperty → opener = .arrow

/-- The text of a member's signature loses nothing of its declaration and adds nothing to it. -/
theorem Document.exists_isSigned (d : Document) (modifier : Text) (start : Int) {b : Block}
    (h : d.member? modifier start = .ok (some b)) :
    ∃ opener line column, IsSigned d.toSnapshot.lines start b opener line column := by
  obtain ⟨s, o, rfl, hs, -, ⟨n, rest, hopens⟩, hblock⟩ :=
    (member?_eq_some_iff d modifier start b).mp h
  obtain ⟨line, column, t, hle, ht, hposition, hchar, hshown⟩ := hopens.exists_place
  obtain ⟨hlast, hkind, -, htext⟩ := Opening.toBlock_eq_ok_iff.mp hblock
  obtain ⟨hbrace, harrow⟩ := Reading.opener_of_kind hopens.decides.member
  have hmember := hopens.decides.member
  rw [hopens.text] at hmember
  rw [List.getElem?_drop] at ht
  have hline : s + line < d.toSnapshot.lines.length := (List.getElem?_eq_some_iff.mp ht).1
  rw [hposition, ← Int.natCast_add] at hlast
  refine ⟨o.opener, s + line, column, ?_⟩
  constructor
  · omega
  · rw [o.opener.lastLine_natCast hline, Except.ok.injEq] at hlast
    rw [← hlast]
    cases o.opener.bodyEnd? (linesAhead d.toSnapshot.lines (s + line) column) with
    | none =>
      rw [Option.elim_none]
      omega
    | some k =>
      rw [Option.elim_some]
      omega
  · exact ⟨t, ht, hchar⟩
  · rw [htext]
    exact isSpaced_collapse o.shown
  · rw [htext]
    exact collapse_ne_nil (Reading.visible_ne_nil_of_member hmember)
  · rw [htext, visible_collapse, hshown, List.take_drop, List.getD_eq_getElem?_getD, ht]
    rfl
  · intro ho
    rwa [ho] at hlast
  · intro ho
    rwa [ho] at hlast
  · intro ho
    rw [ho] at hlast
    exact (Except.ok.inj hlast).symm
  · exact fun h ↦ hbrace (by rw [← hkind, h])
  · exact fun h ↦ harrow (by rw [← hkind, h])

/-- A method whose parameters are broken over two lines, with a comment on the first. -/
def brokenParameters : Document :=
  .live "public int Sum(int a, // first\n    int b)\n\x7b return a + b; \x7d".toList

theorem exists_isSigned_brokenParameters :
    ∃ b, brokenParameters.member? "public".toList 0 = .ok (some b) ∧
      ∃ opener line column,
        IsSigned brokenParameters.toSnapshot.lines 0 b opener line column := by
  have h : brokenParameters.member? "public".toList 0 =
      .ok (some ⟨.method, 0, 2, "public int Sum(int a,int b)".toList⟩) := by decide +kernel
  exact ⟨_, h, Document.exists_isSigned _ _ _ h⟩

end CSharpOutline
