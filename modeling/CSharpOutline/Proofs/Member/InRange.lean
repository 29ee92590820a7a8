import CSharpOutline.Proofs.Member.Opening

/-!
# The scan stays inside the document

Offsets are signed, and an operation that is given one which names no character or line answers with
a fault; a negative offset is worse, because it counts from the end and names the wrong place
without a fault. The scan gives neither. Whatever the text, the verdict on it looks only at places
of the text (`Verdict.looksInside`); whatever the document, the opener of a body is found on one of
the lines that were read, and the body ends on a line of the document (`Scan.staysInside`). The only
fault that is left is the one for a line that the document does not have; its wording names the
line, so there is another one for a line with too many digits (`Document.member?_inRange`).
-/

namespace CSharpOutline

open Text CSharpOutline.Joined

/-! ## Places in a text

The boundary of a head stands in the text, the closer of a parameter list behind its opener, and the
opener of the body behind that. So no offset that the verdict looks at is negative or past the
end. -/

/-- Every place of a text that the verdict on it looks at is inside the text. -/
structure Verdict.LooksInside (text : Text) : Prop where
  /-- A boundary that has been found stands in the text. -/
  boundary : ∀ head, Head.parse? text = some head → head.boundary.isSome →
    head.boundaryStart < text.length
  /-- The closer of a parameter list stands behind its opener. -/
  closing : ∀ head, Head.parse? text = some head → head.boundary = some .parameters →
    ∃ close, text.closingAt head.boundaryStart = .ok close ∧ close < text.length ∧
      (close = -1 ∨ head.boundaryStart < close)
  /-- The search for the opener of the body starts behind the closer and stays in the text. -/
  opener : ∀ close : Int, 0 ≤ close → ∃ found, text.firstOpener? (close + 1) = .ok found ∧
    ∀ i o, found = some (i, o) → close < i ∧ i < text.length
  /-- The verdict is reached, and a body opens in the text. -/
  verdict : ∃ v, Verdict.ofText text = .ok v ∧
    ∀ kind offset opener, v = .member kind offset opener → 0 ≤ offset ∧ offset < text.length

namespace Verdict

private theorem boundaryStart_lt {text : Text} {head : Head} (h : Head.parse? text = some head)
    (hboundary : head.boundary.isSome) : head.boundaryStart < text.length := by
  obtain ⟨r, hr, hread, hstart⟩ := Head.exists_boundaryAt_of_parse? h
  have hne : r ≠ [] := by
    rintro rfl
    rw [← Option.some.inj hread] at hboundary
    exact absurd hboundary (by decide)
  have hpos := List.length_pos_of_ne_nil hne
  have hle := (Head.boundaryAt?_suffix hr).length_le
  omega

private theorem closing?_paren {t : Text} {k : Nat} (h : closing? ('(' :: t) = some k) :
    0 < k ∧ k < ('(' :: t).length := by
  have hstop : Balance.fresh.stopOffset? (Balance.closed .paren) ('(' :: t) = some k := h
  refine ⟨Nat.pos_of_ne_zero ?_, Balance.stopOffset?_lt hstop⟩
  rintro rfl
  have hopen : Balance.closed .paren Balance.fresh '(' = false := by decide
  rw [Balance.stopOffset?, hopen, if_neg (by decide)] at hstop
  obtain ⟨j, -, hj⟩ := Option.map_eq_some_iff.mp hstop
  exact absurd hj (by simp)

theorem looksInside (text : Text) : LooksInside text where
  boundary _ h hboundary := boundaryStart_lt h hboundary
  closing head h hparameters := by
    have hlt := boundaryStart_lt h (by rw [hparameters]; rfl)
    obtain ⟨r, hr, hread, hstart⟩ := Head.exists_boundaryAt_of_parse? h
    rw [hparameters] at hread
    obtain ⟨t, rfl⟩ := Boundary.read?_eq_parameters hread
    have hsuffix := Head.boundaryAt?_suffix hr
    have hle := hsuffix.length_le
    rw [Text.closingAt_natCast hlt, hstart, drop_of_suffix hsuffix]
    cases hclose : closing? ('(' :: t) with
    | none => exact ⟨-1, rfl, by omega, .inl rfl⟩
    | some k =>
      obtain ⟨hpos, hk⟩ := closing?_paren hclose
      rw [Option.elim_some]
      exact ⟨_, rfl, by omega, .inr (by omega)⟩
  opener close hclose := by
    obtain ⟨k, rfl⟩ := Int.eq_ofNat_of_zero_le hclose
    refine ⟨_, firstOpener?_natCast text (k + 1), fun i o hfound ↦ ?_⟩
    obtain ⟨⟨opener, rest⟩, hopening, heq⟩ := Option.map_eq_some_iff.mp hfound
    obtain ⟨hsuffix, hread⟩ := Balance.opening?_suffix hopening
    obtain ⟨d, r, rfl, -⟩ := Opener.exists_cons_of_read? hread
    have hle := hsuffix.length_le
    rw [List.length_drop, List.length_cons] at hle
    obtain ⟨hi, -⟩ := Prod.mk.inj heq
    rw [List.length_drop, List.length_cons] at hi
    constructor <;> omega
  verdict := by
    refine ⟨_, ofText_eq text, fun kind offset opener h ↦ ?_⟩
    cases hreading : Reading.ofText text with
    | undecided => simp [hreading, Reading.verdict] at h
    | rejected => simp [hreading, Reading.verdict] at h
    | member kind opener rest =>
      obtain ⟨d, r, rfl, -⟩ := Reading.exists_cons_of_member hreading
      have hle := (Reading.ofText_suffix hreading).1.length_le
      rw [hreading, Reading.verdict, Verdict.member.injEq] at h
      rw [List.length_cons] at h hle
      constructor <;> omega

end Verdict

/-! ## Places in a document -/

namespace Scan

/-- Every place that the scan looks at, once it has joined the lines from `start` on and `n` more of
them, is inside the joined text or the document. -/
structure StaysInside (lines : List Text) (start n : Nat) : Prop where
  text : Verdict.LooksInside (join [] ((lines.drop start).take (n + 1)))
  /-- The opener of a body belongs to a segment and is found on one of the lines read; from there on
  the body ends on a line of the document. -/
  place : ∀ kind offset opener,
    Verdict.ofText (join [] ((lines.drop start).take (n + 1))) = .ok (.member kind offset opener) →
    (∃ s ∈ (pushAll {} start ((lines.drop start).take (n + 1))).segments, s.start ≤ offset) ∧
    ∃ line column : Nat,
      (pushAll {} start ((lines.drop start).take (n + 1))).locate offset = .ok (line, column) ∧
      start ≤ line ∧ line ≤ start + n ∧ (∃ t, lines[line]? = some t ∧ column < t.length) ∧
      ∃ last : Nat, opener.lastLine lines (line, column) = .ok last ∧ line ≤ last ∧
        last < lines.length

theorem exists_lastLine (opener : Opener) {lines : List Text} {line : Nat}
    (h : line < lines.length) (column : Nat) :
    ∃ last : Nat, opener.lastLine lines (line, column) = .ok last ∧ line ≤ last ∧
      last < lines.length := by
  have hahead : (linesAhead lines line column).length = lines.length - line := by
    rw [linesAhead, List.length_modifyHead, List.length_drop]
  rw [opener.lastLine_natCast h]
  cases hend : opener.bodyEnd? (linesAhead lines line column) with
  | none =>
    have hcast : (lines.length - 1 : Int) = (lines.length - 1 : Nat) := by omega
    exact ⟨lines.length - 1, by rw [Option.elim_none, hcast], by omega, by omega⟩
  | some k =>
    have hne : linesAhead lines line column ≠ [] := List.ne_nil_of_length_pos (by omega)
    have hk := Opener.bodyEnd?_lt hne hend
    exact ⟨line + k, by rw [Option.elim_some]; rfl, by omega, by omega⟩

theorem staysInside (lines : List Text) (start n : Nat) : StaysInside lines start n where
  text := Verdict.looksInside _
  place kind offset opener h := by
    generalize hread : (lines.drop start).take (n + 1) = read at h
    rw [Verdict.ofText_eq, Except.ok.injEq] at h
    cases hreading : Reading.ofText (join [] read) with
    | undecided => simp [hreading, Reading.verdict] at h
    | rejected => simp [hreading, Reading.verdict] at h
    | member kind opener rest =>
      rw [hreading, Reading.verdict, Verdict.member.injEq] at h
      obtain ⟨-, hoffset, rfl⟩ := h
      obtain ⟨⟨shown, htext⟩, -⟩ := Reading.ofText_suffix hreading
      obtain ⟨d, r, rfl, hd, -⟩ := Reading.exists_cons_of_member hreading
      obtain rfl : offset = shown.length := by
        rw [← hoffset, ← htext, List.length_append]
        omega
      obtain ⟨s, -, -, hs, -⟩ := (segments_pushAll start read).2 shown d r htext.symm hd
      obtain ⟨line, column, hlocate, hplace⟩ := locate_pushAll start htext.symm hd
      obtain ⟨before, u, v, w, after, hlines, -, -, rfl, rfl, -⟩ := hplace
      have hget : lines[start + before.length]? = some (u ++ d :: v ++ w) := by
        rw [← List.getElem?_drop, ← List.take_append_drop (n + 1) (lines.drop start), hread, hlines]
        simp
      have hlength : before.length ≤ n := by
        have hle := congrArg List.length hlines
        rw [← hread, List.length_take, List.length_append, List.length_cons] at hle
        omega
      refine ⟨⟨s, ?_, ?_⟩, start + before.length, u.length, ?_, by omega, by omega,
        ⟨_, hget, by simp⟩, ?_⟩
      · exact (List.takeWhile_sublist _).subset (List.mem_of_getLast? hs)
      · have hmem := List.mem_takeWhile_imp (List.mem_of_getLast? hs)
        simpa using hmem
      · rw [hlocate]
        rfl
      · exact exists_lastLine opener (List.getElem?_eq_some_iff.mp hget).1 u.length

end Scan

/-! ## Faults

A line that the document has is scanned without a fault. For every other one the fault is that line,
unless it has too many digits to be written out. -/

namespace Document

theorem exists_member? (d : Document) (modifier : Text) {start : Nat}
    (h : start < d.toSnapshot.lines.length) :
    ∃ found, d.member? modifier start = .ok found := by
  rw [member?]
  dsimp only
  rw [if_pos ⟨by omega, by omega⟩, Int.toNat_natCast]
  split
  · rw [Scan.follow_eq _ _ (by simp)]
    split
    · exact ⟨none, rfl⟩
    · next o ho =>
      obtain ⟨n, rest, hopens⟩ := (Scan.opening?_eq_some_iff _ _ o).mp ho
      obtain ⟨line, column, t, -, ht, hposition, -⟩ := hopens.exists_place
      rw [List.getElem?_drop] at ht
      rw [Opening.toBlock_natCast hposition (List.getElem?_eq_some_iff.mp ht).1]
      exact ⟨_, rfl⟩
  · exact ⟨none, rfl⟩

theorem member?_of_outside {d : Document} (modifier : Text) {line : Int}
    (h : line < 0 ∨ d.toSnapshot.lines.length ≤ line) :
    d.member? modifier line =
      .error (.naming .outsideDocument line (d.toSnapshot.lines.length - 1)) := by
  rw [member?]
  dsimp only
  rw [if_neg (by omega)]

private theorem outside_of_member? {d : Document} {modifier : Text} {line : Int} {fault : Fault}
    (h : d.member? modifier line = .error fault) :
    line < 0 ∨ d.toSnapshot.lines.length ≤ line := by
  by_contra hinside
  obtain ⟨start, rfl⟩ := Int.eq_ofNat_of_zero_le (show 0 ≤ line by omega)
  obtain ⟨found, hfound⟩ :=
    d.exists_member? modifier (show start < d.toSnapshot.lines.length by omega)
  rw [hfound] at h
  exact absurd h (by simp)

theorem span_of_member? {d : Document} {modifier : Text} {line : Int} {b : Block}
    (h : d.member? modifier line = .ok (some b)) :
    b.startLine = line ∧ line ≤ b.endLine ∧ b.endLine < d.toSnapshot.lines.length := by
  obtain ⟨start, o, rfl, -, -, ⟨n, rest, hopens⟩, hblock⟩ :=
    (member?_eq_some_iff d modifier line b).mp h
  obtain ⟨hlast, -, hfirst, -⟩ := Opening.toBlock_eq_ok_iff.mp hblock
  obtain ⟨l, column, t, -, ht, hposition, -⟩ := hopens.exists_place
  rw [List.getElem?_drop] at ht
  obtain ⟨last, hlast', hle, hlt⟩ :=
    Scan.exists_lastLine o.opener (List.getElem?_eq_some_iff.mp ht).1 column
  rw [hposition, ← Int.natCast_add, hlast', Except.ok.injEq] at hlast
  refine ⟨hfirst, ?_, ?_⟩ <;> omega

/-- A scan fails exactly for a line that the document does not have, and looks at nothing outside
the document. The fault is the position, as long as it can be written out. A member that is found
starts at the line asked for and ends inside the document. -/
theorem member?_inRange (d : Document) (modifier : Text) (line : Int) :
    ((∃ fault, d.member? modifier line = .error fault) ↔
      line < 0 ∨ d.toSnapshot.lines.length ≤ line) ∧
    (∀ fault, d.member? modifier line = .error fault →
      if line.natAbs < leastUnwritable ∧ d.toSnapshot.lines.length ≤ leastUnwritable then
        fault = .outsideDocument line (d.toSnapshot.lines.length - 1)
      else fault = .unwritable) ∧
    (∀ n, Scan.StaysInside d.toSnapshot.lines line.toNat n) ∧
    ∀ b, d.member? modifier line = .ok (some b) →
      b.startLine = line ∧ line ≤ b.endLine ∧ b.endLine ≤ d.toSnapshot.lines.length - 1 := by
  refine ⟨⟨fun ⟨fault, hfault⟩ ↦ ?_, fun houtside ↦ ⟨_, member?_of_outside modifier houtside⟩⟩,
    fun fault hfault ↦ ?_, Scan.staysInside _ _, fun b hb ↦ ?_⟩
  · exact outside_of_member? hfault
  · rw [member?_of_outside modifier (outside_of_member? hfault),
      Fault.naming_outsideDocument] at hfault
    rw [← Except.error.inj hfault]
    split <;> rfl
  · obtain ⟨hfirst, hle, hlt⟩ := span_of_member? hb
    exact ⟨hfirst, hle, by omega⟩

/-- A comment in front of a method that is broken over two lines and not closed. -/
def commentFirst : Document :=
  live "// public\nint Sum(int a,\n  int b) \x7b return a + b;".toList

theorem member?_inRange_commentFirst :
    commentFirst.member? "public".toList 0 =
      .ok (some ⟨.method, 0, 2, "int Sum(int a,int b)".toList⟩) ∧
    (∃ fault, commentFirst.member? "public".toList 3 = .error fault) ∧
    (0 : Int) ≤ 2 ∧ (2 : Int) ≤ commentFirst.toSnapshot.lines.length - 1 := by
  have h : commentFirst.member? "public".toList 0 =
      .ok (some ⟨.method, 0, 2, "int Sum(int a,int b)".toList⟩) := by decide +kernel
  have hlength : commentFirst.toSnapshot.lines.length = 3 := by decide +kernel
  refine ⟨h, ?_, ?_⟩
  · exact (member?_inRange commentFirst "public".toList 3).1.mpr (.inr (by rw [hlength]; decide))
  · exact ((member?_inRange commentFirst "public".toList 0).2.2.2 _ h).2

/-- A line that the document does not have is not reported as a position where its number is too
long to be written out. -/
theorem member?_unwritable :
    commentFirst.toSnapshot.lines.length ≤ leastUnwritable ∧
    commentFirst.member? "public".toList leastUnwritable = .error .unwritable ∧
    Fault.isPosition .unwritable = false := by
  have hlength : commentFirst.toSnapshot.lines.length = 3 := by decide +kernel
  have houtside : commentFirst.toSnapshot.lines.length ≤ leastUnwritable := by
    have hten := ten_le_leastUnwritable
    omega
  refine ⟨houtside, ?_, rfl⟩
  rw [member?_of_outside _ (.inr (Int.ofNat_le.mpr houtside)), Fault.naming_outsideDocument,
    if_neg fun h ↦ Nat.lt_irrefl _ h.1]

end Document

end CSharpOutline
