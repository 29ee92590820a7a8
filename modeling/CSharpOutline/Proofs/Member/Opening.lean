import CSharpOutline.Proofs.Member.Body
import CSharpOutline.Proofs.Member.Joined
import CSharpOutline.Proofs.Member.Reading
import Mathlib.Data.List.GetD

/-!
# Where the body of a member opens

The scan does two things: it reads lines until the declaration is decided, and it follows the body
to its end. `Scan.opening?` is the first half on its own; it does not look at the document as a
whole, only at the lines it reads. The block is then made from the opening and the document
(`Document.member?_eq_opening?`).

What the first half finds is described without the loop by `Opens`: the text joined so far is
undecided after each line but the last, no line but the first ends a member, and the text with the
last line shows a member, whose opener stands in the lines where the visible text in front of it
says. The loop finds exactly that (`Scan.opening?_eq_some_iff`).
-/

namespace CSharpOutline

open Text CSharpOutline.Joined

/-- Where and how the body of a member opens. -/
structure Opening where
  kind : Kind
  opener : Opener
  /-- The line and column of the opener. -/
  position : Int × Int
  /-- The joined text of the declaration in front of the opener. -/
  shown : Text
  deriving DecidableEq, Repr

/-- The block of a member whose body opens as given. -/
def Opening.toBlock (o : Opening) (lines : List Text) (start : Nat) : Except Fault Block :=
  (o.opener.lastLine lines o.position).map fun endLine ↦
    { kind := o.kind, startLine := start, endLine, text := collapse o.shown }

namespace Scan

/-- Where the body opens of the member whose declaration goes on with the given lines, the first of
them being line `number`. -/
def opening? (start : Nat) (joined : Joined) (number : Nat) : List Text → Option Opening
  | [] => none
  | line :: rest =>
    if start < number ∧ line.endsMember then none
    else
      let joined := joined.push number line
      match Verdict.ofText joined.text with
      | .ok .undecided => opening? start joined (number + 1) rest
      | .ok (.member kind offset opener) =>
        match joined.locate offset with
        | .ok position => some ⟨kind, opener, position, joined.text.take offset.toNat⟩
        | .error _ => none
      | _ => none

/-! ## The scan in two halves -/

private theorem exists_locate {j : Joined} (h : j.segments ≠ []) (i : Int) :
    ∃ position, j.locate i = .ok position := by
  obtain ⟨s, hs⟩ : ∃ s, j.segmentOf? i = some s := by
    rw [segmentOf?, List.getLast?_eq_some_getLast h]
    cases (j.segments.takeWhile fun s ↦ decide ((s.start : Int) ≤ i)).getLast? with
    | none => exact ⟨_, rfl⟩
    | some s => exact ⟨s, rfl⟩
  exact ⟨_, by rw [locate, hs]⟩

private theorem segments_push_ne_nil {j : Joined} (h : j.text ≠ [] → j.segments ≠ []) (number : Int)
    (line : Text) (hne : (j.push number line).text ≠ []) : (j.push number line).segments ≠ [] := by
  by_cases hpiece : piece line = []
  · rw [push_of_nil hpiece] at hne ⊢
    exact h hne
  · rw [segments_push hpiece]
    simp

theorem follow_eq (lines : List Text) (start : Nat) {joined : Joined}
    (h : joined.text ≠ [] → joined.segments ≠ []) (number : Nat) (rest : List Text) :
    follow lines start joined number rest =
      match opening? start joined number rest with
      | none => .ok none
      | some o => (o.toBlock lines start).map some := by
  induction rest generalizing joined number with
  | nil => rfl
  | cons line rest ih =>
    rw [follow, opening?]
    by_cases hend : start < number ∧ line.endsMember
    · rw [if_pos hend, if_pos hend]
    · rw [if_neg hend, if_neg hend]
      have hpush := segments_push_ne_nil h number line
      dsimp only
      generalize joined.push number line = j at hpush
      cases hverdict : Verdict.ofText j.text with
      | error fault =>
        rw [Verdict.ofText_eq] at hverdict
        exact absurd hverdict (by simp)
      | ok verdict =>
        cases verdict with
        | undecided => exact ih hpush (number + 1)
        | rejected => rfl
        | member kind offset opener =>
          have hne : j.text ≠ [] := by
            intro hnil
            rw [hnil, Verdict.ofText_eq, Reading.ofText_nil] at hverdict
            exact absurd hverdict (by simp [Reading.verdict])
          obtain ⟨position, hposition⟩ := exists_locate (hpush hne) offset
          simp only [toBlock, hposition, Opening.toBlock, bind, Except.bind]
          cases opener.lastLine lines position with
          | error fault => rfl
          | ok endLine => rfl

/-! ## What is found

Lines that leave a declaration open are the invariant of the loop: it starts with none of them, and
each further line is one more or ends the loop. -/

/-- The declaration that the lines start with is decided by line `n`, which shows a member whose
body opens with `rest`. -/
structure Decides (lines : List Text) (n : Nat) (kind : Kind) (opener : Opener) (rest : Text) :
    Prop where
  lt : n < lines.length
  /-- No line but the first ends a member. -/
  goesOn : ∀ i ≤ n, 0 < i → (lines.getD i []).endsMember = false
  undecided : ∀ i < n, Reading.ofText (join [] (lines.take (i + 1))) = .undecided
  member : Reading.ofText (join [] (lines.take (n + 1))) = .member kind opener rest

/-- The opening `o` of a declaration that is decided by line `n` of the lines, the first of which is
line `start`; the joined text goes on with `rest`. -/
structure Opens (start : Nat) (lines : List Text) (o : Opening) (n : Nat) (rest : Text) : Prop where
  decides : Decides lines n o.kind o.opener rest
  text : join [] (lines.take (n + 1)) = o.shown ++ rest
  place : ∃ (d : Char) (line column : Nat), rest.head? = some d ∧
    o.position = ((start : Int) + line, (column : Int)) ∧
    StandsAt (lines.take (n + 1)) (visible o.shown) d line column

private theorem Opens.eq {start : Nat} {lines : List Text} {o o' : Opening} {n : Nat} {rest : Text}
    (h : Opens start lines o n rest) (h' : Opens start lines o' n rest) : o = o' := by
  have hmember := h.decides.member.symm.trans h'.decides.member
  have htext := h.text.symm.trans h'.text
  obtain ⟨d, line, column, -, hposition, hplace⟩ := h.place
  obtain ⟨d', line', column', -, hposition', hplace'⟩ := h'.place
  obtain ⟨hkind, hopener, -⟩ := Reading.member.inj hmember
  have hshown : o.shown = o'.shown := List.append_cancel_right htext
  rw [← hshown] at hplace'
  obtain ⟨rfl, rfl⟩ := hplace.eq hplace'
  cases o
  cases o'
  simp_all

theorem exists_opens (start : Nat) {lines : List Text} {n : Nat} {kind : Kind} {opener : Opener}
    {rest : Text} (h : Decides lines n kind opener rest) :
    ∃ shown position, join [] (lines.take (n + 1)) = shown ++ rest ∧
      (pushAll {} start (lines.take (n + 1))).locate (shown.length : Int) = .ok position ∧
      Opens start lines ⟨kind, opener, position, shown⟩ n rest := by
  obtain ⟨⟨shown, htext⟩, -⟩ := Reading.ofText_suffix h.member
  obtain ⟨d, r, rfl, hd, -⟩ := Reading.exists_cons_of_member h.member
  obtain ⟨line, column, hlocate, hplace⟩ := locate_pushAll start htext.symm hd
  exact ⟨shown, _, htext.symm, hlocate, h, htext.symm, d, line, column, rfl, rfl, hplace⟩

/-- The opener stands on one of the lines read, behind the text that is shown. -/
theorem Opens.exists_place {start : Nat} {lines : List Text} {o : Opening} {n : Nat} {rest : Text}
    (h : Opens start lines o n rest) :
    ∃ (line column : Nat) (t : Text), line ≤ n ∧ lines[line]? = some t ∧
      o.position = ((start : Int) + line, (column : Int)) ∧
      t[column]? = o.opener.symbol.toList.head? ∧
      visible o.shown =
        visible ((lines.take line).flatMap withoutComment ++ t.take column) := by
  obtain ⟨d, line, column, hhead, hposition, hplace⟩ := h.place
  obtain ⟨d', r, rfl, -, hsymbol⟩ := Reading.exists_cons_of_member h.decides.member
  obtain rfl : d' = d := by simpa using hhead
  obtain ⟨read, u, v, w, unread, hlines, -, -, rfl, rfl, hshown⟩ := hplace
  have hread : lines = read ++ (u ++ d' :: v ++ w) :: (unread ++ lines.drop (n + 1)) := by
    conv => lhs; rw [← List.take_append_drop (n + 1) lines, hlines]
    simp
  have hle : read.length ≤ n := by
    have hlength := congrArg List.length hlines
    rw [List.length_take, List.length_append, List.length_cons] at hlength
    omega
  refine ⟨read.length, u.length, u ++ d' :: v ++ w, hle, ?_, hposition, ?_, ?_⟩
  · rw [hread]
    simp
  · rw [hsymbol]
    simp
  · rw [hshown, hread, List.take_left, visible_append, List.append_assoc, List.take_left]

/-- Lines that leave a declaration open: it is undecided after each of them, and none but the first
ends a member. -/
structure Pending (lines : List Text) : Prop where
  goesOn : ∀ i < lines.length, 0 < i → (lines.getD i []).endsMember = false
  undecided : ∀ i < lines.length, Reading.ofText (join [] (lines.take (i + 1))) = .undecided

private theorem pending_nil : Pending [] := ⟨by simp, by simp⟩

theorem take_append_cons (read : List Text) (line : Text) (rest : List Text) :
    (read ++ line :: rest).take (read.length + 1) = read ++ [line] := by
  have hassoc : read ++ line :: rest = (read ++ [line]) ++ rest := by simp
  rw [hassoc, List.take_left' (by simp)]

theorem getD_append_cons (read : List Text) (line : Text) (rest : List Text) :
    (read ++ line :: rest).getD read.length [] = line := by
  simp

namespace Pending

variable {read : List Text} {line : Text}

/-- Up to the line after them, pending lines go on and are undecided in any list they start. -/
theorem goesOn_append (h : Pending read) (hline : 0 < read.length → line.endsMember = false)
    (rest : List Text) {i : Nat} (hi : i ≤ read.length) (hpos : 0 < i) :
    ((read ++ line :: rest).getD i []).endsMember = false := by
  rcases Nat.eq_or_lt_of_le hi with rfl | hlt
  · rw [getD_append_cons]
    exact hline hpos
  · rw [List.getD_append _ _ _ _ hlt]
    exact h.goesOn i hlt hpos

theorem undecided_append (h : Pending read) (rest : List Text) {i : Nat} (hi : i < read.length) :
    Reading.ofText (join [] ((read ++ rest).take (i + 1))) = .undecided := by
  rw [List.take_append_of_le_length hi]
  exact h.undecided i hi

theorem concat (h : Pending read) (hline : 0 < read.length → line.endsMember = false)
    (hreading : Reading.ofText (join [] (read ++ [line])) = .undecided) :
    Pending (read ++ [line]) := by
  constructor
  · intro i hi hpos
    rw [List.length_append, List.length_singleton] at hi
    exact h.goesOn_append hline [] (by omega) hpos
  · intro i hi
    rw [List.length_append, List.length_singleton] at hi
    rcases Nat.eq_or_lt_of_le (Nat.lt_succ_iff.mp hi) with rfl | hlt
    · rw [take_append_cons]
      exact hreading
    · exact h.undecided_append _ hlt

private theorem decides (h : Pending read) (hline : 0 < read.length → line.endsMember = false)
    {kind : Kind} {opener : Opener} {t : Text}
    (hreading : Reading.ofText (join [] (read ++ [line])) = .member kind opener t)
    (rest : List Text) : Decides (read ++ line :: rest) read.length kind opener t where
  lt := by simp
  goesOn := fun _ hi hpos ↦ h.goesOn_append hline rest hi hpos
  undecided := fun _ hi ↦ h.undecided_append _ hi
  member := by rw [take_append_cons, hreading]

end Pending

/-- What a decision on a later line, or on this one, says about this line. -/
theorem Decides.reading {read : List Text} {line : Text} {rest : List Text} {n : Nat} {kind : Kind}
    {opener : Opener} {t : Text} (h : Decides (read ++ line :: rest) n kind opener t)
    (hle : read.length ≤ n) :
    (n = read.length ∧ Reading.ofText (join [] (read ++ [line])) = .member kind opener t) ∨
      (read.length < n ∧ Reading.ofText (join [] (read ++ [line])) = .undecided) := by
  rw [← take_append_cons read line rest]
  rcases Nat.eq_or_lt_of_le hle with rfl | hlt
  · exact .inl ⟨rfl, h.member⟩
  · exact .inr ⟨hlt, h.undecided _ hlt⟩

private theorem opening?_pushAll_eq_some_iff (start : Nat) {read : List Text} (hread : Pending read)
    (rest : List Text) (o : Opening) :
    opening? start (pushAll {} start read) (start + read.length) rest = some o ↔
      ∃ n t, read.length ≤ n ∧ Opens start (read ++ rest) o n t := by
  induction rest generalizing read with
  | nil =>
    constructor
    · intro h
      exact absurd h (by simp [opening?])
    · rintro ⟨n, t, hle, hopens⟩
      have hlt := hopens.decides.lt
      rw [List.append_nil] at hlt
      omega
  | cons line rest ih =>
    have hjoined : (pushAll {} start read).push (start + read.length : Nat) line =
        pushAll {} start (read ++ [line]) := (pushAll_concat ..).symm
    rw [opening?]
    by_cases hend : start < start + read.length ∧ line.endsMember
    · -- the line ends the declaration, so no later line decides it
      rw [if_pos hend]
      refine ⟨fun h ↦ absurd h (by simp), ?_⟩
      rintro ⟨n, t, hle, hopens⟩
      have hfalse := hopens.decides.goesOn read.length hle (by omega)
      rw [getD_append_cons, hend.2] at hfalse
      exact absurd hfalse (by decide)
    · have hline : 0 < read.length → line.endsMember = false := by
        intro hpos
        rw [← Bool.not_eq_true]
        exact fun hline ↦ hend ⟨by omega, hline⟩
      rw [if_neg hend]
      simp only [hjoined, Verdict.ofText_eq, text_pushAll]
      cases hreading : Reading.ofText (join [] (read ++ [line])) with
      | undecided =>
        -- the line joins the pending ones
        have hnext := ih (hread.concat hline hreading)
        rw [List.length_append, List.length_singleton, List.append_assoc,
          List.singleton_append] at hnext
        refine hnext.trans ⟨?_, ?_⟩
        · rintro ⟨n, t, hle, hopens⟩
          exact ⟨n, t, by omega, hopens⟩
        · rintro ⟨n, t, hle, hopens⟩
          rcases hopens.decides.reading hle with ⟨-, hmember⟩ | ⟨hlt, -⟩
          · exact absurd (hreading.symm.trans hmember) (by simp)
          · exact ⟨n, t, hlt, hopens⟩
      | rejected =>
        refine ⟨fun h ↦ absurd h (by simp [Reading.verdict]), ?_⟩
        rintro ⟨n, t, hle, hopens⟩
        rcases hopens.decides.reading hle with ⟨-, hmember⟩ | ⟨-, hundecided⟩
        · exact absurd (hreading.symm.trans hmember) (by simp)
        · exact absurd (hreading.symm.trans hundecided) (by simp)
      | member kind opener t =>
        obtain ⟨shown, position, htext, hlocate, hopens⟩ :=
          exists_opens start (hread.decides hline hreading rest)
        rw [take_append_cons] at htext hlocate
        have hoffset : ((join [] (read ++ [line])).length : Int) - t.length = shown.length := by
          rw [htext, List.length_append]
          omega
        simp only [Reading.verdict, hoffset, hlocate, Int.toNat_natCast, Option.some.injEq]
        rw [htext, List.take_left]
        -- the first line that shows a member is the only one that decides
        constructor
        · rintro rfl
          exact ⟨read.length, t, Nat.le_refl _, hopens⟩
        · rintro ⟨n, t', hle, hopens'⟩
          rcases hopens'.decides.reading hle with ⟨rfl, hmember⟩ | ⟨-, hundecided⟩
          · obtain ⟨-, -, rfl⟩ := Reading.member.inj (hreading.symm.trans hmember)
            exact hopens.eq hopens'
          · exact absurd (hreading.symm.trans hundecided) (by simp)

/-- The loop finds the opening, and nothing else. -/
theorem opening?_eq_some_iff (start : Nat) (lines : List Text) (o : Opening) :
    opening? start {} start lines = some o ↔ ∃ n t, Opens start lines o n t := by
  have h := opening?_pushAll_eq_some_iff start pending_nil lines o
  simpa [pushAll] using h

end Scan

/-! ## Members of a document -/

namespace Document

def opening? (d : Document) (modifier : Text) (line : Int) : Option Opening :=
  let lines := d.toSnapshot.lines
  if 0 ≤ line ∧ line < lines.length ∧ (lines.getD line.toNat []).carries modifier then
    Scan.opening? line.toNat {} line.toNat (lines.drop line.toNat)
  else none

theorem member?_eq_opening? (d : Document) (modifier : Text) (line : Int) (b : Block) :
    d.member? modifier line = .ok (some b) ↔
      ∃ o, d.opening? modifier line = some o ∧
        o.toBlock d.toSnapshot.lines line.toNat = .ok b := by
  rw [member?, opening?]
  dsimp only
  by_cases hrange : 0 ≤ line ∧ line < d.toSnapshot.lines.length
  · rw [if_pos hrange]
    by_cases hcarries : (d.toSnapshot.lines.getD line.toNat []).carries modifier = true
    · rw [if_pos hcarries, if_pos ⟨hrange.1, hrange.2, hcarries⟩, Scan.follow_eq _ _ (by simp)]
      cases Scan.opening? line.toNat {} line.toNat (d.toSnapshot.lines.drop line.toNat) with
      | none => simp
      | some o =>
        cases hblock : o.toBlock d.toSnapshot.lines line.toNat with
        | error fault => simp [Except.map, hblock]
        | ok block => simp [Except.map, hblock]
    · rw [if_neg hcarries, if_neg fun h ↦ hcarries h.2.2]
      simp
  · rw [if_neg hrange, if_neg fun h ↦ hrange ⟨h.1, h.2.1⟩]
    simp

theorem opening?_eq_some_iff (d : Document) (modifier : Text) (line : Int) (o : Opening) :
    d.opening? modifier line = some o ↔
      ∃ start : Nat, line = start ∧ start < d.toSnapshot.lines.length ∧
        (d.toSnapshot.lines.getD start []).carries modifier = true ∧
        ∃ n rest, Scan.Opens start (d.toSnapshot.lines.drop start) o n rest := by
  rw [opening?]
  split
  · next h =>
    obtain ⟨hpos, hlt, hcarries⟩ := h
    obtain ⟨start, rfl⟩ := Int.eq_ofNat_of_zero_le hpos
    rw [Scan.opening?_eq_some_iff]
    simp only [Int.toNat_natCast] at hcarries ⊢
    constructor
    · intro hopens
      exact ⟨start, rfl, by omega, hcarries, hopens⟩
    · rintro ⟨start', heq, -, -, hopens⟩
      obtain rfl : start = start' := by omega
      exact hopens
  · next h =>
    refine ⟨fun hnone ↦ absurd hnone (by simp), ?_⟩
    rintro ⟨start, rfl, hlt, hcarries, -⟩
    exact absurd ⟨by omega, by omega, by rwa [Int.toNat_natCast]⟩ h

/-- A member is found at a line that carries the modifier and from which on a body opens. -/
theorem member?_eq_some_iff (d : Document) (modifier : Text) (line : Int) (b : Block) :
    d.member? modifier line = .ok (some b) ↔
      ∃ (start : Nat) (o : Opening), line = start ∧ start < d.toSnapshot.lines.length ∧
        (d.toSnapshot.lines.getD start []).carries modifier = true ∧
        (∃ n rest, Scan.Opens start (d.toSnapshot.lines.drop start) o n rest) ∧
        o.toBlock d.toSnapshot.lines start = .ok b := by
  rw [member?_eq_opening?]
  constructor
  · rintro ⟨o, ho, hblock⟩
    obtain ⟨start, rfl, hstart, hcarries, hopens⟩ := (opening?_eq_some_iff d modifier line o).mp ho
    exact ⟨start, o, rfl, hstart, hcarries, hopens, hblock⟩
  · rintro ⟨start, o, rfl, hstart, hcarries, hopens, hblock⟩
    exact ⟨o, (opening?_eq_some_iff d modifier start o).mpr ⟨start, rfl, hstart, hcarries, hopens⟩,
      hblock⟩

end Document

theorem Opening.toBlock_eq_ok_iff {o : Opening} {lines : List Text} {start : Nat} {b : Block} :
    o.toBlock lines start = .ok b ↔
      o.opener.lastLine lines o.position = .ok b.endLine ∧ b.kind = o.kind ∧
        b.startLine = start ∧ b.text = collapse o.shown := by
  rw [toBlock]
  cases o.opener.lastLine lines o.position with
  | error fault => simp [Except.map]
  | ok endLine =>
    simp only [Except.map, Except.ok.injEq]
    constructor
    · rintro rfl
      exact ⟨rfl, rfl, rfl, rfl⟩
    · rintro ⟨rfl, hkind, hstart, htext⟩
      cases b
      simp_all

theorem Opening.toBlock_natCast {o : Opening} {lines : List Text} {start line column : Nat}
    (hposition : o.position = ((start : Int) + line, (column : Int)))
    (hline : start + line < lines.length) :
    o.toBlock lines start = .ok
      { kind := o.kind
        startLine := start
        endLine := (o.opener.bodyEnd? (linesAhead lines (start + line) column)).elim
          (lines.length - 1 : Int) ((start + line : Nat) + ·)
        text := collapse o.shown } := by
  have hlast := o.opener.lastLine_natCast hline column
  rw [toBlock, hposition, ← Int.natCast_add, hlast]
  rfl

end CSharpOutline
