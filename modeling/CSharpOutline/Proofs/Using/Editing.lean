import CSharpOutline.Proofs.Document.RoundTrip
import CSharpOutline.Proofs.Using.Block

/-!
# Runs of edits of the using block

An edit replaces the directives of a text and keeps what is around them, so a run of edits never
moves the block: its blank lines and its rest stay those of the first text (`UsingEdit.Keeps.run`).
What a replacement writes depends on nothing else, and hence the last edit of a run decides
(`UsingEdit.run_concat`).

An edit without an ending of its own takes the ending of the text. That ending is told by the first
line break, which stands either in front of the block and is kept, or behind the first directive,
where the edit itself writes it (`UsingEdit.ending_apply`).
-/

namespace CSharpOutline

/-- A replacement of the using directives of a text. Without an ending of its own it takes the one
of the text. -/
structure UsingEdit where
  statements : List Text
  ending : Option LineEnding := none

namespace UsingEdit

open Text

/-- An edit puts at least one line there, and nothing but directives. -/
structure IsProper (e : UsingEdit) : Prop where
  ne_nil : e.statements ≠ []
  isUsingLine : ∀ s ∈ e.statements, s.isUsingLine = true

instance : DecidablePred IsProper := fun e ↦
  decidable_of_iff (e.statements ≠ [] ∧ ∀ s ∈ e.statements, s.isUsingLine = true)
    ⟨fun h ↦ ⟨h.1, h.2⟩, fun h ↦ ⟨h.ne_nil, h.isUsingLine⟩⟩

/-- The ending that an edit writes in a text. -/
def endingIn (e : UsingEdit) (t : Text) : LineEnding := e.ending.getD (Snapshot.ofText t).ending

def apply (t : Text) (e : UsingEdit) : Text :=
  t.replaceUsings e.statements ((Snapshot.ofText t).ending.orGiven (e.ending.map LineEnding.text))

/-- The text after a run of edits, each of which is made to the text that the one before left. -/
def run (t : Text) (edits : List UsingEdit) : Text := edits.foldl apply t

theorem apply_eq (t : Text) (e : UsingEdit) :
    apply t e = t.replaceUsings e.statements (e.endingIn t).text := by
  obtain ⟨statements, ending⟩ := e
  cases ending with
  | none => rfl
  | some given => cases given <;> rfl

private theorem run_append (t : Text) (edits more : List UsingEdit) :
    run t (edits ++ more) = run (run t edits) more := by
  rw [run, run, run, List.foldl_append]

/-! ## What is around the block -/

/-- The block of `t'` stands where that of `t` does, between the same texts. -/
structure Keeps (t t' : Text) : Prop where
  lead : (UsingBlock.ofText t').lead = (UsingBlock.ofText t).lead
  rest : (UsingBlock.ofText t').rest = (UsingBlock.ofText t).rest

theorem Keeps.apply {t t' : Text} (h : Keeps t t') {e : UsingEdit} (he : e.IsProper) :
    Keeps t (e.apply t') := by
  have hblock := UsingBlock.ofText_replaceUsings t' he.ne_nil he.isUsingLine (e.endingIn t')
  rw [← apply_eq] at hblock
  exact ⟨by rw [hblock, h.lead], by rw [hblock, h.rest]⟩

theorem Keeps.run {t t' : Text} (h : Keeps t t') {edits : List UsingEdit}
    (hedits : ∀ e ∈ edits, e.IsProper) : Keeps t (run t' edits) := by
  induction edits generalizing t' with
  | nil => exact h
  | cons e edits ih =>
    rw [List.forall_mem_cons] at hedits
    exact ih (h.apply hedits.1) hedits.2

private theorem Keeps.replaceUsings_eq {t t' : Text} (h : Keeps t t') (statements : List Text)
    (ending : Text) : t'.replaceUsings statements ending = t.replaceUsings statements ending := by
  rw [replaceUsings, replaceUsings, UsingBlock.replace, UsingBlock.replace, h.lead, h.rest]

/-! ## The ending that is detected

The first line break of a text stands in a blank line above the block, which is kept, or behind the
first directive, which has the ending it was written with. Either way the ending of the text is
found again. -/

theorem replace_ofText (t : Text) :
    (UsingBlock.ofText t).replace (UsingBlock.ofText t).statements.flatten = t := by
  rw [UsingBlock.ofText]
  simp only [drop_length_takeWhile]
  split
  · rw [UsingBlock.replace, List.flatten_nil, List.nil_append, List.nil_append]
  · rw [UsingBlock.replace, drop_length_takeWhile, ← List.flatten_append, ← List.flatten_append,
      List.append_assoc, List.takeWhile_append_dropWhile, List.takeWhile_append_dropWhile,
      flatten_keptLines]

/-- A full line at the start of a text has the first line break. -/
theorem ending_ofText_of_isFullLine {line : Text} (h : IsFullLine line) (rest rest' : Text) :
    (Snapshot.ofText (line ++ rest)).ending = (Snapshot.ofText (line ++ rest')).ending := by
  obtain ⟨x, hx, rfl⟩ := h
  rw [List.append_assoc, List.append_assoc, List.singleton_append, List.singleton_append,
    Snapshot.ending_ofText_append hx, Snapshot.ending_ofText_append hx]

/-- A directive at the start of a text shows the ending that it was written with. -/
theorem ending_ofText_of_isUsingLine {s : Text} (h : s.isUsingLine = true) (e : LineEnding)
    (rest : Text) : (Snapshot.ofText (withoutEnding s ++ e.text ++ rest)).ending = e := by
  have hends := (isUsingLine_withoutEnding h e).1
  have hfeed : '\n' ∉ withoutEnding s := fun hmem ↦ absurd (hends _ hmem) (by decide)
  have hreturn : Snapshot.hasReturn (withoutEnding s) = false := by
    rw [← Bool.not_eq_true, Snapshot.hasReturn, beq_iff_eq]
    intro hlast
    exact absurd (hends _ (List.mem_of_getLast? hlast)) (by decide)
  have htext : withoutEnding s ++ e.text ++ rest =
      (withoutEnding s ++ e.mark) ++ '\n' :: rest := by
    rw [e.text_eq]
    simp
  rw [htext, Snapshot.ending_ofText_mark e hfeed hreturn]

theorem ending_apply {e : UsingEdit} (he : e.IsProper) (hnone : e.ending = none) (t : Text) :
    (Snapshot.ofText (e.apply t)).ending = (Snapshot.ofText t).ending := by
  have hending : e.endingIn t = (Snapshot.ofText t).ending := by
    rw [endingIn, hnone, Option.getD_none]
  obtain ⟨lead, hlead, hframes⟩ := UsingBlock.exists_frames t
  rw [apply_eq, hending]
  cases lead with
  | nil =>
    -- the first directive comes first, with the ending that was detected
    obtain ⟨s, ss, hss⟩ := List.exists_cons_of_ne_nil he.ne_nil
    have hs : s.isUsingLine = true := he.isUsingLine s (by rw [hss]; exact List.mem_cons_self)
    rw [replaceUsings, UsingBlock.replace, hlead, hss, List.flatMap_cons, List.flatten_nil,
      List.nil_append, List.append_assoc]
    exact ending_ofText_of_isUsingLine hs _ _
  | cons line lead =>
    have hline := hframes.isFullLine line List.mem_cons_self
    have ht := replace_ofText t
    rw [UsingBlock.replace, hlead, List.flatten_cons, List.append_assoc, List.append_assoc] at ht
    rw [replaceUsings, UsingBlock.replace, hlead, List.flatten_cons, List.append_assoc,
      List.append_assoc, ending_ofText_of_isFullLine hline, ht]

private theorem ending_run {edits : List UsingEdit} (hedits : ∀ e ∈ edits, e.IsProper)
    (hnone : ∀ e ∈ edits, e.ending = none) (t : Text) :
    (Snapshot.ofText (run t edits)).ending = (Snapshot.ofText t).ending := by
  induction edits generalizing t with
  | nil => rfl
  | cons e edits ih =>
    rw [List.forall_mem_cons] at hedits hnone
    exact (ih hedits.2 hnone.2 (e.apply t)).trans (ending_apply hedits.1 hnone.1 t)

/-! ## Runs -/

/-- The last edit of a run decides: it leaves what it would have made of the first text, with the
ending that it took. In a run whose edits take their endings from the text, that is the ending of
the first text throughout. -/
theorem run_concat (t : Text) {earlier : List UsingEdit} {last : UsingEdit}
    (h : ∀ e ∈ earlier ++ [last], e.IsProper) :
    run t (earlier ++ [last]) =
      t.replaceUsings last.statements (last.endingIn (run t earlier)).text ∧
    ((∀ e ∈ earlier ++ [last], e.ending = none) → ∀ n,
      (Snapshot.ofText (run t ((earlier ++ [last]).take n))).ending =
        (Snapshot.ofText t).ending) := by
  constructor
  · have hkeeps : Keeps t (run t earlier) :=
      Keeps.run ⟨rfl, rfl⟩ fun e he ↦ h e (List.mem_append_left _ he)
    rw [run_append]
    exact (apply_eq (run t earlier) last).trans (hkeeps.replaceUsings_eq _ _)
  · intro hnone n
    refine ending_run (fun e he ↦ h e ?_) (fun e he ↦ hnone e ?_) t
    · exact List.mem_of_mem_take he
    · exact List.mem_of_mem_take he

/-- A file whose only carriage return stands behind its directive. -/
def returnBehindUsing : Text := "using A;\r\n\nclass C\n".toList

/-- An edit that leaves the ending to the text. -/
def putB : UsingEdit := { statements := ["using B;\n".toList] }

/-- Another such edit, with two directives. -/
def putCAndD : UsingEdit := { statements := ["using C;".toList, "global using D;\r\n".toList] }

theorem run_concat_returnBehindUsing :
    (∀ e ∈ [putB] ++ [putCAndD], e.IsProper) ∧ (∀ e ∈ [putB] ++ [putCAndD], e.ending = none) ∧
      (Snapshot.ofText (run returnBehindUsing [putB])).ending = .crlf ∧
      run returnBehindUsing [putB, putCAndD] =
        "using C;\r\nglobal using D;\r\n\nclass C\n".toList := by
  have hproper : ∀ e ∈ [putB] ++ [putCAndD], e.IsProper := by decide
  have hnone : ∀ e ∈ [putB] ++ [putCAndD], e.ending = none := by
    simp [putB, putCAndD]
  obtain ⟨hrun, hending⟩ := run_concat returnBehindUsing hproper
  have hcrlf : (Snapshot.ofText (run returnBehindUsing [putB])).ending = .crlf :=
    (hending hnone 1).trans (by decide)
  refine ⟨hproper, hnone, hcrlf, hrun.trans ?_⟩
  have hlast : putCAndD.endingIn (run returnBehindUsing [putB]) = .crlf := hcrlf
  rw [hlast]
  decide +kernel

end UsingEdit

end CSharpOutline
