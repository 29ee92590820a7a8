import CSharpOutline.Document.Snapshot

/-!
# Cutting a text into lines and joining them again

A snapshot takes its ending from the first line break of a text and drops one carriage return from
every line. So joining gives the text back exactly if each line break is like the first one and no
return stands at the end, and lines that hold no line feed and end in no return are found again
whatever ending they are joined with (`Snapshot.ofText_text_inverse`).

Texts are taken apart at their first line feed (`Text.line_induction`). There the rest of the text
is cut on its own, and the ending of the whole text is told by what stands in front
(`Snapshot.ending_ofText_append`).

The ending is detected in the text of a document too, be it the one that a host holds or the one
that the lines of a snapshot are joined to. Joining may change every line break but the first, so
all of these agree (`Document.lineEnding_ofText`).
-/

namespace CSharpOutline

namespace Text

/-! ## Lines and line feeds

The first line is cut off at the first line feed, in one way only, and the rest is cut on its
own. -/

theorem lines_eq_splitOn (t : Text) : t.lines = t.splitOn '\n' := by
  induction t with
  | nil => rfl
  | cons c t ih =>
    rw [lines, List.splitOn_cons_eq_if_modifyHead, ih]
    simp only [beq_iff_eq]

theorem lines_of_not_mem {t : Text} (h : '\n' ∉ t) : t.lines = [t] := by
  rw [lines_eq_splitOn, List.splitOn_eq_singleton h]

/-- The first line is cut off, and the rest is cut on its own. -/
theorem lines_append_newline {line : Text} (h : '\n' ∉ line) (rest : Text) :
    lines (line ++ '\n' :: rest) = line :: rest.lines := by
  rw [lines_eq_splitOn, List.splitOn_append_cons_self_of_not_mem h, lines_eq_splitOn]

/-- What holds of a single line, and of a text if it holds of what follows the first line, holds of
all texts. -/
@[elab_as_elim]
theorem line_induction {motive : Text → Prop}
    (last : ∀ line, '\n' ∉ line → motive line)
    (more : ∀ line rest, '\n' ∉ line → motive rest → motive (line ++ '\n' :: rest)) (t : Text) :
    motive t := by
  induction hn : t.length using Nat.strongRecOn generalizing t with
  | ind n ih =>
    subst hn
    by_cases hmem : '\n' ∈ t
    · obtain ⟨line, rest, rfl, hline⟩ := List.eq_append_cons_of_mem hmem
      refine more line rest hline (ih rest.length ?_ rest rfl)
      simp only [List.length_append, List.length_cons]
      omega
    · exact last t hmem

theorem append_newline_inj {line line' rest rest' : Text} (h : '\n' ∉ line) (h' : '\n' ∉ line') :
    line ++ '\n' :: rest = line' ++ '\n' :: rest' ↔ line = line' ∧ rest = rest' := by
  constructor
  · intro heq
    have hlines := congrArg lines heq
    rw [lines_append_newline h, lines_append_newline h', List.cons.injEq] at hlines
    rw [hlines.1] at heq
    exact ⟨hlines.1, (List.cons.inj (List.append_cancel_left heq)).2⟩
  · rintro ⟨rfl, rfl⟩
    rfl

end Text

/-! ## Returns -/

namespace LineEnding

/-- What a line ending has in front of its line feed. -/
def mark : LineEnding → Text
  | .lf => []
  | .crlf => ['\r']

theorem text_eq (e : LineEnding) : e.text = e.mark ++ ['\n'] := by
  cases e <;> rfl

theorem not_mem_append_mark (e : LineEnding) {line : Text} (h : '\n' ∉ line) :
    '\n' ∉ line ++ e.mark := by
  have hmark : '\n' ∉ e.mark := by cases e <;> decide
  rw [List.mem_append, not_or]
  exact ⟨h, hmark⟩

theorem intercalate_cons (e : LineEnding) (line : Text) {rest : List Text} (h : rest ≠ []) :
    e.text.intercalate (line :: rest) =
      (line ++ e.mark) ++ '\n' :: e.text.intercalate rest := by
  have htext : line ++ e.text = line ++ e.mark ++ ['\n'] := by
    rw [e.text_eq, List.append_assoc]
  rw [List.intercalate_cons_of_ne_nil h, htext, List.append_assoc, List.singleton_append]

end LineEnding

namespace Snapshot

theorem hasReturn_append_newline (front rest : Text) :
    hasReturn (front ++ '\n' :: rest) = hasReturn rest := by
  rw [hasReturn, hasReturn, List.getLast?_append]
  cases rest with
  | nil => rfl
  | cons c rest => rw [List.getLast?_cons_cons, List.getLast?_cons, Option.some_or]

theorem dropReturn_of_hasReturn {line : Text} (h : hasReturn line = true) :
    dropReturn line ++ ['\r'] = line := by
  rw [dropReturn, if_pos h]
  rw [hasReturn, beq_iff_eq] at h
  obtain ⟨front, rfl⟩ := List.getLast?_eq_some_iff.mp h
  rw [List.dropLast_concat]

theorem dropReturn_of_not_hasReturn {line : Text} (h : hasReturn line = false) :
    dropReturn line = line := by
  rw [dropReturn, if_neg (by simp [h])]

theorem dropReturn_eq_self_iff {line : Text} : dropReturn line = line ↔ hasReturn line = false := by
  refine ⟨fun h ↦ ?_, dropReturn_of_not_hasReturn⟩
  rw [← Bool.not_eq_true]
  intro hreturn
  have hline := dropReturn_of_hasReturn hreturn
  rw [h] at hline
  exact absurd (congrArg List.length hline) (by simp)

theorem not_mem_dropReturn {line : Text} (h : '\n' ∉ line) : '\n' ∉ dropReturn line := by
  rw [dropReturn]
  split
  · exact fun hmem ↦ h ((List.dropLast_sublist line).subset hmem)
  · exact h

/-- A line is what is left of it and the mark of an ending if the two agree about the return. -/
theorem dropReturn_append_mark_eq_iff {line : Text} {e : LineEnding} :
    dropReturn line ++ e.mark = line ↔ hasReturn line = decide (e = .crlf) := by
  cases e with
  | lf => simpa [LineEnding.mark] using dropReturn_eq_self_iff
  | crlf =>
    refine ⟨fun h ↦ ?_, dropReturn_of_hasReturn⟩
    rw [← h, hasReturn, LineEnding.mark, List.getLast?_concat]
    rfl

section

variable {line : Text} (h : hasReturn line = false)

include h

theorem hasReturn_append_mark (e : LineEnding) :
    hasReturn (line ++ e.mark) = decide (e = .crlf) := by
  cases e with
  | lf => simpa [LineEnding.mark] using h
  | crlf =>
    rw [hasReturn, LineEnding.mark, List.getLast?_concat]
    rfl

private theorem dropReturn_append_mark (e : LineEnding) : dropReturn (line ++ e.mark) = line := by
  cases e with
  | lf => simpa [LineEnding.mark] using dropReturn_of_not_hasReturn h
  | crlf =>
    have hreturn : dropReturn (line ++ ['\r']) ++ ['\r'] = line ++ ['\r'] :=
      dropReturn_of_hasReturn (hasReturn_append_mark h .crlf)
    exact List.append_cancel_right hreturn

end

/-! ## The first line break

What stands in front of the first line feed tells the ending, and so does the line that was joined
with it. -/

/-- What stands in front of the first line feed tells the ending. -/
theorem ending_ofText_append {line : Text} (h : '\n' ∉ line) (rest : Text) :
    (ofText (line ++ '\n' :: rest)).ending = if hasReturn line then .crlf else .lf := by
  obtain ⟨next, more, hrest⟩ := List.exists_cons_of_ne_nil (Text.lines_ne_nil rest)
  rw [ofText]
  dsimp only
  rw [Text.lines_append_newline h, hrest, endingOf]

theorem ending_ofText_mark (e : LineEnding) {line : Text} (hfeed : '\n' ∉ line)
    (hreturn : hasReturn line = false) (rest : Text) :
    (ofText (line ++ e.mark ++ '\n' :: rest)).ending = e := by
  rw [ending_ofText_append (e.not_mem_append_mark hfeed), hasReturn_append_mark hreturn]
  cases e <;> rfl

end Snapshot

/-! ## From texts to lines and back -/

/-- Whether a carriage return stands right in front of a line feed is the same at every line feed of
the text. -/
def Text.BreaksAlike (t : Text) (withReturn : Bool) : Prop :=
  ∀ before after, t = before ++ '\n' :: after → Snapshot.hasReturn before = withReturn

namespace Snapshot

open Text

theorem breaksAlike_of_not_mem {t : Text} (h : '\n' ∉ t) (withReturn : Bool) :
    t.BreaksAlike withReturn := by
  rintro before after rfl
  exact absurd (by simp) h

theorem breaksAlike_append_newline {line : Text} (h : '\n' ∉ line) (rest : Text)
    (withReturn : Bool) :
    BreaksAlike (line ++ '\n' :: rest) withReturn ↔
      hasReturn line = withReturn ∧ rest.BreaksAlike withReturn := by
  constructor
  · intro hbreaks
    refine ⟨hbreaks line rest rfl, ?_⟩
    rintro before after rfl
    rw [← hbreaks (line ++ '\n' :: before) after (by simp), hasReturn_append_newline]
  · rintro ⟨hline, hrest⟩ before after heq
    by_cases hbefore : '\n' ∈ before
    · -- a line feed behind the first one is a line feed of the rest
      obtain ⟨first, more, rfl, hfirst⟩ := List.eq_append_cons_of_mem hbefore
      rw [List.append_assoc, List.cons_append, append_newline_inj h hfirst] at heq
      rw [hasReturn_append_newline]
      exact hrest more after heq.2
    · rw [append_newline_inj h hbefore] at heq
      rw [← heq.1]
      exact hline

/-- Lines that are stripped of their returns and joined with an ending make up the text again if all
line breaks are that ending, and no return is left at the end. -/
theorem intercalate_lines_eq_iff (e : LineEnding) (t : Text) :
    e.text.intercalate (t.lines.map dropReturn) = t ↔
      hasReturn t = false ∧ t.BreaksAlike (decide (e = .crlf)) := by
  induction t using line_induction with
  | last line hline =>
    rw [lines_of_not_mem hline, List.map_singleton, List.intercalate_singleton,
      dropReturn_eq_self_iff]
    exact ⟨fun h ↦ ⟨h, breaksAlike_of_not_mem hline _⟩, And.left⟩
  | more line rest hline ih =>
    have hmark := e.not_mem_append_mark (not_mem_dropReturn hline)
    have hne : rest.lines.map dropReturn ≠ [] := by simpa using lines_ne_nil rest
    rw [lines_append_newline hline, List.map_cons, e.intercalate_cons _ hne,
      append_newline_inj hmark hline, ih, dropReturn_append_mark_eq_iff, hasReturn_append_newline,
      breaksAlike_append_newline hline]
    exact and_left_comm

private theorem breaksAlike_ending {t : Text} {withReturn : Bool} (h : t.BreaksAlike withReturn) :
    t.BreaksAlike (decide ((ofText t).ending = .crlf)) := by
  cases t using line_induction with
  | last line hline => exact breaksAlike_of_not_mem hline _
  | more line rest hline _ =>
    obtain rfl := ((breaksAlike_append_newline hline rest withReturn).mp h).1
    rw [ending_ofText_append hline]
    cases hreturn : hasReturn line with
    | true => rwa [hreturn] at h
    | false => rwa [hreturn] at h

private theorem lines_intercalate (e : LineEnding) {ls : List Text} (hne : ls ≠ [])
    (hfeed : ∀ line ∈ ls, '\n' ∉ line) (hreturn : ∀ line ∈ ls, hasReturn line = false) :
    (ofText (e.text.intercalate ls)).lines = ls := by
  change (Text.lines (e.text.intercalate ls)).map dropReturn = ls
  induction ls with
  | nil => exact absurd rfl hne
  | cons line rest ih =>
    rw [List.forall_mem_cons] at hfeed hreturn
    by_cases hrest : rest = []
    · rw [hrest, List.intercalate_singleton, lines_of_not_mem hfeed.1, List.map_singleton,
        dropReturn_of_not_hasReturn hreturn.1]
    · rw [e.intercalate_cons line hrest, lines_append_newline (e.not_mem_append_mark hfeed.1),
        List.map_cons, dropReturn_append_mark hreturn.1, ih hrest hfeed.2 hreturn.2]

private theorem ending_intercalate (e : LineEnding) {line : Text} {rest : List Text}
    (hrest : rest ≠ []) (hfeed : '\n' ∉ line) (hreturn : hasReturn line = false) :
    (ofText (e.text.intercalate (line :: rest))).ending = e := by
  rw [e.intercalate_cons line hrest, ending_ofText_mark e hfeed hreturn]

/-- Cutting and joining are inverse to each other: on the texts that do not end in a return and
whose line breaks are all alike, and on these only; and on lines that hold no line feed and end in
no return. -/
theorem ofText_text_inverse :
    (∀ raw : Text, (ofText raw).text = raw ↔
      raw.getLast? ≠ some '\r' ∧ (raw.BreaksAlike true ∨ raw.BreaksAlike false)) ∧
    ∀ (ls : List Text) (e : LineEnding), ls ≠ [] → (∀ line ∈ ls, '\n' ∉ line) →
      (∀ line ∈ ls, line.getLast? ≠ some '\r') →
      (ofText (e.text.intercalate ls)).lines = ls ∧
        (2 ≤ ls.length → (ofText (e.text.intercalate ls)).ending = e) := by
  have hlast : ∀ line : Text, line.getLast? ≠ some '\r' ↔ hasReturn line = false := by
    simp [hasReturn]
  simp only [hlast]
  refine ⟨fun raw ↦ ?_, fun ls e hne hfeed hreturn ↦ ⟨lines_intercalate e hne hfeed hreturn, ?_⟩⟩
  · rw [text]
    change (ofText raw).ending.text.intercalate (raw.lines.map dropReturn) = raw ↔ _
    rw [intercalate_lines_eq_iff]
    refine and_congr_right fun _ ↦ ⟨fun h ↦ ?_, ?_⟩
    · cases hending : decide ((ofText raw).ending = .crlf) with
      | true => exact .inl (hending ▸ h)
      | false => exact .inr (hending ▸ h)
    · rintro (h | h)
      · exact breaksAlike_ending h
      · exact breaksAlike_ending h
  · intro hlength
    obtain ⟨line, rest, rfl⟩ := List.exists_cons_of_ne_nil hne
    have hrest : rest ≠ [] := by
      rintro rfl
      simp at hlength
    rw [List.forall_mem_cons] at hfeed hreturn
    exact ending_intercalate e hrest hfeed.1 hreturn.1

/-- Two lines, the first of them empty and the second with a return inside. -/
def returnInside : List Text := ["", "a\rb"].map String.toList

theorem ofText_text_inverse_returnInside :
    (∀ line ∈ returnInside, '\n' ∉ line) ∧ (∀ line ∈ returnInside, line.getLast? ≠ some '\r') ∧
      (ofText "\r\na\rb".toList).lines = returnInside ∧
      (ofText "\r\na\rb".toList).ending = .crlf ∧
      ¬ (Text.BreaksAlike "\n\r\n".toList true ∨ Text.BreaksAlike "\n\r\n".toList false) := by
  have hfeed : ∀ line ∈ returnInside, '\n' ∉ line := by decide
  have hreturn : ∀ line ∈ returnInside, line.getLast? ≠ some '\r' := by decide
  obtain ⟨hlines, hending⟩ := ofText_text_inverse.2 returnInside .crlf (by decide) hfeed hreturn
  refine ⟨hfeed, hreturn, hlines, hending (by decide), fun h ↦ ?_⟩
  exact absurd ((ofText_text_inverse.1 "\n\r\n".toList).mpr ⟨by decide, h⟩) (by decide)

end Snapshot

/-! ## Detecting the ending

The return in front of the first line feed is looked for, and nothing behind it. Joining the lines
again leaves that place as it was. -/

namespace LineEnding

open Snapshot

theorem detect_cons {c : Char} {t : Text} (hc : c ≠ '\n') (ht : c = '\r' → t.head? ≠ some '\n') :
    detect (c :: t) = detect t := by
  rw [detect]
  · exact hc
  · rintro rest rfl rfl
    exact ht rfl rfl

theorem detect_append_newline {line : Text} (h : '\n' ∉ line) (rest : Text) :
    detect (line ++ '\n' :: rest) = if hasReturn line then .crlf else .lf := by
  induction line with
  | nil => rfl
  | cons c line ih =>
    rw [List.mem_cons, not_or] at h
    cases line with
    | nil =>
      by_cases hc : c = '\r'
      · rw [hc]
        rfl
      · have hreturn : hasReturn [c] = false := by simpa [hasReturn] using hc
        rw [List.cons_append, List.nil_append, detect_cons (Ne.symm h.1) fun heq ↦ absurd heq hc,
          hreturn]
        rfl
    | cons d line =>
      have hd : d ≠ '\n' := by
        rintro rfl
        exact h.2 List.mem_cons_self
      have hreturn : hasReturn (c :: d :: line) = hasReturn (d :: line) := by
        rw [hasReturn, hasReturn, List.getLast?_cons_cons]
      rw [List.cons_append, detect_cons (Ne.symm h.1) fun _ ↦ by simpa using hd, ih h.2, hreturn]

theorem detect_of_not_mem {t : Text} (h : '\n' ∉ t) : detect t = .lf := by
  induction t with
  | nil => rfl
  | cons c t ih =>
    rw [List.mem_cons, not_or] at h
    refine (detect_cons (Ne.symm h.1) fun _ hhead ↦ ?_).trans (ih h.2)
    exact h.2 (List.mem_of_head? hhead)

private theorem detect_eq_ending (t : Text) : detect t = (ofText t).ending := by
  cases t using Text.line_induction with
  | last line hline =>
    rw [detect_of_not_mem hline, ofText]
    dsimp only
    rw [Text.lines_of_not_mem hline]
    rfl
  | more line rest hline _ => rw [detect_append_newline hline, ending_ofText_append hline]

private theorem detect_eq_crlf_iff {t : Text} :
    detect t = .crlf ↔ ∃ line rest, '\n' ∉ line ∧ t = line ++ '\r' :: '\n' :: rest := by
  constructor
  · intro h
    cases t using Text.line_induction with
    | last line hline =>
      rw [detect_of_not_mem hline] at h
      exact absurd h (by decide)
    | more line rest hline _ =>
      rw [detect_append_newline hline] at h
      split at h
      · next hreturn =>
        refine ⟨dropReturn line, rest, not_mem_dropReturn hline, ?_⟩
        conv => lhs; rw [← dropReturn_of_hasReturn hreturn]
        rw [List.append_assoc, List.singleton_append]
      · exact absurd h (by decide)
  · rintro ⟨line, rest, hline, rfl⟩
    have hsplit : line ++ '\r' :: '\n' :: rest = (line ++ ['\r']) ++ '\n' :: rest := by simp
    have hfeed : '\n' ∉ line ++ ['\r'] := LineEnding.crlf.not_mem_append_mark hline
    have hreturn : hasReturn (line ++ ['\r']) = true := by
      rw [hasReturn, List.getLast?_concat]
      rfl
    rw [hsplit, detect_append_newline hfeed, hreturn, if_pos rfl]

end LineEnding

namespace Snapshot

/-- The first line break comes back as it was, whatever becomes of the others. -/
theorem text_ofText_append {line : Text} (h : '\n' ∉ line) (rest : Text) :
    ∃ rest', (ofText (line ++ '\n' :: rest)).text = line ++ '\n' :: rest' := by
  generalize he : (ofText (line ++ '\n' :: rest)).ending = e
  have hreturn : hasReturn line = decide (e = .crlf) := by
    rw [← he, ending_ofText_append h]
    cases hasReturn line <;> rfl
  have hne : rest.lines.map dropReturn ≠ [] := by simpa using Text.lines_ne_nil rest
  refine ⟨e.text.intercalate (rest.lines.map dropReturn), ?_⟩
  rw [text, he, ofText]
  dsimp only
  rw [Text.lines_append_newline h, List.map_cons, e.intercalate_cons _ hne,
    dropReturn_append_mark_eq_iff.mpr hreturn]

end Snapshot

namespace Document

/-- The ending that is detected is the same in the text that a host holds, in the lines it is cut
into, and in the text that these are joined to again. It is a return and a line feed exactly if the
first line feed of the text has a return in front. -/
theorem lineEnding_ofText (raw : Text) :
    (live raw).lineEnding = (Snapshot.ofText raw).ending ∧
      (snapshot (.ofText raw)).lineEnding = (Snapshot.ofText raw).ending ∧
      ((Snapshot.ofText raw).ending = .crlf ↔
        ∃ line rest, '\n' ∉ line ∧ raw = line ++ '\r' :: '\n' :: rest) := by
  refine ⟨LineEnding.detect_eq_ending raw, ?_, ?_⟩
  · rw [lineEnding, text]
    cases raw using Text.line_induction with
    | last _ hline =>
      have htext : (Snapshot.ofText raw).text = Snapshot.dropReturn raw := by
        rw [Snapshot.text, Snapshot.ofText, Text.lines_of_not_mem hline, List.map_singleton,
          List.intercalate_singleton]
      rw [htext, LineEnding.detect_of_not_mem (Snapshot.not_mem_dropReturn hline),
        ← LineEnding.detect_eq_ending, LineEnding.detect_of_not_mem hline]
    | more line rest hline _ =>
      obtain ⟨rest', htext⟩ := Snapshot.text_ofText_append hline rest
      rw [htext, LineEnding.detect_append_newline hline, Snapshot.ending_ofText_append hline]
  · rw [← LineEnding.detect_eq_ending, LineEnding.detect_eq_crlf_iff]

/-- Of several returns in front of the first line feed one is taken off and put back. -/
example : (snapshot (.ofText "a\r\r\nb\nc".toList)).text = "a\r\r\nb\r\nc".toList := by decide

end Document

end CSharpOutline
